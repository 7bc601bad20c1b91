import FineTuneHarness.Executor.Effect
import FineTuneHarness.Validation.Configs

/-!
# `FineTuneRunner`

`refreshRunStatus` reads the run, reads its tasks, computes the target and writes it: up
to eight store calls with nothing to hold them together.
-/
namespace FineTuneHarness

open Library (Program)

/-! ## The target status -/

/-- The run status the task statuses ask for. -/
def targetStatus (tasks : List TaskRecord) : RunStatus :=
  if tasks.isEmpty then .validated
  else if tasks.all (·.status = .succeeded) then .completed
  else if tasks.any (·.status.unsuccessful) &&
      (tasks.any (·.status = .succeeded) || tasks.any (·.status.inProgress)) then .partialFailed
  else if tasks.all (fun t => t.status.unsuccessful || t.status = .cancelled) then .failed
  else if tasks.any (·.status = .running) || tasks.any (·.status = .leased) ||
      tasks.any (·.status = .succeeded) || tasks.any (fun t => 0 < t.attemptCount) then .running
  else .validated

/-- `_TERMINAL_STATUSES`. -/
def RunStatus.terminal (s : RunStatus) : Bool := s ∈ [.completed, .failed, .cancelled]

/-! ## `refresh_run_status` -/

def recordStatusChange (runId : RunId) (source target : RunStatus) : Prog Unit :=
  record runId none "run_status_changed" [("from", .str source.value), ("to", .str target.value)]

/-- Where the direct edge is missing but both edges by way of `RUNNING` exist, the run
is moved to `RUNNING` and read again. -/
def stepThroughRunning (runId : RunId) (run : RunRecord) (target : RunStatus) :
    Prog RunRecord :=
  if target ∉ allowedRunTransitions run.status ∧
      RunStatus.running ∈ allowedRunTransitions run.status ∧
      target ∈ allowedRunTransitions .running then do
    Program.ofExcept (ensureRunTransition run.status .running)
    call (.updateRunStatus runId .running)
    recordStatusChange runId run.status .running
    match ← call (.getRun runId) with
    | some run => pure run
    | none => throw (.attributeError "'NoneType' object has no attribute 'status'")
  else pure run

def stampFinished (runId : RunId) (run : RunRecord) (target : RunStatus) : Prog Unit :=
  if target.terminal && run.finishedAt.isNone then do
    let now ← ask .utcNow
    call (.updateRunFinishedAt runId now)
  else pure ()

def moveRun (runId : RunId) (run : RunRecord) (target : RunStatus) : Prog Unit := do
  let run ← stepThroughRunning runId run target
  Program.ofExcept (ensureRunTransition run.status target)
  call (.updateRunStatus runId target)
  stampFinished runId run target
  recordStatusChange runId run.status target

def refreshRunStatus (runId : RunId) : Prog RunStatus := do
  match ← call (.getRun runId) with
  | none => throw (unknownRun runId)
  | some run =>
    let tasks ← call (.listTasks runId)
    if targetStatus tasks = run.status then pure (targetStatus tasks)
    else do
      moveRun runId run (targetStatus tasks)
      pure (targetStatus tasks)

structure RunSummary where
  runId : RunId
  name : String
  status : RunStatus
  taskCounts : List (TaskStatus × Nat)
  taskTotal : Nat

/-- The statuses in the order of their values. -/
def TaskStatus.sorted : List TaskStatus :=
  [.cancelled, .degenerate, .failed, .leased, .pending, .running, .succeeded, .timedOut]

def getRunStatus (runId : RunId) : Prog RunSummary := do
  let status ← refreshRunStatus runId
  match ← call (.getRun runId) with
  | none => throw (unknownRun runId)
  | some run =>
    let tasks ← call (.listTasks runId)
    let count := fun st => (tasks.filter fun t => t.status = st).length
    pure {
      runId := run.runId, name := run.name, status
      taskCounts := (TaskStatus.sorted.filter fun st => count st ≠ 0).map fun st => (st, count st)
      taskTotal := tasks.length }

/-! ## `create_run` -/

/-- `canonical_json_hash`. -/
def canonicalJsonHash (pf : Platform) (d : Dict) : Except PyExc String := do
  return pf.digest (← (PyVal.dict d).dumps)

/-- `payload.get("task_key", f"task-{index}")`. A `TaskRecord` declares its key a string;
other keys are refused here. -/
def taskKeyOf (payload : Dict) (index : Nat) : Except PyExc String :=
  match payload.get? "task_key" with
  | none => .ok s!"task-{index}"
  | some (.str k) => .ok k
  | some v => .error (.typeError s!"task_key must be a str, got {v.typeName}")

/-- The dataset hashes a run is created with. -/
def datasetHashesOf (config : Dict) : Dict :=
  if config.contains "dataset_hash" then Dict.ofList [("default", config.get "dataset_hash")]
  else (Configs.section? config "datasets").getD []

def createTasks (runId : RunId) : List Dict → Nat → Prog Unit
  | [], _ => pure ()
  | payload :: rest, index => do
    let taskId ← ask .uuid4
    let taskKey ← Program.ofExcept (taskKeyOf payload index)
    call (.createTask { taskId, runId, taskKey, status := .pending, payload })
    call (.appendEvent { runId, taskId := some taskId, kind := "task_created", payload })
    createTasks runId rest (index + 1)

def createRun (pf : Platform) (name : String) (config : Dict) (tasks : List Dict) :
    Prog RunId := do
  let seed ← Program.ofExcept (validateRunConfig pf config)
  let runId ← ask .uuid4
  let configHash ← Program.ofExcept (canonicalJsonHash pf config)
  let createdAt ← ask .utcNow
  let envSnapshot ← ask .captureEnvSnapshot
  call (.createRun {
    runId, name, status := .created, config, createdAt, envSnapshot, seed := some seed
    datasetHashes := datasetHashesOf config, configHash := some configHash })
  record runId none "run_created" [("name", .str name)]
  Program.ofExcept (ensureRunTransition .created .validated)
  call (.updateRunStatus runId .validated)
  record runId none "run_validated" []
  createTasks runId tasks 0
  pure runId

end FineTuneHarness
