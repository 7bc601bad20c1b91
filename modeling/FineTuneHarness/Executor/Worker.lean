import FineTuneHarness.Evaluation.Validator
import FineTuneHarness.Orchestrator.Runner

/-!
# `LocalWorker`

`runOnce` is cut along its source: the block before the handler, and one block for each
way the handler call can end. What `run_once` keeps in the worker between calls
(`_started_runs`, `_run_seeds`) is passed along as `RunMemory`.
-/
namespace FineTuneHarness

open Library (Program)

/-- `artifactStore` and `defaultSandbox` say whether there is an artifact store and
whether the sandbox is `NoSandbox`; what they do is outside code. -/
structure LocalWorker where
  workerId : WorkerId
  artifactStore : Bool := false
  retryPolicy : RetryPolicy := {}
  timeoutPolicy : TimeoutPolicy := {}
  hooks : HookRegistry := {}
  defaultSandbox : Bool := true
  hooksFactory : Option String := none
  sandboxFactory : Option String := none
  maxOomRetries : Int := 0

/-- The runs a worker has started, each with its cached seed. -/
abbrev RunMemory := List (RunId × Option Int)

def RunMemory.seed (mem : RunMemory) (runId : RunId) : Option Int :=
  ((mem.find? fun e => e.1 = runId).bind (·.2))

def RunMemory.started (mem : RunMemory) (runId : RunId) : Bool := mem.any fun e => e.1 = runId

/-- The message of a `DegenerateResultError`. -/
def degenerateResultError (pf : Platform) (taskKey : String) (status : ResultStatus)
    (errors : List String) : PyExc where
  cls := "DegenerateResultError"
  bases := ["Exception"]
  text := s!"task {pf.repr (.str taskKey)} result failed validation ({status.value}): {pf.repr (.list (errors.map .str))}"

/-- The locals of `run_once` that its branches share. -/
structure Attempt where
  runId : RunId
  task : TaskRecord
  count : Nat

namespace LocalWorker

variable (pf : Platform) (w : LocalWorker)

/-! ## Settings of one task -/

def resolveMaxAttempts (payload : Dict) : Except PyExc Int := do
  let raw ← ((payload.get? "max_attempts").getD (.int w.retryPolicy.maxAttempts)).toInt
  return max 1 raw

def resolveTimeout (payload : Dict) : Except PyExc (Option Int) :=
  match payload.get? "timeout_seconds" with
  | none => .ok w.timeoutPolicy.timeoutSeconds
  | some .none => .ok none
  | some raw => do return some (← raw.toInt)

/-! ## Blocks of `run_once` -/

def recordHookFired (a : Attempt) (p : HookPoint) : Prog Unit :=
  record a.runId (some a.task.taskId) "hook_fired"
    [("point", .str p.value), ("hooks", .list ((w.hooks.hookNames p).map .str))]

/-- The event of one attempt, under this worker's name. -/
def recordAttempt (a : Attempt) (kind : String) (more : List (String × PyVal)) : Prog Unit :=
  record a.runId (some a.task.taskId) kind
    ([("worker_id", .str w.workerId), ("attempt", .int a.count)] ++ more)

/-- `fire("on_run_status_changed", …)`. -/
def announceStatus (a : Attempt) (status : RunStatus) : Prog Unit := do
  let _ ← w.hooks.fire (.onRunStatusChanged a.runId status)
  pure ()

/-- From the lease to the attempt's own `task_running` event and status refresh. -/
def beginAttempt (runId : RunId) (task : TaskRecord) : Prog Attempt := do
  let count ← call (.incrementTaskAttempts task.taskId)
  let a : Attempt := { runId, task, count }
  call (.markTaskRunning task.taskId)
  w.recordAttempt a "task_running" []
  let _ ← refreshRunStatus runId
  pure a

/-- `apply_seed(_seed)` where a seed is cached. -/
def seedAttempt : Option Int → Prog Unit
  | none => pure ()
  | some seed => Program.ofExcept (applySeed pf seed)

/-- Seed, hooks and deadline: the payload the handler will see, and its timeout. -/
def prepare (seed : Option Int) (a : Attempt) : Prog (Dict × Option Int) := do
  seedAttempt pf seed
  let c ← w.hooks.fire (.beforeTask a.task)
  w.recordHookFired a .beforeTask
  let timeout ← Program.ofExcept (w.resolveTimeout c.payload)
  pure (c.payload, timeout)

def deadlinePassed (seconds : Int) : PyExc :=
  .timeoutError s!"task exceeded timeout of {seconds}s"

/-- What `future.result(timeout=…)` makes of a handler call. The handler's own
`TimeoutError` is taken for the deadline's. -/
def withinDeadline (seconds : Int) : Option (Except PyExc PyVal) → Except PyExc PyVal
  | none => .error (deadlinePassed seconds)
  | some (.error e) =>
    if e.isInstance "TimeoutError" then .error (deadlinePassed seconds) else .error e
  | some (.ok v) => .ok v

/-- `_execute`. -/
def execute (task : TaskRecord) : Option Int → Prog (HandlerRun (Except PyExc PyVal))
  | none => ask (.runHandler task)
  | some seconds => do
    let run ← ask (.runHandlerWithin task seconds)
    pure { run with outcome := withinDeadline seconds run.outcome }

def onTimeout (a : Attempt) (payload : Dict) (exc : PyExc) : Prog TaskRecord := do
  call (.updateTaskStatus a.task.taskId .timedOut none (some exc.text))
  w.recordAttempt a "task_timed_out" [("error", .str exc.text)]
  let status ← refreshRunStatus a.runId
  let _ ← w.hooks.fire (.afterTaskTimeout { a.task with payload })
  w.recordHookFired a .afterTaskTimeout
  w.announceStatus a status
  throw exc

/-- The requeue of `_handle_oom`, which re-raises. -/
def oomRequeue (a : Attempt) (exc : PyExc) (prior : Nat) : Prog Unit := do
  call (.updateTaskStatus a.task.taskId .pending none (some exc.text))
  w.recordAttempt a "task_oom_requeued"
    [("oom_attempt", .int (prior + 1)), ("max_oom_retries", .int w.maxOomRetries),
      ("error", .str exc.text)]
  let status ← refreshRunStatus a.runId
  w.announceStatus a status
  throw exc

/-- The persisted OOM requeues of a task. -/
def oomRequeues (taskId : TaskId) (events : List EventRecord) : Nat :=
  (events.filter fun e => e.taskId = some taskId ∧ e.kind = "task_oom_requeued").length

/-- `_handle_oom`: returns normally only when the budget is spent. -/
def handleOom (a : Attempt) (exc : PyExc) : Prog Unit := do
  let events ← call (.listEvents a.runId)
  let prior := oomRequeues a.task.taskId events
  if (prior : Int) ≥ w.maxOomRetries then pure ()
  else w.oomRequeue a exc prior

def recordRetry (a : Attempt) (exc : PyExc) (maxAttempts : Int) : Prog Unit := do
  call (.updateTaskStatus a.task.taskId .pending none (some exc.text))
  w.recordAttempt a "task_retry_scheduled"
    [("max_attempts", .int maxAttempts), ("error", .str exc.text)]

def recordFailed (a : Attempt) (exc : PyExc) : Prog Unit := do
  call (.updateTaskStatus a.task.taskId .failed none (some exc.text))
  w.recordAttempt a "task_failed" [("error", .str exc.text)]

/-- Back to the queue while attempts are left, otherwise `FAILED`. -/
def recordFailure (a : Attempt) (exc : PyExc) (maxAttempts : Int) : Prog Unit :=
  if (a.count : Int) < maxAttempts then w.recordRetry a exc maxAttempts
  else w.recordFailed a exc

/-- The backoff after a scheduled retry; the payload is read again, as the hooks left it. -/
def backOff (a : Attempt) (payload : Dict) : Prog Unit := do
  let maxAttempts ← Program.ofExcept (w.resolveMaxAttempts payload)
  if (a.count : Int) < maxAttempts then do
    let delay ← Program.ofExcept (w.retryPolicy.delayForAttempt a.count)
    ask (.sleep delay)
  else pure ()

/-- The OOM path is taken with a positive budget only. -/
def requeueOnOom (a : Attempt) (exc : PyExc) : Prog Unit :=
  if w.maxOomRetries > 0 ∧ isOomError pf exc then w.handleOom a exc else pure ()

def onException (a : Attempt) (payload : Dict) (exc : PyExc) : Prog TaskRecord := do
  w.requeueOnOom pf a exc
  let maxAttempts ← Program.ofExcept (w.resolveMaxAttempts payload)
  w.recordFailure a exc maxAttempts
  let status ← refreshRunStatus a.runId
  let c ← w.hooks.fire (.afterTaskFailure { a.task with payload } exc)
  w.recordHookFired a .afterTaskFailure
  w.announceStatus a status
  w.backOff a c.payload
  throw exc

/-- `{**result, "wall_seconds": …}` where the key is missing. Anything that is no mapping
fails here, or at the merge that follows the validation. -/
def stampWall (wall : PyFloat) : PyVal → Except PyExc PyVal
  | .dict d =>
    .ok (.dict (if Dict.contains d "wall_seconds" then d else Dict.set d "wall_seconds" (.float wall)))
  | .mapping d =>
    if Dict.contains d "wall_seconds" then .ok (.mapping d)
    else .ok (.dict (Dict.set d "wall_seconds" (.float wall)))
  | .str _ => .error (.typeError "'str' object is not a mapping")
  | .list _ => .error (.typeError "'list' object is not a mapping")
  | v => .error (.typeError s!"argument of type '{v.typeName}' is not iterable")

/-- The entries of a mapping. -/
def items : PyVal → Dict
  | .dict d | .mapping d => d
  | _ => []

/-- What becomes of a returned value: the stamped result and the validator's outcome. -/
def judge (payload : Dict) (wall : PyFloat) (v : PyVal) : Except PyExc (Dict × ValidationOutcome) := do
  let result ← stampWall wall v
  let outcome ← validateResult pf result (payload.get "method")
  let result := (items result).set "_validation_status" (.str outcome.status.value)
  if outcome.status.rejected then
    return (result.set "_validation_errors" (.list (outcome.validationErrors.map .str)), outcome)
  else return (result, outcome)

/-- `write_json_artifact` registers the file it has written. -/
def writeJsonArtifact (a : Attempt) (result : Dict) : Prog Unit := do
  let written ← ask (.writeArtifact {
    runId := a.runId, taskId := a.task.taskId, kind := "task_result", payload := result
    filename := s!"{a.task.taskKey}-result.json" })
  let artifact ← Program.ofExcept written
  call (.createArtifact artifact)

def keepArtifact (a : Attempt) (result : Dict) : Prog Unit :=
  if w.artifactStore then writeJsonArtifact a result else pure ()

def recordDegenerate (a : Attempt) (payload result : Dict) (outcome : ValidationOutcome) :
    Prog TaskRecord := do
  let errors := PyVal.list (outcome.validationErrors.map .str)
  call (.updateTaskStatus a.task.taskId .degenerate (some result)
    (some s!"{outcome.status.value}: {pf.repr errors}"))
  w.keepArtifact a result
  w.recordAttempt a "task_degenerate"
    [("validation_status", .str outcome.status.value), ("validation_errors", errors)]
  let status ← refreshRunStatus a.runId
  let exc := degenerateResultError pf a.task.taskKey outcome.status outcome.validationErrors
  let _ ← w.hooks.fire (.afterTaskFailure { a.task with payload } exc)
  w.recordHookFired a .afterTaskFailure
  w.announceStatus a status
  throw exc

def onSuccess (a : Attempt) (payload result : Dict) : Prog TaskRecord := do
  let c ← w.hooks.fire (.afterTaskSuccess { a.task with payload } result)
  w.recordHookFired a .afterTaskSuccess
  call (.updateTaskStatus a.task.taskId .succeeded (some c.result) none)
  w.keepArtifact a c.result
  w.recordAttempt a "task_succeeded" []
  let status ← refreshRunStatus a.runId
  w.announceStatus a status
  pure a.task

def onReturn (a : Attempt) (payload : Dict) (wall : PyFloat) (v : PyVal) : Prog TaskRecord := do
  let (result, outcome) ← Program.ofExcept (judge pf payload wall v)
  if outcome.status.rejected then w.recordDegenerate pf a payload result outcome
  else w.onSuccess a payload result

/-- From the end of the handler call on. -/
def finish (a : Attempt) (run : HandlerRun (Except PyExc PyVal)) : Prog TaskRecord :=
  match run.outcome with
  | .error exc =>
    if exc.isInstance "TimeoutError" then w.onTimeout a run.payload exc
    else w.onException pf a run.payload exc
  | .ok v => w.onReturn pf a run.payload run.wallSeconds v

/-- One attempt at a leased task. -/
def attempt (seed : Option Int) (runId : RunId) (task : TaskRecord) : Prog TaskRecord := do
  let a ← w.beginAttempt runId task
  let (payload, timeout) ← w.prepare pf seed a
  let run ← execute { task with payload } timeout
  w.finish pf a run

/-- `lease_next_task` leases for 300 seconds. -/
def leaseSeconds : Int := 300

def leaseAndRun (seed : Option Int) (runId : RunId) : Prog (Option TaskRecord) := do
  match ← call (.leaseNextPendingTask runId w.workerId leaseSeconds) with
  | none => pure none
  | some task =>
    let task ← w.attempt pf seed runId task
    pure (some task)

/-- The first call for a run: the seed is cached and `before_run_start` fires. -/
def startRun (mem : RunMemory) (runId : RunId) : Prog RunMemory :=
  if mem.started runId then pure mem
  else do
    let run ← call (.getRun runId)
    let _ ← w.hooks.fire (.beforeRunStart runId)
    pure ((runId, run.bind (·.seed)) :: mem)

/-- `run_once`: what it returns or raises, and the worker's memory afterwards. -/
def runOnce (mem : RunMemory) (runId : RunId) :
    Prog (RunMemory × Except PyExc (Option TaskRecord)) := do
  let mem ← w.startRun mem runId
  let outcome ← (w.leaseAndRun pf (mem.seed runId) runId).attempt
  pure (mem, outcome)

/-! ## `drain` -/

/-- `_record_drain_started`. -/
def recordDrainStarted (runId : RunId) (c : ConcurrencyConfig) : Prog Unit :=
  record runId none "drain_started"
    [("worker_id", .str w.workerId), ("mode", .str c.mode.value),
      ("max_concurrent", .int c.maxConcurrent), ("min_free_mb", .float (.finite c.minFreeMb))]

/-- How a drain ends: its return value, or the `DegradedRunError` it raises. -/
inductive DrainEnd
  | succeeded (n : Nat)
  | degraded (failedTasks : List TaskRecord) (succeeded : Nat)

/-- The scan for unsuccessful tasks at the end of a drain. -/
def concludeDrain (runId : RunId) (succeeded : Nat) : Prog DrainEnd := do
  let tasks ← call (.listTasks runId)
  let failedTasks := tasks.filter (·.status.unsuccessful)
  if failedTasks.isEmpty then pure (.succeeded succeeded)
  else pure (.degraded failedTasks succeeded)

/-- The loop of `drain` without `stop_fn`, for at most `fuel` rounds; `none` means that it
would go on. -/
def drainLoop (runId : RunId) : Nat → RunMemory → Nat → Prog (Option Nat)
  | 0, _, _ => pure none
  | fuel + 1, mem, succeeded => do
    let (mem, outcome) ← w.runOnce pf mem runId
    match outcome with
    | .ok none => pure (some succeeded)
    | .ok (some _) => drainLoop runId fuel mem (succeeded + 1)
    | .error _ => drainLoop runId fuel mem succeeded

def drain (fuel : Nat) (mem : RunMemory) (runId : RunId) : Prog (Option DrainEnd) := do
  w.recordDrainStarted runId {}
  match ← w.drainLoop pf runId fuel mem 0 with
  | none => pure none
  | some succeeded => do
    let ending ← concludeDrain runId succeeded
    pure (some ending)

/-- The drain returned `n`. -/
def drainReturned (n : Nat) : Except PyExc (Option DrainEnd) → Bool
  | .ok (some (.succeeded m)) => m = n
  | _ => false

theorem eq_of_drainReturned {n : Nat} {out : Except PyExc (Option DrainEnd)}
    (h : drainReturned n out = true) : out = .ok (some (.succeeded n)) := by
  unfold drainReturned at h
  split at h
  next m => rw [of_decide_eq_true h]
  next => cases h

end LocalWorker
end FineTuneHarness
