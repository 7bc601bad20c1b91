import FineTuneHarness.Executor.Worker
import FineTuneHarness.Library.Interleaving

/-!
# Workers side by side on one store

`fleet` interleaves any number of workers, each in the middle of a `run_once`, over one
store. The scheduler picks the next worker and what its surroundings answer, clock readings
included; between two requests a worker may crash, and expired leases may be requeued or a
dead worker's task reclaimed at any time. The trace keeps every request with its reply,
newest first, and the workers that have crashed.
-/
namespace FineTuneHarness

open Library

structure Entry where
  worker : WorkerId
  effect : Effect
  reply : effect.Reply

structure Traced where
  store : StateStore
  log : List Entry := []
  dead : List WorkerId := []

/-- What a worker is started with. -/
structure Job where
  worker : LocalWorker
  memory : RunMemory := []
  runId : RunId

/-- Calls made by nobody in particular. -/
inductive Maintenance
  | requeueExpiredLeases (runId : RunId)
  | reclaimDeadWorker (runId : RunId) (worker : WorkerId) (maxReclaims : Int)

def Maintenance.op : Maintenance → StoreOp
  | .requeueExpiredLeases runId => .requeueExpiredLeases runId
  | .reclaimDeadWorker runId worker maxReclaims => .reclaimDeadWorker runId worker maxReclaims

/-- What `run_once` hands back. -/
abbrev Outcome := RunMemory × Except PyExc (Option TaskRecord)

abbrev Fleet := Service WorkerId Traced Effect Effect.Reply PyExc Outcome Answers Job
  (Maintenance × Clock)

abbrev FleetState := Pool WorkerId Traced Effect Effect.Reply PyExc Outcome

abbrev FleetGuard := Service.Guard WorkerId Traced Effect Answers Job (Maintenance × Clock)

/-- The worker a job runs: its id is the client's. -/
def Job.workerFor (j : Job) (i : WorkerId) : LocalWorker := { j.worker with workerId := i }

def fleet (pf : Platform) : Fleet where
  exec i e a s :=
    ((e.perform a s.store).1,
      { s with
        store := (e.perform a s.store).2, log := ⟨i, e, (e.perform a s.store).1⟩ :: s.log })
  spawn i j s :=
    if i ∈ s.dead then none else some ((j.workerFor i).runOnce pf j.memory j.runId, s)
  crash i s := { s with dead := i :: s.dead }
  env d s := some { s with store := (s.store.exec d.1.op d.2).2 }

/-- A worker that starts runs one `run_once`. -/
theorem fleet_spawn {pf : Platform} {i : WorkerId} {j : Job} {s s' : Traced} {prog : Prog Outcome}
    (h : (fleet pf).spawn i j s = some (prog, s')) :
    i ∉ s.dead ∧ prog = (j.workerFor i).runOnce pf j.memory j.runId ∧ s' = s := by
  simp only [fleet] at h
  split at h
  · cases h
  next hi =>
    obtain ⟨rfl, rfl⟩ := Prod.mk.inj (Option.some.inj h)
    exact ⟨hi, rfl, rfl⟩

/-- No worker started, nothing done yet. -/
def fleetOn (s : StateStore) : FleetState where
  shared := { store := s }
  client := fun _ => .idle

/-! ## Reading the trace -/

namespace Entry

/-- A `mark_task_running(t)` that succeeded. -/
def marks (t : TaskId) : Entry → Bool
  | ⟨_, .store (.markTaskRunning t'), .ok _⟩ => t' = t
  | _ => false

/-- An `update_task_status(t)` that succeeded. -/
def settles (t : TaskId) : Entry → Bool
  | ⟨_, .store (.updateTaskStatus t' _ _ _), .ok _⟩ => t' = t
  | _ => false

/-- An `update_task_status(t)` that has set a terminal status. -/
def terminates (t : TaskId) : Entry → Bool
  | ⟨_, .store (.updateTaskStatus t' st _ _), .ok _⟩ => t' = t && st.terminal
  | _ => false

/-- A call refused because the lifecycle has no such edge. -/
def InvalidTransition : Entry → Prop
  | ⟨_, .store (.updateTaskStatus ..), .error e⟩ =>
    ∃ current target, e = invalidTaskTransition current target
  | _ => False

end Entry

/-- Worker `w` is between a successful `mark_task_running(t)` and its update of `t`. -/
def between (w : WorkerId) (t : TaskId) : List Entry → Bool
  | [] => false
  | e :: log =>
    if e.worker = w ∧ e.marks t then true
    else if e.worker = w ∧ e.settles t then false
    else between w t log

/-- The worker whose `mark_task_running(t)` succeeded last. -/
def executor (t : TaskId) : List Entry → Option WorkerId
  | [] => none
  | e :: log => if e.marks t then some e.worker else executor t log

/-- How many terminal outcomes the task has received. -/
def terminalOutcomes (t : TaskId) (log : List Entry) : Nat := log.countP (·.terminates t)

/-! ## A small store to replay runs on -/

/-- A pending task of the run `r`, named by its key. -/
def pendingTask (key : String) (payload : Dict) : TaskRecord where
  taskId := key
  runId := "r"
  taskKey := key
  status := .pending
  payload := payload

/-- A store that holds the run `r` and one of its tasks. -/
def storeWith (backend : Backend) (status : RunStatus) (task : TaskRecord) : StateStore where
  backend := backend
  tables := {
    runs := ⟨[{ runId := "r", name := "demo", status, config := [], createdAt := 0 }],
      List.nodup_singleton _⟩
    tasks := ⟨[task], List.nodup_singleton _⟩
    events := []
    artifacts := [] }

theorem storeWith_task? {b : Backend} {st : RunStatus} {task r : TaskRecord} {id : TaskId}
    (h : (storeWith b st task).task? id = some r) : r = task :=
  List.mem_singleton.mp (Table.find?_eq_some_iff.mp h).1

/-- The next `n` requests of a worker, all answered alike. -/
def turns (i : WorkerId) (a : Answers) (n : Nat) : List (Act WorkerId Answers Job (Maintenance × Clock)) :=
  List.replicate n (.call i a)

/-- Two workers hold the same lease: `B` took it over 400 seconds after `A`. -/
def leaseRace : List (Act WorkerId Answers Job (Maintenance × Clock)) :=
  let early := Answers.steady 0 (.ok (.dict []))
  let late := Answers.steady 400000000 (.ok (.dict []))
  [.start "A" { worker := { workerId := "A" }, runId := "r" },
    .start "B" { worker := { workerId := "B" }, runId := "r" }] ++
    turns "A" early 2 ++ turns "B" late 2 ++ turns "A" late 2 ++ turns "B" late 2

end FineTuneHarness
