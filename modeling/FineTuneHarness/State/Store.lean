import FineTuneHarness.Library.Program
import FineTuneHarness.State.Stores

/-!
# `StateStore`: one interface, two implementations

A store call is a value of `StoreOp`, and `StateStore.exec` sends it to the implementation
at hand. The `exec_*` equations say once, for both implementations, what each call
answers and how the tables change; nothing later unfolds a store method.
-/
namespace FineTuneHarness

open Library (Table)

inductive Backend
  | memory | sqlite
deriving DecidableEq

structure StateStore where
  backend : Backend
  tables : Tables

/-- The abstract methods of the store. -/
inductive StoreOp
  | createRun (run : RunRecord)
  | updateRunStatus (id : RunId) (status : RunStatus)
  | updateRunFinishedAt (id : RunId) (finishedAt : Instant)
  | getRun (id : RunId)
  | listRuns
  | createTask (task : TaskRecord)
  | updateTaskStatus (id : TaskId) (status : TaskStatus) (result : Option Dict)
      (error : Option String)
  | listTasks (id : RunId)
  | leaseNextPendingTask (runId : RunId) (worker : WorkerId) (seconds : Int)
  | markTaskRunning (id : TaskId)
  | incrementTaskAttempts (id : TaskId)
  | requeueExpiredLeases (runId : RunId)
  | reclaimDeadWorker (runId : RunId) (worker : WorkerId) (maxReclaims : Int)
  | appendEvent (e : EventRecord)
  | createArtifact (a : ArtifactRecord)
  | listArtifacts (id : RunId)
  | listEvents (id : RunId)

/-- What a method returns when it does not raise. -/
@[reducible] def StoreOp.Reply : StoreOp → Type
  | .getRun _ => Option RunRecord
  | .listRuns => List RunRecord
  | .listTasks _ => List TaskRecord
  | .leaseNextPendingTask .. => Option TaskRecord
  | .incrementTaskAttempts _ => Nat
  | .requeueExpiredLeases _ => Nat
  | .reclaimDeadWorker .. => Reclaim
  | .listArtifacts _ => List ArtifactRecord
  | .listEvents _ => List EventRecord
  | _ => Unit

namespace StateStore

/-- Run the method of the implementation at hand; a method that raises changes nothing. -/
def commit {α : Type} (s : StateStore) (memory sqlite : Tables → Except PyExc (α × Tables)) :
    Except PyExc α × StateStore :=
  match (match s.backend with | .memory => memory s.tables | .sqlite => sqlite s.tables) with
  | .ok (a, tables) => (.ok a, { s with tables })
  | .error e => (.error e, s)

def exec : (op : StoreOp) → Clock → StateStore → Except PyExc op.Reply × StateStore
  | .createRun run, _, s => s.commit (InMemory.createRun run) (Sqlite.createRun run)
  | .updateRunStatus id st, _, s =>
    s.commit (InMemory.updateRunStatus id st) (Sqlite.updateRunStatus id st)
  | .updateRunFinishedAt id t, _, s =>
    s.commit (InMemory.updateRunFinishedAt id t) (Sqlite.updateRunFinishedAt id t)
  | .getRun id, _, s =>
    s.commit (fun m => .ok (InMemory.getRun id m, m)) (fun db => .ok (Sqlite.getRun id db, db))
  | .listRuns, _, s =>
    s.commit (fun m => .ok (InMemory.listRuns m, m)) (fun db => .ok (Sqlite.listRuns db, db))
  | .createTask task, _, s => s.commit (InMemory.createTask task) (Sqlite.createTask task)
  | .updateTaskStatus id st result error, _, s =>
    s.commit (InMemory.updateTaskStatus id st result error)
      (Sqlite.updateTaskStatus id st result error)
  | .listTasks id, _, s =>
    s.commit (fun m => .ok (InMemory.listTasks id m, m))
      (fun db => .ok (Sqlite.listTasks id db, db))
  | .leaseNextPendingTask runId w n, clk, s =>
    s.commit (InMemory.leaseNextPendingTask runId w n clk)
      (Sqlite.leaseNextPendingTask runId w n clk)
  | .markTaskRunning id, _, s =>
    s.commit (InMemory.markTaskRunning id) (Sqlite.markTaskRunning id)
  | .incrementTaskAttempts id, _, s =>
    s.commit (InMemory.incrementTaskAttempts id) (Sqlite.incrementTaskAttempts id)
  | .requeueExpiredLeases runId, clk, s =>
    s.commit (InMemory.requeueExpiredLeases runId clk) (Sqlite.requeueExpiredLeases runId clk)
  | .reclaimDeadWorker runId w n, _, s =>
    s.commit (InMemory.reclaimDeadWorker runId w n) (Sqlite.reclaimDeadWorker runId w n)
  | .appendEvent e, _, s => s.commit (InMemory.appendEvent e) (Sqlite.appendEvent e)
  | .createArtifact a, _, s => s.commit (InMemory.createArtifact a) (Sqlite.createArtifact a)
  | .listArtifacts id, _, s =>
    s.commit (fun m => .ok (InMemory.listArtifacts id m, m))
      (fun db => .ok (Sqlite.listArtifacts id db, db))
  | .listEvents id, _, s =>
    s.commit (fun m => .ok (InMemory.listEvents id m, m))
      (fun db => .ok (Sqlite.listEvents id db, db))

/-! ## Reading a store, and the updates the methods are made of -/

def run? (s : StateStore) (id : RunId) : Option RunRecord := s.tables.runs.find? id

def task? (s : StateStore) (id : TaskId) : Option TaskRecord := s.tables.tasks.find? id

def events (s : StateStore) : List EventRecord := s.tables.events

/-- The tasks of a run, as `list_tasks` returns them. -/
def tasksOf (s : StateStore) (id : RunId) : List TaskRecord :=
  sortByKey (s.tables.tasks.rows.filter fun t => t.runId = id)

def modifyRun (s : StateStore) (id : RunId) (f : RunRecord → RunRecord)
    (hf : ∀ r, (f r).runId = r.runId) : StateStore :=
  { s with tables := { s.tables with runs := s.tables.runs.modify id f hf } }

def updateTasks (s : StateStore) (p : TaskRecord → Bool) (f : TaskRecord → TaskRecord)
    (hf : ∀ t, (f t).taskId = t.taskId) : StateStore :=
  { s with tables := { s.tables with tasks := s.tables.tasks.updateWhere p f hf } }

def modifyTask (s : StateStore) (id : TaskId) (f : TaskRecord → TaskRecord)
    (hf : ∀ t, (f t).taskId = t.taskId) : StateStore :=
  s.updateTasks (fun t => t.taskId = id) f hf

def addEvents (s : StateStore) (es : List EventRecord) : StateStore :=
  { s with tables := { s.tables with events := s.tables.events ++ es } }

def addArtifact (s : StateStore) (a : ArtifactRecord) : StateStore :=
  { s with tables := { s.tables with artifacts := s.tables.artifacts ++ [a] } }

/-- The task the next lease on the run takes: the first leaseable one in key order. -/
def nextLeaseable (s : StateStore) (runId : RunId) (now : Instant) : Option TaskRecord :=
  (s.tasksOf runId).find? (·.leaseable now)

/-- What a store keeps of a result it is given: the object itself in memory, what comes
back out of the JSON column in SQLite. -/
def keep (s : StateStore) (result : Option Dict) : Except PyExc (Option Dict) :=
  match s.backend with
  | .memory => .ok result
  | .sqlite => Sqlite.jsonColumn result

section Frames

variable (s : StateStore) {id : RunId} {tid : TaskId} {f : RunRecord → RunRecord}
  {hf : ∀ r, (f r).runId = r.runId} {p : TaskRecord → Bool} {g : TaskRecord → TaskRecord}
  {hg : ∀ t, (g t).taskId = t.taskId} (es : List EventRecord) (a : ArtifactRecord)

@[simp] theorem modifyRun_backend : (s.modifyRun id f hf).backend = s.backend := rfl
@[simp] theorem updateTasks_backend : (s.updateTasks p g hg).backend = s.backend := rfl
@[simp] theorem modifyTask_backend : (s.modifyTask tid g hg).backend = s.backend := rfl
@[simp] theorem addEvents_backend : (s.addEvents es).backend = s.backend := rfl
@[simp] theorem addArtifact_backend : (s.addArtifact a).backend = s.backend := rfl

@[simp] theorem modifyRun_tasks : (s.modifyRun id f hf).tables.tasks = s.tables.tasks := rfl
@[simp] theorem addEvents_tasks : (s.addEvents es).tables.tasks = s.tables.tasks := rfl
@[simp] theorem addArtifact_tasks : (s.addArtifact a).tables.tasks = s.tables.tasks := rfl

@[simp] theorem updateTasks_runs : (s.updateTasks p g hg).tables.runs = s.tables.runs := rfl
@[simp] theorem modifyTask_runs : (s.modifyTask tid g hg).tables.runs = s.tables.runs := rfl
@[simp] theorem addEvents_runs : (s.addEvents es).tables.runs = s.tables.runs := rfl
@[simp] theorem addArtifact_runs : (s.addArtifact a).tables.runs = s.tables.runs := rfl

@[simp] theorem modifyRun_events : (s.modifyRun id f hf).events = s.events := rfl
@[simp] theorem updateTasks_events : (s.updateTasks p g hg).events = s.events := rfl
@[simp] theorem modifyTask_events : (s.modifyTask tid g hg).events = s.events := rfl
@[simp] theorem addEvents_events : (s.addEvents es).events = s.events ++ es := rfl
@[simp] theorem addArtifact_events : (s.addArtifact a).events = s.events := rfl

@[simp] theorem modifyRun_task? : (s.modifyRun id f hf).task? tid = s.task? tid := rfl
@[simp] theorem addEvents_task? : (s.addEvents es).task? tid = s.task? tid := rfl
@[simp] theorem addArtifact_task? : (s.addArtifact a).task? tid = s.task? tid := rfl

@[simp] theorem updateTasks_run? : (s.updateTasks p g hg).run? id = s.run? id := rfl
@[simp] theorem modifyTask_run? : (s.modifyTask tid g hg).run? id = s.run? id := rfl
@[simp] theorem addEvents_run? : (s.addEvents es).run? id = s.run? id := rfl
@[simp] theorem addArtifact_run? : (s.addArtifact a).run? id = s.run? id := rfl

theorem modifyTask_task? {tid' : TaskId} : (s.modifyTask tid g hg).task? tid' =
    if tid' = tid then (s.task? tid).map g else s.task? tid' :=
  Table.find?_modify hg

@[simp] theorem modifyTask_task?_self :
    (s.modifyTask tid g hg).task? tid = (s.task? tid).map g :=
  Table.find?_modify_self hg

theorem updateTasks_task? : (s.updateTasks p g hg).task? tid =
    (s.task? tid).map fun t => if p t then g t else t :=
  Table.find?_updateWhere hg

theorem modifyRun_run? {id' : RunId} : (s.modifyRun id f hf).run? id' =
    if id' = id then (s.run? id).map f else s.run? id' :=
  Table.find?_modify hf

@[simp] theorem modifyRun_run?_self : (s.modifyRun id f hf).run? id = (s.run? id).map f :=
  Table.find?_modify_self hf

end Frames

end StateStore
end FineTuneHarness
