import FineTuneHarness.Database.Columns

/-!
# The rows of the database, and the statements that change them

`SQLiteStateStore` on its own rows: text columns, `NULL`s, comparisons of texts. Every method is one
transaction over the rows. Rows of events have their id and time stamp left out, as the records do.
-/
namespace FineTuneHarness

open Library (Table)
open Library.JsonText (Floats)
open DateTime (fromisoformat)

/-! ## Rows -/

structure RunRow where
  runId : String
  name : String
  status : String
  configJson : String
  createdAt : Option String
  envSnapshotJson : Option String
  finishedAt : Option String
  seed : Option Int
  datasetHashesJson : Option String
  configHash : Option String

structure TaskRow where
  taskId : String
  runId : String
  taskKey : String
  status : String
  payloadJson : String
  resultJson : Option String
  error : Option String
  leaseOwner : Option String
  leasedUntil : Option String
  attemptCount : Nat

structure EventRow where
  runId : String
  taskId : Option String
  kind : String
  payloadJson : String

structure Database where
  runs : Table RunRow RunId RunRow.runId
  tasks : Table TaskRow TaskId TaskRow.taskId
  events : List EventRow
  artifacts : List ArtifactRecord

def Database.empty : Database := ⟨.empty, .empty, [], []⟩

/-! ## Reading rows -/

/-- The text of a column, where it is true in Python's sense. -/
def given (column : Option String) : Option String := column.filter (· ≠ "")

section Reading

variable (fl : Floats PyFloat)

/-- A column that holds a JSON object. -/
def readObject (text : String) : Except PyExc Dict :=
  match loadsText fl text with
  | some (.dict d) => .ok d
  | _ => .error (.valueError "Expecting value")

def readStamp (text : String) : Except PyExc Instant :=
  match fromisoformat text with
  | some i => .ok i
  | none => .error (.valueError s!"Invalid isoformat string: '{text}'")

/-- `f(column) if column else default`. -/
def readGiven {α : Type} (column : Option String) (default : α) (f : String → Except PyExc α) :
    Except PyExc α :=
  match given column with
  | none => .ok default
  | some text => f text

def readRunStatus (text : String) : Except PyExc RunStatus :=
  match RunStatus.ofText text with
  | some st => .ok st
  | none => .error (.valueError s!"'{text}' is not a valid RunStatus")

def readTaskStatus (text : String) : Except PyExc TaskStatus :=
  match TaskStatus.ofText text with
  | some st => .ok st
  | none => .error (.valueError s!"'{text}' is not a valid TaskStatus")

/-- `_row_to_run`. A run of an old database has no time of creation: it gets the time of reading. -/
def rowToRun (now : Instant) (row : RunRow) : Except PyExc RunRecord := do
  let status ← readRunStatus row.status
  let config ← readObject fl row.configJson
  let createdAt ← readGiven row.createdAt now readStamp
  let envSnapshot ← readGiven row.envSnapshotJson [] (readObject fl)
  let finishedAt ← readGiven row.finishedAt none fun text => (readStamp text).map some
  let datasetHashes ← readGiven row.datasetHashesJson [] (readObject fl)
  return {
    runId := row.runId, name := row.name, status, config, createdAt, envSnapshot, finishedAt,
    seed := row.seed, datasetHashes, configHash := row.configHash }

/-- The record that `list_tasks` makes of a row. -/
def rowToTask (row : TaskRow) : Except PyExc TaskRecord := do
  let status ← readTaskStatus row.status
  let payload ← readObject fl row.payloadJson
  let result ← readGiven row.resultJson none fun text => (readObject fl text).map some
  let leasedUntil ← readGiven row.leasedUntil none fun text => (readStamp text).map some
  return {
    taskId := row.taskId, runId := row.runId, taskKey := row.taskKey, status, payload, result,
    error := row.error, leaseOwner := row.leaseOwner, leasedUntil, attemptCount := row.attemptCount }

/-- The record that `lease_next_pending_task` returns for the row it has leased. -/
def leasedTask (worker : WorkerId) (leasedUntil : Instant) (row : TaskRow) :
    Except PyExc TaskRecord := do
  let payload ← readObject fl row.payloadJson
  let result ← readGiven row.resultJson none fun text => (readObject fl text).map some
  return {
    taskId := row.taskId, runId := row.runId, taskKey := row.taskKey, status := .leased, payload,
    result, error := row.error, leaseOwner := some worker, leasedUntil := some leasedUntil,
    attemptCount := row.attemptCount }

def rowToEvent (row : EventRow) : Except PyExc EventRecord := do
  return { runId := row.runId, taskId := row.taskId, kind := row.kind, payload := ← readObject fl row.payloadJson }

def readAll {α β : Type} (f : α → Except PyExc β) : List α → Except PyExc (List β)
  | [] => .ok []
  | a :: as => do return (← f a) :: (← readAll f as)

end Reading

/-! ## Statements -/

namespace Sql

variable (fl : Floats PyFloat)

/-- `json.dumps(d, sort_keys=True) if d else None`. -/
def textUnlessEmpty (d : Dict) : Except PyExc (Option String) :=
  if d.isEmpty then .ok none else (columnText fl d).map some

/-- `json.dumps(d, sort_keys=True) if d is not None else None`. -/
def textUnlessNone : Option Dict → Except PyExc (Option String)
  | none => .ok none
  | some d => (columnText fl d).map some

def createRun (run : RunRecord) (db : Database) : Except PyExc (Unit × Database) := do
  let configJson ← columnText fl run.config
  let envSnapshotJson ← textUnlessEmpty fl run.envSnapshot
  let datasetHashesJson ← textUnlessEmpty fl run.datasetHashes
  let seed ← Sqlite.integerColumn run.seed
  if h : run.runId ∈ db.runs.rows.map (·.runId) then throw (Sqlite.uniqueFailed "runs.run_id")
  else return ((), { db with
    runs := db.runs.insert {
      runId := run.runId, name := run.name, status := run.status.value, configJson,
      createdAt := some (isoText run.createdAt), envSnapshotJson,
      finishedAt := run.finishedAt.map isoText, seed, datasetHashesJson,
      configHash := run.configHash } h })

/-- `UPDATE runs SET … WHERE run_id = ?`. -/
def updateRunWhere (id : RunId) (f : RunRow → RunRow) (hf : ∀ r, (f r).runId = r.runId)
    (db : Database) : Except PyExc (Unit × Database) :=
  if db.runs.countWhere (fun r => r.runId = id) ≠ 1 then .error (unknownRun id)
  else .ok ((), { db with runs := db.runs.updateWhere (fun r => r.runId = id) f hf })

def updateRunStatus (id : RunId) (status : RunStatus) :
    Database → Except PyExc (Unit × Database) :=
  updateRunWhere id ({ · with status := status.value }) fun _ => rfl

def updateRunFinishedAt (id : RunId) (finishedAt : Instant) :
    Database → Except PyExc (Unit × Database) :=
  updateRunWhere id ({ · with finishedAt := some (isoText finishedAt) }) fun _ => rfl

def getRun (now : Instant) (id : RunId) (db : Database) : Except PyExc (Option RunRecord) :=
  match db.runs.find? id with
  | none => .ok none
  | some row => (rowToRun fl now row).map some

def listRuns (now : Instant) (db : Database) : Except PyExc (List RunRecord) :=
  readAll (rowToRun fl now) db.runs.rows

def createTask (task : TaskRecord) (db : Database) : Except PyExc (Unit × Database) := do
  let payloadJson ← columnText fl task.payload
  let resultJson ← textUnlessNone fl task.result
  if h : task.taskId ∈ db.tasks.rows.map (·.taskId) then throw (Sqlite.uniqueFailed "tasks.task_id")
  else if db.tasks.rows.any (fun t => t.runId = task.runId ∧ t.taskKey = task.taskKey) then
    throw (Sqlite.uniqueFailed "tasks.run_id, tasks.task_key")
  else if db.runs.find? task.runId = none then throw Sqlite.foreignKeyFailed
  else return ((), { db with
    tasks := db.tasks.insert {
      taskId := task.taskId, runId := task.runId, taskKey := task.taskKey,
      status := task.status.value, payloadJson, resultJson, error := task.error,
      leaseOwner := task.leaseOwner, leasedUntil := task.leasedUntil.map isoText,
      attemptCount := task.attemptCount } h })

def updateTaskStatus (id : TaskId) (status : TaskStatus) (result : Option Dict)
    (error : Option String) (db : Database) : Except PyExc (Unit × Database) :=
  match db.tasks.find? id with
  | none => .error (unknownTask id)
  | some row => do
    ensureTaskTransition (← readTaskStatus row.status) status
    let resultJson ← textUnlessNone fl result
    if db.tasks.countWhere (fun t => t.taskId = id) ≠ 1 then throw (unknownTask id)
    return ((), { db with
      tasks := db.tasks.updateWhere (fun t => t.taskId = id)
        ({ · with
          status := status.value, resultJson, error, leaseOwner := none, leasedUntil := none })
        fun _ => rfl })

/-- `ORDER BY task_key`. -/
def orderByKey (rows : List TaskRow) : List TaskRow :=
  rows.insertionSort fun a b => a.taskKey ≤ b.taskKey

def listTasks (id : RunId) (db : Database) : Except PyExc (List TaskRecord) :=
  readAll (rowToTask fl) (orderByKey (db.tasks.rows.filter fun t => t.runId = id))

/-- `status = ? AND leased_until IS NOT NULL AND leased_until < ?`, for `LEASED`. -/
def expired (now : String) (row : TaskRow) : Bool :=
  row.status = TaskStatus.leased.value && row.leasedUntil.any fun text => text < now

def insertEvent (runId : RunId) (taskId : TaskId) (kind : String) (payload : Dict) :
    Except PyExc EventRow := do
  return { runId, taskId := some taskId, kind, payloadJson := ← columnText fl payload }

def ownerValue : Option String → PyVal
  | some w => .str w
  | none => .none

/-- The row that is leased, as it was before, and the end of the lease. -/
def leaseNextPendingTask (runId : RunId) (worker : WorkerId) (seconds : Int) (clk : Clock)
    (db : Database) : Except PyExc (Option (TaskRow × Instant) × Database) := do
  let leasedUntil ← Lease.fromSeconds clk.later seconds
  match (orderByKey (db.tasks.rows.filter fun t => t.runId = runId &&
      (t.status = TaskStatus.pending.value || expired (isoText clk.now) t))).head? with
  | none => return (none, db)
  | some row =>
    if db.tasks.countWhere (fun t => t.taskId = row.taskId) ≠ 1 then return (none, db)
    else
      let tasks := db.tasks.updateWhere (fun t => t.taskId = row.taskId)
        ({ · with
          status := TaskStatus.leased.value, leaseOwner := some worker,
          leasedUntil := some (isoText leasedUntil) }) fun _ => rfl
      if row.status = TaskStatus.leased.value then
        let event ← insertEvent fl runId row.taskId "lease_expired" (Dict.ofList
          [("previous_owner", ownerValue row.leaseOwner), ("reclaimed_by", .str worker)])
        return (some (row, leasedUntil), { db with tasks, events := db.events ++ [event] })
      else return (some (row, leasedUntil), { db with tasks })

def markTaskRunning (id : TaskId) (db : Database) : Except PyExc (Unit × Database) :=
  if db.tasks.countWhere (fun t => t.taskId = id ∧ t.status = TaskStatus.leased.value) ≠ 1 then
    .error (notRunningReady id)
  else .ok ((), { db with
    tasks := db.tasks.updateWhere (fun t => t.taskId = id ∧ t.status = TaskStatus.leased.value)
      ({ · with status := TaskStatus.running.value }) fun _ => rfl })

def incrementTaskAttempts (id : TaskId) (db : Database) : Except PyExc (Nat × Database) :=
  if db.tasks.countWhere (fun t => t.taskId = id) ≠ 1 then .error (unknownTask id)
  else
    let tasks := db.tasks.updateWhere (fun t => t.taskId = id)
      (fun t => { t with attemptCount := t.attemptCount + 1 }) fun _ => rfl
    match tasks.find? id with
    | none => .error (unknownTask id)
    | some row => .ok (row.attemptCount, { db with tasks })

def requeueExpiredLeases (runId : RunId) (clk : Clock) (db : Database) :
    Except PyExc (Nat × Database) :=
  let stale := fun t : TaskRow => t.runId = runId && expired (isoText clk.now) t
  let rows := db.tasks.rows.filter stale
  if rows.isEmpty then .ok (0, db)
  else do
    let events ← readAll (fun row => insertEvent fl runId row.taskId "lease_expired"
      (Dict.ofList [("previous_owner", ownerValue row.leaseOwner)])) rows
    return (rows.length, { db with
      tasks := db.tasks.updateWhere stale
        ({ · with status := TaskStatus.pending.value, leaseOwner := none, leasedUntil := none })
        fun _ => rfl
      events := db.events ++ events })

def reclaimDeadWorker (runId : RunId) (worker : WorkerId) (maxReclaims : Int)
    (db : Database) : Except PyExc (Reclaim × Database) :=
  match (db.tasks.rows.filter fun t => t.runId = runId ∧ t.leaseOwner = some worker ∧
      t.status ∈ [TaskStatus.leased.value, TaskStatus.running.value]).head? with
  | none => .ok (.none, db)
  | some row => do
    let prior := (db.events.filter fun e =>
      e.taskId = some row.taskId ∧ e.kind = "lease_reclaimed").length
    let payload := Dict.ofList [("dead_worker", .str worker), ("prior_reclaims", .int prior)]
    if (prior : Int) ≥ maxReclaims then
      let event ← insertEvent fl runId row.taskId "task_abandoned" payload
      return (.failed, { db with
        tasks := db.tasks.updateWhere (fun t => t.taskId = row.taskId)
          ({ · with
            status := TaskStatus.failed.value, leaseOwner := none, leasedUntil := none,
            error := some (diedError worker prior) }) fun _ => rfl
        events := db.events ++ [event] })
    else
      let event ← insertEvent fl runId row.taskId "lease_reclaimed" payload
      return (.requeued, { db with
        tasks := db.tasks.updateWhere (fun t => t.taskId = row.taskId)
          ({ · with status := TaskStatus.pending.value, leaseOwner := none, leasedUntil := none })
          fun _ => rfl
        events := db.events ++ [event] })

def appendEvent (e : EventRecord) (db : Database) : Except PyExc (Unit × Database) := do
  let payloadJson ← columnText fl e.payload
  if db.runs.find? e.runId = none then throw Sqlite.foreignKeyFailed
  else if e.taskId.any (fun id => db.tasks.find? id = none) then throw Sqlite.foreignKeyFailed
  else return ((), { db with
    events := db.events ++ [{ runId := e.runId, taskId := e.taskId, kind := e.kind, payloadJson }] })

def createArtifact (a : ArtifactRecord) (db : Database) : Except PyExc (Unit × Database) :=
  if a.artifactId ∈ db.artifacts.map (·.artifactId) then
    .error (Sqlite.uniqueFailed "artifacts.artifact_id")
  else if db.runs.find? a.runId = none then .error Sqlite.foreignKeyFailed
  else if a.taskId.any (fun id => db.tasks.find? id = none) then .error Sqlite.foreignKeyFailed
  else .ok ((), { db with artifacts := db.artifacts ++ [a] })

def listArtifacts (id : RunId) (db : Database) : List ArtifactRecord :=
  db.artifacts.filter fun a => a.runId = id

def listEvents (id : RunId) (db : Database) : Except PyExc (List EventRecord) :=
  readAll (rowToEvent fl) (db.events.filter fun e => e.runId = id)

end Sql

/-! ## Calls -/

namespace Database

variable (fl : Floats PyFloat)

/-- A transaction that raises is rolled back. -/
def commit {α : Type} (db : Database) (statements : Database → Except PyExc (α × Database)) :
    Except PyExc α × Database :=
  match statements db with
  | .ok (a, db) => (.ok a, db)
  | .error e => (.error e, db)

/-- The record of a leased row is made after the transaction. -/
def lease (db : Database) (runId : RunId) (worker : WorkerId) (seconds : Int) (clk : Clock) :
    Except PyExc (Option TaskRecord) × Database :=
  match db.commit (Sql.leaseNextPendingTask fl runId worker seconds clk) with
  | (.ok (some (row, leasedUntil)), db) => ((leasedTask fl worker leasedUntil row).map some, db)
  | (.ok none, db) => (.ok none, db)
  | (.error e, db) => (.error e, db)

def exec : (op : StoreOp) → Clock → Database → Except PyExc op.Reply × Database
  | .createRun run, _, db => db.commit (Sql.createRun fl run)
  | .updateRunStatus id st, _, db => db.commit (Sql.updateRunStatus id st)
  | .updateRunFinishedAt id t, _, db => db.commit (Sql.updateRunFinishedAt id t)
  | .getRun id, clk, db => (Sql.getRun fl clk.now id db, db)
  | .listRuns, clk, db => (Sql.listRuns fl clk.now db, db)
  | .createTask task, _, db => db.commit (Sql.createTask fl task)
  | .updateTaskStatus id st result error, _, db =>
    db.commit (Sql.updateTaskStatus fl id st result error)
  | .listTasks id, _, db => (Sql.listTasks fl id db, db)
  | .leaseNextPendingTask runId w n, clk, db => db.lease fl runId w n clk
  | .markTaskRunning id, _, db => db.commit (Sql.markTaskRunning id)
  | .incrementTaskAttempts id, _, db => db.commit (Sql.incrementTaskAttempts id)
  | .requeueExpiredLeases runId, clk, db => db.commit (Sql.requeueExpiredLeases fl runId clk)
  | .reclaimDeadWorker runId w n, _, db => db.commit (Sql.reclaimDeadWorker fl runId w n)
  | .appendEvent e, _, db => db.commit (Sql.appendEvent fl e)
  | .createArtifact a, _, db => db.commit (Sql.createArtifact a)
  | .listArtifacts id, _, db => (.ok (Sql.listArtifacts id db), db)
  | .listEvents id, _, db => (Sql.listEvents fl id db, db)

end Database

end FineTuneHarness
