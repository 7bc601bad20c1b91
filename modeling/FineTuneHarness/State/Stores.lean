import FineTuneHarness.Library.Table
import FineTuneHarness.State.Models

/-!
# The two stores

`InMemoryStateStore` and `SQLiteStateStore` keep the same four collections; each method is
written here as its own source has it.
-/
namespace FineTuneHarness

open Library (Table)

/-- The four collections both stores keep: dictionaries and lists in memory, tables in
SQLite. Runs and tasks are keyed by their ids in either. -/
structure Tables where
  runs : Table RunRecord RunId RunRecord.runId
  tasks : Table TaskRecord TaskId TaskRecord.taskId
  events : List EventRecord
  artifacts : List ArtifactRecord

def Tables.empty : Tables := ⟨.empty, .empty, [], []⟩

/-- The clock readings of one store call, in order. -/
structure Clock where
  now : Instant
  later : Instant

/-- The three answers of `reclaim_dead_worker`. -/
inductive Reclaim
  | none | requeued | failed
deriving DecidableEq

def unknownRun (id : RunId) : PyExc := .keyError s!"unknown run_id: {id}"
def unknownTask (id : TaskId) : PyExc := .keyError s!"unknown task_id: {id}"
def notRunningReady (id : TaskId) : PyExc :=
  .keyError s!"task is not leaseable/running-ready: {id}"

def leaseExpiredEvent (t : TaskRecord) (reclaimedBy : Option WorkerId) : EventRecord where
  runId := t.runId
  taskId := some t.taskId
  kind := "lease_expired"
  payload := Dict.ofList <|
    ("previous_owner", match t.leaseOwner with | some w => PyVal.str w | none => .none) ::
    (match reclaimedBy with | some w => [("reclaimed_by", PyVal.str w)] | none => [])

def diedError (worker : WorkerId) (prior : Nat) : String :=
  s!"worker '{worker}' died without reporting (reclaimed {prior} times; OS OOM-kill?)"

def reclaimEvent (runId : RunId) (taskId : TaskId) (kind : String) (worker : WorkerId)
    (prior : Nat) : EventRecord where
  runId := runId
  taskId := some taskId
  kind := kind
  payload := Dict.ofList [("dead_worker", .str worker), ("prior_reclaims", .int prior)]

/-- `sorted(…, key=lambda t: t.task_key)` and `ORDER BY task_key`: both stable. -/
def sortByKey (ts : List TaskRecord) : List TaskRecord :=
  ts.insertionSort fun a b => a.taskKey ≤ b.taskKey

/-!
## `InMemoryStateStore`

Every method holds the store's lock from its first look at the tables to its last write,
so each is one atomic step. A method that raises has written nothing.
-/

namespace InMemory

def createRun (run : RunRecord) (m : Tables) : Except PyExc (Unit × Tables) :=
  if h : run.runId ∈ m.runs.rows.map (·.runId) then
    .error (.valueError s!"run already exists: {run.runId}")
  else .ok ((), { m with runs := m.runs.insert run h })

def updateRunStatus (id : RunId) (status : RunStatus) (m : Tables) :
    Except PyExc (Unit × Tables) :=
  match m.runs.find? id with
  | none => .error (.keyError id)
  | some _ => .ok ((), { m with runs := m.runs.modify id ({ · with status }) fun _ => rfl })

def updateRunFinishedAt (id : RunId) (finishedAt : Instant) (m : Tables) :
    Except PyExc (Unit × Tables) :=
  match m.runs.find? id with
  | none => .error (unknownRun id)
  | some _ =>
    .ok ((), { m with
      runs := m.runs.modify id ({ · with finishedAt := some finishedAt }) fun _ => rfl })

def getRun (id : RunId) (m : Tables) : Option RunRecord := m.runs.find? id

def listRuns (m : Tables) : List RunRecord := m.runs.rows

def createTask (task : TaskRecord) (m : Tables) : Except PyExc (Unit × Tables) :=
  if h : task.taskId ∈ m.tasks.rows.map (·.taskId) then
    .error (.valueError s!"task already exists: {task.taskId}")
  else .ok ((), { m with tasks := m.tasks.insert task h })

def updateTaskStatus (id : TaskId) (status : TaskStatus) (result : Option Dict)
    (error : Option String) (m : Tables) : Except PyExc (Unit × Tables) :=
  match m.tasks.find? id with
  | none => .error (unknownTask id)
  | some task => do
    ensureTaskTransition task.status status
    return ((), { m with
      tasks := m.tasks.modify id
        ({ · with status, result, error, leaseOwner := none, leasedUntil := none })
        fun _ => rfl })

def listTasks (id : RunId) (m : Tables) : List TaskRecord :=
  sortByKey (m.tasks.rows.filter fun t => t.runId = id)

def leaseNextPendingTask (runId : RunId) (worker : WorkerId) (seconds : Int) (clk : Clock)
    (m : Tables) : Except PyExc (Option TaskRecord × Tables) :=
  match (sortByKey (m.tasks.rows.filter fun t => t.runId = runId)).find?
      (·.leaseable clk.now) with
  | none => .ok (none, m)
  | some task =>
    let leased := { task with
      status := .leased, leaseOwner := some worker,
      leasedUntil := some (leaseUntil clk.later seconds) }
    let tasks := m.tasks.modify task.taskId
      ({ · with
        status := .leased, leaseOwner := some worker,
        leasedUntil := some (leaseUntil clk.later seconds) }) fun _ => rfl
    -- a task that was LEASED here had an expired lease: leave the audit event
    let events :=
      if task.status = .pending then m.events
      else m.events ++ [leaseExpiredEvent task (some worker)]
    .ok (some leased, { m with tasks, events })

def markTaskRunning (id : TaskId) (m : Tables) : Except PyExc (Unit × Tables) :=
  match m.tasks.find? id with
  | none => .error (notRunningReady id)
  | some task =>
    if task.status ≠ .leased then .error (notRunningReady id)
    else .ok ((), { m with
      tasks := m.tasks.modify id ({ · with status := .running }) fun _ => rfl })

def incrementTaskAttempts (id : TaskId) (m : Tables) : Except PyExc (Nat × Tables) :=
  match m.tasks.find? id with
  | none => .error (.keyError id)
  | some task => .ok (task.attemptCount + 1, { m with
      tasks := m.tasks.modify id (fun t => { t with attemptCount := t.attemptCount + 1 })
        fun _ => rfl })

/-- Every `LEASED` task of the run whose lease has expired. -/
def expired (runId : RunId) (now : Instant) (t : TaskRecord) : Bool :=
  t.runId = runId && t.status = .leased && t.leasedUntil.any fun u => u < now

def requeueExpiredLeases (runId : RunId) (clk : Clock) (m : Tables) :
    Except PyExc (Nat × Tables) :=
  let stale := m.tasks.rows.filter (expired runId clk.now)
  .ok (stale.length, { m with
    tasks := m.tasks.updateWhere (expired runId clk.now)
      ({ · with status := .pending, leaseOwner := none, leasedUntil := none }) fun _ => rfl
    events := m.events ++ stale.map (leaseExpiredEvent · none) })

/-- A task of the run that `worker` holds in flight. -/
def heldBy (runId : RunId) (worker : WorkerId) (t : TaskRecord) : Bool :=
  t.runId = runId && t.leaseOwner = some worker && t.status ∈ [.leased, .running]

def reclaimDeadWorker (runId : RunId) (worker : WorkerId) (maxReclaims : Int)
    (m : Tables) : Except PyExc (Reclaim × Tables) :=
  match m.tasks.rows.find? (heldBy runId worker) with
  | none => .ok (.none, m)
  | some task =>
    let prior := (m.events.filter fun e =>
      e.taskId = some task.taskId ∧ e.kind = "lease_reclaimed").length
    if (prior : Int) ≥ maxReclaims then
      .ok (.failed, { m with
        tasks := m.tasks.modify task.taskId
          ({ · with
            status := .failed, leaseOwner := none, leasedUntil := none,
            error := some (diedError worker prior) }) fun _ => rfl
        events := m.events ++ [reclaimEvent runId task.taskId "task_abandoned" worker prior] })
    else
      .ok (.requeued, { m with
        tasks := m.tasks.modify task.taskId
          ({ · with status := .pending, leaseOwner := none, leasedUntil := none }) fun _ => rfl
        events := m.events ++ [reclaimEvent runId task.taskId "lease_reclaimed" worker prior] })

def appendEvent (e : EventRecord) (m : Tables) : Except PyExc (Unit × Tables) :=
  .ok ((), { m with events := m.events ++ [e] })

def createArtifact (a : ArtifactRecord) (m : Tables) : Except PyExc (Unit × Tables) :=
  .ok ((), { m with artifacts := m.artifacts ++ [a] })

def listArtifacts (id : RunId) (m : Tables) : List ArtifactRecord :=
  m.artifacts.filter fun a => a.runId = id

def listEvents (id : RunId) (m : Tables) : List EventRecord :=
  m.events.filter fun e => e.runId = id

end InMemory

/-!
## `SQLiteStateStore`

Each method is one transaction: it commits whole or, when a statement or the JSON
encoding of an argument raises, leaves the tables alone. JSON columns hold the value the
text decodes to; time columns hold the instant the ISO text spells.
-/

namespace Sqlite

def uniqueFailed (column : String) : PyExc :=
  .integrityError s!"UNIQUE constraint failed: {column}"

def foreignKeyFailed : PyExc := .integrityError "FOREIGN KEY constraint failed"

/-- `json.dumps(d, sort_keys=True) if d is not None else None`, read back. -/
def jsonColumn : Option Dict → Except PyExc (Option Dict)
  | none => .ok none
  | some d => do return some (← d.throughJson)

/-- SQLite integers are signed 64-bit numbers. -/
def integerColumn : Option Int → Except PyExc (Option Int)
  | none => .ok none
  | some i =>
    if -2 ^ 63 ≤ i ∧ i < 2 ^ 63 then .ok (some i)
    else .error (.overflowError "Python int too large to convert to SQLite INTEGER")

def createRun (run : RunRecord) (db : Tables) : Except PyExc (Unit × Tables) := do
  let config ← run.config.throughJson
  let envSnapshot ← run.envSnapshot.throughJson
  let datasetHashes ← run.datasetHashes.throughJson
  let seed ← integerColumn run.seed
  if h : run.runId ∈ db.runs.rows.map (·.runId) then throw (uniqueFailed "runs.run_id")
  else return ((), { db with
    runs := db.runs.insert { run with config, envSnapshot, datasetHashes, seed } h })

/-- `UPDATE runs SET … WHERE run_id = ?`, which has to report one row. -/
def updateRunWhere (id : RunId) (f : RunRecord → RunRecord) (hf : ∀ r, (f r).runId = r.runId)
    (db : Tables) : Except PyExc (Unit × Tables) :=
  if db.runs.countWhere (fun r => r.runId = id) ≠ 1 then .error (unknownRun id)
  else .ok ((), { db with runs := db.runs.updateWhere (fun r => r.runId = id) f hf })

def updateRunStatus (id : RunId) (status : RunStatus) : Tables → Except PyExc (Unit × Tables) :=
  updateRunWhere id ({ · with status }) fun _ => rfl

def updateRunFinishedAt (id : RunId) (finishedAt : Instant) :
    Tables → Except PyExc (Unit × Tables) :=
  updateRunWhere id ({ · with finishedAt := some finishedAt }) fun _ => rfl

def getRun (id : RunId) (db : Tables) : Option RunRecord := db.runs.find? id

def listRuns (db : Tables) : List RunRecord := db.runs.rows

def createTask (task : TaskRecord) (db : Tables) : Except PyExc (Unit × Tables) := do
  let payload ← task.payload.throughJson
  let result ← jsonColumn task.result
  if h : task.taskId ∈ db.tasks.rows.map (·.taskId) then throw (uniqueFailed "tasks.task_id")
  else if db.tasks.rows.any (fun t => t.runId = task.runId ∧ t.taskKey = task.taskKey) then
    throw (uniqueFailed "tasks.run_id, tasks.task_key")
  else if db.runs.find? task.runId = none then throw foreignKeyFailed
  else return ((), { db with tasks := db.tasks.insert { task with payload, result } h })

def updateTaskStatus (id : TaskId) (status : TaskStatus) (result : Option Dict)
    (error : Option String) (db : Tables) : Except PyExc (Unit × Tables) :=
  match db.tasks.find? id with
  | none => .error (unknownTask id)
  | some row => do
    ensureTaskTransition row.status status
    let result ← jsonColumn result
    if db.tasks.countWhere (fun t => t.taskId = id) ≠ 1 then throw (unknownTask id)
    return ((), { db with
      tasks := db.tasks.updateWhere (fun t => t.taskId = id)
        ({ · with status, result, error, leaseOwner := none, leasedUntil := none })
        fun _ => rfl })

def listTasks (id : RunId) (db : Tables) : List TaskRecord :=
  sortByKey (db.tasks.rows.filter fun t => t.runId = id)

def leaseNextPendingTask (runId : RunId) (worker : WorkerId) (seconds : Int) (clk : Clock)
    (db : Tables) : Except PyExc (Option TaskRecord × Tables) :=
  -- WHERE run_id = ? AND (status = PENDING OR …) ORDER BY task_key LIMIT 1
  match (sortByKey (db.tasks.rows.filter fun t =>
      t.runId = runId && t.leaseable clk.now)).head? with
  | none => .ok (none, db)
  | some row =>
    if db.tasks.countWhere (fun t => t.taskId = row.taskId) ≠ 1 then .ok (none, db)
    else
      let tasks := db.tasks.updateWhere (fun t => t.taskId = row.taskId)
        ({ · with
          status := .leased, leaseOwner := some worker,
          leasedUntil := some (leaseUntil clk.later seconds) }) fun _ => rfl
      let events :=
        if row.status = .leased then db.events ++ [leaseExpiredEvent row (some worker)]
        else db.events
      .ok (some { row with
        status := .leased, leaseOwner := some worker,
        leasedUntil := some (leaseUntil clk.later seconds) }, { db with tasks, events })

def markTaskRunning (id : TaskId) (db : Tables) : Except PyExc (Unit × Tables) :=
  if db.tasks.countWhere (fun t => t.taskId = id ∧ t.status = .leased) ≠ 1 then
    .error (notRunningReady id)
  else .ok ((), { db with
    tasks := db.tasks.updateWhere (fun t => t.taskId = id ∧ t.status = .leased)
      ({ · with status := .running }) fun _ => rfl })

def incrementTaskAttempts (id : TaskId) (db : Tables) : Except PyExc (Nat × Tables) :=
  if db.tasks.countWhere (fun t => t.taskId = id) ≠ 1 then .error (unknownTask id)
  else
    let tasks := db.tasks.updateWhere (fun t => t.taskId = id)
      (fun t => { t with attemptCount := t.attemptCount + 1 }) fun _ => rfl
    match tasks.find? id with
    | none => .error (unknownTask id)
    | some row => .ok (row.attemptCount, { db with tasks })

def requeueExpiredLeases (runId : RunId) (clk : Clock) (db : Tables) :
    Except PyExc (Nat × Tables) :=
  let expired := fun t : TaskRecord =>
    t.runId = runId && t.status = .leased && t.leasedUntil.any fun u => u < clk.now
  let rows := db.tasks.rows.filter expired
  if rows.isEmpty then .ok (0, db)
  else .ok (rows.length, { db with
    tasks := db.tasks.updateWhere expired
      ({ · with status := .pending, leaseOwner := none, leasedUntil := none }) fun _ => rfl
    events := db.events ++ rows.map (leaseExpiredEvent · none) })

def reclaimDeadWorker (runId : RunId) (worker : WorkerId) (maxReclaims : Int)
    (db : Tables) : Except PyExc (Reclaim × Tables) :=
  -- WHERE run_id = ? AND lease_owner = ? AND status IN (LEASED, RUNNING) LIMIT 1
  match (db.tasks.rows.filter fun t => t.runId = runId ∧ t.leaseOwner = some worker ∧
      t.status ∈ [.leased, .running]).head? with
  | none => .ok (.none, db)
  | some row =>
    let prior := (db.events.filter fun e =>
      e.taskId = some row.taskId ∧ e.kind = "lease_reclaimed").length
    if (prior : Int) ≥ maxReclaims then
      .ok (.failed, { db with
        tasks := db.tasks.updateWhere (fun t => t.taskId = row.taskId)
          ({ · with
            status := .failed, leaseOwner := none, leasedUntil := none,
            error := some (diedError worker prior) }) fun _ => rfl
        events := db.events ++ [reclaimEvent runId row.taskId "task_abandoned" worker prior] })
    else
      .ok (.requeued, { db with
        tasks := db.tasks.updateWhere (fun t => t.taskId = row.taskId)
          ({ · with status := .pending, leaseOwner := none, leasedUntil := none }) fun _ => rfl
        events := db.events ++ [reclaimEvent runId row.taskId "lease_reclaimed" worker prior] })

def appendEvent (e : EventRecord) (db : Tables) : Except PyExc (Unit × Tables) := do
  let payload ← e.payload.throughJson
  if db.runs.find? e.runId = none then throw foreignKeyFailed
  else if e.taskId.any (fun id => db.tasks.find? id = none) then throw foreignKeyFailed
  else return ((), { db with events := db.events ++ [{ e with payload }] })

def createArtifact (a : ArtifactRecord) (db : Tables) : Except PyExc (Unit × Tables) :=
  if a.artifactId ∈ db.artifacts.map (·.artifactId) then
    .error (uniqueFailed "artifacts.artifact_id")
  else if db.runs.find? a.runId = none then .error foreignKeyFailed
  else if a.taskId.any (fun id => db.tasks.find? id = none) then .error foreignKeyFailed
  else .ok ((), { db with artifacts := db.artifacts ++ [a] })

def listArtifacts (id : RunId) (db : Tables) : List ArtifactRecord :=
  db.artifacts.filter fun a => a.runId = id

def listEvents (id : RunId) (db : Tables) : List EventRecord :=
  db.events.filter fun e => e.runId = id

end Sqlite
end FineTuneHarness
