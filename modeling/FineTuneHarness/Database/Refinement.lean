import FineTuneHarness.Database.Rows
import FineTuneHarness.Library.Matched
import FineTuneHarness.State.Reproducibility

/-!
# The rows carry out the store

`Tables` keeps records where the database keeps rows of texts. Here a row `Shows` a record when its
texts are those of the record's fields. Every call answers alike on rows and on the records they
show, and leaves rows that show the records the call leaves, so no client can tell one from the other.
-/
namespace FineTuneHarness

open Library (Program Table Matched)
open Library.JsonText (Floats)
open DateTime (InRange)

/-! ## Rows that show records -/

section Shows

variable (fl : Floats PyFloat)

/-- A column with the text of a structured value. -/
def ShowsDict (text : String) (d : Dict) : Prop := text ≠ "" ∧ loadsText fl text = some (.dict d)

/-- A column that is `NULL` for the empty dictionary. -/
def ShowsUnlessEmpty (column : Option String) (d : Dict) : Prop :=
  column = none ∧ d = [] ∨ ∃ text, column = some text ∧ ShowsDict fl text d

/-- A column with the text of a time stamp, or `NULL`. -/
def ShowsStamp (column : Option String) (stamp : Option Instant) : Prop :=
  column = stamp.map isoText ∧ ∀ i, stamp = some i → InRange i

structure RunRow.Shows (row : RunRow) (run : RunRecord) : Prop where
  runId : row.runId = run.runId
  name : row.name = run.name
  status : row.status = run.status.value
  config : ShowsDict fl row.configJson run.config
  createdAt : ShowsStamp row.createdAt (some run.createdAt)
  envSnapshot : ShowsUnlessEmpty fl row.envSnapshotJson run.envSnapshot
  finishedAt : ShowsStamp row.finishedAt run.finishedAt
  seed : row.seed = run.seed
  datasetHashes : ShowsUnlessEmpty fl row.datasetHashesJson run.datasetHashes
  configHash : row.configHash = run.configHash

structure TaskRow.Shows (row : TaskRow) (task : TaskRecord) : Prop where
  taskId : row.taskId = task.taskId
  runId : row.runId = task.runId
  taskKey : row.taskKey = task.taskKey
  status : row.status = task.status.value
  payload : ShowsDict fl row.payloadJson task.payload
  result : Option.Rel (ShowsDict fl) row.resultJson task.result
  error : row.error = task.error
  leaseOwner : row.leaseOwner = task.leaseOwner
  leasedUntil : ShowsStamp row.leasedUntil task.leasedUntil
  attemptCount : row.attemptCount = task.attemptCount

structure EventRow.Shows (row : EventRow) (event : EventRecord) : Prop where
  runId : row.runId = event.runId
  taskId : row.taskId = event.taskId
  kind : row.kind = event.kind
  payload : ShowsDict fl row.payloadJson event.payload

structure Database.Shows (db : Database) (m : Tables) : Prop where
  runs : Matched (RunRow.Shows fl) db.runs m.runs
  tasks : Matched (TaskRow.Shows fl) db.tasks m.tasks
  events : List.Forall₂ (EventRow.Shows fl) db.events m.events
  artifacts : db.artifacts = m.artifacts

end Shows

section Reading

variable {fl : Floats PyFloat}

theorem readObject_of_shows {text : String} {d : Dict} (h : ShowsDict fl text d) :
    readObject fl text = .ok d := by
  rw [readObject, h.2]

theorem readStamp_isoText {i : Instant} (h : InRange i) : readStamp (isoText i) = .ok i := by
  rw [readStamp, fromisoformat_isoText h]

theorem readGiven_none {α : Type} (default : α) (f : String → Except PyExc α) :
    readGiven none default f = .ok default := rfl

theorem readGiven_some {α : Type} {text : String} (htext : text ≠ "") (default : α)
    (f : String → Except PyExc α) : readGiven (some text) default f = f text := by
  have hgiven : given (some text) = some text := by simp [given, htext]
  rw [readGiven, hgiven]

theorem readGiven_unlessEmpty {column : Option String} {d : Dict}
    (h : ShowsUnlessEmpty fl column d) : readGiven column [] (readObject fl) = .ok d := by
  rcases h with ⟨rfl, rfl⟩ | ⟨text, rfl, hd⟩
  · rfl
  · rw [readGiven_some hd.1, readObject_of_shows hd]

theorem readGiven_object {column : Option String} {result : Option Dict}
    (h : Option.Rel (ShowsDict fl) column result) :
    (readGiven column none fun text => (readObject fl text).map some) = .ok result := by
  cases h with
  | none => rfl
  | some hd =>
    rw [readGiven_some hd.1, readObject_of_shows hd]
    rfl

theorem readGiven_stamp {column : Option String} {stamp : Option Instant}
    (h : ShowsStamp column stamp) :
    (readGiven column none fun text => (readStamp text).map some) = .ok stamp := by
  obtain ⟨rfl, hrange⟩ := h
  cases stamp with
  | none => rfl
  | some i =>
    have hi := hrange i rfl
    rw [Option.map_some, readGiven_some (isoText_ne_empty hi), readStamp_isoText hi]
    rfl

theorem readGiven_created {column : Option String} {i now : Instant}
    (h : ShowsStamp column (some i)) : readGiven column now readStamp = .ok i := by
  obtain ⟨rfl, hrange⟩ := h
  have hi := hrange i rfl
  rw [Option.map_some, readGiven_some (isoText_ne_empty hi), readStamp_isoText hi]

/-- **A row reads as the record it shows.** -/
theorem rowToRun_of_shows {row : RunRow} {run : RunRecord} (h : row.Shows fl run) (now : Instant) :
    rowToRun fl now row = .ok run := by
  unfold rowToRun readRunStatus
  rw [h.status, RunStatus.ofText_value, readObject_of_shows h.config, readGiven_created h.createdAt,
    readGiven_unlessEmpty h.envSnapshot, readGiven_stamp h.finishedAt,
    readGiven_unlessEmpty h.datasetHashes, h.runId, h.name, h.seed, h.configHash]
  rfl

theorem readTaskStatus_of_shows {row : TaskRow} {task : TaskRecord} (h : row.Shows fl task) :
    readTaskStatus row.status = .ok task.status := by
  rw [readTaskStatus, h.status, TaskStatus.ofText_value]

theorem rowToTask_of_shows {row : TaskRow} {task : TaskRecord} (h : row.Shows fl task) :
    rowToTask fl row = .ok task := by
  unfold rowToTask
  rw [readTaskStatus_of_shows h, readObject_of_shows h.payload, readGiven_object h.result,
    readGiven_stamp h.leasedUntil, h.taskId, h.runId, h.taskKey, h.error, h.leaseOwner,
    h.attemptCount]
  rfl

theorem leasedTask_of_shows {row : TaskRow} {task : TaskRecord} (h : row.Shows fl task)
    (worker : WorkerId) (leasedUntil : Instant) :
    leasedTask fl worker leasedUntil row = .ok (task.leaseTo worker leasedUntil) := by
  unfold leasedTask
  rw [readObject_of_shows h.payload, readGiven_object h.result, h.taskId, h.runId, h.taskKey,
    h.error, h.attemptCount]
  rfl

theorem rowToEvent_of_shows {row : EventRow} {event : EventRecord} (h : row.Shows fl event) :
    rowToEvent fl row = .ok event := by
  rw [rowToEvent, readObject_of_shows h.payload, h.runId, h.taskId, h.kind]
  rfl

theorem readAll_of_forall₂ {α β : Type} {R : α → β → Prop} {f : α → Except PyExc β} {as : List α}
    {bs : List β} (h : List.Forall₂ R as bs) (hf : ∀ a b, R a b → f a = .ok b) :
    readAll f as = .ok bs := by
  induction h with
  | nil => rfl
  | cons hab _ ih =>
    rw [readAll, hf _ _ hab, ih]
    rfl

end Reading

/-! ## What can be written -/

section Storable

variable (fl : Floats PyFloat)

structure RunRecord.Storable (run : RunRecord) : Prop where
  config : Document fl run.config
  envSnapshot : Document fl run.envSnapshot
  datasetHashes : Document fl run.datasetHashes
  createdAt : InRange run.createdAt
  finishedAt : ∀ i, run.finishedAt = some i → InRange i

structure TaskRecord.Storable (task : TaskRecord) : Prop where
  payload : Document fl task.payload
  result : ∀ d, task.result = some d → Document fl d
  dated : task.Dated

/-- The values of a call can be written so that they read back. -/
def StoreOp.Storable : StoreOp → Prop
  | .createRun run => run.Storable fl
  | .updateRunFinishedAt _ finishedAt => InRange finishedAt
  | .createTask task => task.Storable fl
  | .updateTaskStatus _ _ result _ => ∀ d, result = some d → Document fl d
  | .appendEvent e => Document fl e.payload
  | _ => True

end Storable

/-! ## Statements -/

section Statements

variable {fl : Floats PyFloat}

/-- The statements raise alike, or answer alike and leave rows that show the records. -/
inductive Agree (fl : Floats PyFloat) {α : Type} :
    Except PyExc (α × Database) → Except PyExc (α × Tables) → Prop
  | error (e : PyExc) : Agree fl (.error e) (.error e)
  | ok (a : α) {db : Database} {m : Tables} (h : db.Shows fl m) : Agree fl (.ok (a, db)) (.ok (a, m))

namespace Agree

variable {α β : Type} {d : Dict}

theorem both (x : Except PyExc β) {f : β → Except PyExc (α × Database)}
    {g : β → Except PyExc (α × Tables)} (h : ∀ b, Agree fl (f b) (g b)) :
    Agree fl (x >>= f) (x >>= g) := by
  cases x with
  | error e => exact .error e
  | ok b => exact h b

theorem column (hd : Document fl d) {f : String → Except PyExc (α × Database)}
    {g : Dict → Except PyExc (α × Tables)}
    (h : ∀ text d', ShowsDict fl text d' → Agree fl (f text) (g d')) :
    Agree fl (columnText fl d >>= f) (d.throughJson >>= g) := by
  cases hj : d.throughJson with
  | error e =>
    rw [columnText_error hj]
    exact .error e
  | ok d' =>
    obtain ⟨text, htext, hne, hread⟩ := columnText_ok hd hj
    rw [htext]
    exact h text d' ⟨hne, hread⟩

theorem unlessEmpty (hd : Document fl d) {f : Option String → Except PyExc (α × Database)}
    {g : Dict → Except PyExc (α × Tables)}
    (h : ∀ column d', ShowsUnlessEmpty fl column d' → Agree fl (f column) (g d')) :
    Agree fl (Sql.textUnlessEmpty fl d >>= f) (d.throughJson >>= g) := by
  cases d with
  | nil => exact h none [] (.inl ⟨rfl, rfl⟩)
  | cons kv d =>
    cases hj : Dict.throughJson (kv :: d) with
    | error e =>
      rw [Sql.textUnlessEmpty, if_neg (by simp), columnText_error hj]
      exact .error e
    | ok d' =>
      obtain ⟨text, htext, hne, hread⟩ := columnText_ok hd hj
      rw [Sql.textUnlessEmpty, if_neg (by simp), htext]
      exact h (some text) d' (.inr ⟨text, rfl, hne, hread⟩)

theorem unlessNone {result : Option Dict} (hd : ∀ d, result = some d → Document fl d)
    {f : Option String → Except PyExc (α × Database)} {g : Option Dict → Except PyExc (α × Tables)}
    (h : ∀ column result', Option.Rel (ShowsDict fl) column result' → Agree fl (f column) (g result')) :
    Agree fl (Sql.textUnlessNone fl result >>= f) (Sqlite.jsonColumn result >>= g) := by
  cases result with
  | none => exact h none none .none
  | some d =>
    cases hj : d.throughJson with
    | error e =>
      rw [Sql.textUnlessNone, columnText_error hj, Sqlite.jsonColumn, hj]
      exact .error e
    | ok d' =>
      obtain ⟨text, htext, hne, hread⟩ := columnText_ok (hd d rfl) hj
      rw [Sql.textUnlessNone, htext, Sqlite.jsonColumn, hj]
      exact h (some text) (some d') (.some ⟨hne, hread⟩)

end Agree

variable {db : Database} {m : Tables}

theorem RunRow.Shows.key (row : RunRow) (run : RunRecord) (h : row.Shows fl run) :
    row.runId = run.runId := h.runId

theorem TaskRow.Shows.key (row : TaskRow) (task : TaskRecord) (h : row.Shows fl task) :
    row.taskId = task.taskId := h.taskId

theorem ShowsStamp.map (stamp : Option Instant) (h : ∀ i, stamp = some i → InRange i) :
    ShowsStamp (stamp.map isoText) stamp := ⟨rfl, h⟩

theorem ShowsStamp.cleared : ShowsStamp none none := ⟨rfl, fun _ hnone => by cases hnone⟩

theorem createRun_agrees (h : db.Shows fl m) {run : RunRecord} (hrun : run.Storable fl) :
    Agree fl (Sql.createRun fl run db) (Sqlite.createRun run m) := by
  unfold Sql.createRun Sqlite.createRun
  refine .column hrun.config fun configJson config hconfig => ?_
  refine .unlessEmpty hrun.envSnapshot fun envJson env henv => ?_
  refine .unlessEmpty hrun.datasetHashes fun hashesJson hashes hhashes => ?_
  refine .both _ fun seed => ?_
  have hkeys := h.runs.keys RunRow.Shows.key
  by_cases hmem : run.runId ∈ m.runs.rows.map (·.runId)
  · rw [dif_pos hmem, dif_pos (hkeys ▸ hmem)]
    exact .error _
  · rw [dif_neg hmem, dif_neg (hkeys ▸ hmem)]
    refine .ok () ⟨?_, h.tasks, h.events, h.artifacts⟩
    apply h.runs.insert
    · exact ⟨rfl, rfl, rfl, hconfig, .map _ fun i hi => Option.some.inj hi ▸ hrun.createdAt, henv,
        .map _ hrun.finishedAt, rfl, hhashes, rfl⟩
    · exact hkeys ▸ hmem
    · exact hmem

theorem updateRunWhere_agrees (h : db.Shows fl m) {id : RunId} {f : RunRow → RunRow}
    {g : RunRecord → RunRecord} (hf : ∀ r, (f r).runId = r.runId) (hg : ∀ r, (g r).runId = r.runId)
    (hfg : ∀ row run, row.Shows fl run → (f row).Shows fl (g run)) :
    Agree fl (Sql.updateRunWhere id f hf db) (Sqlite.updateRunWhere id g hg m) := by
  have hwhere : ∀ row run, RunRow.Shows fl row run →
      decide (row.runId = id) = decide (run.runId = id) := fun row run hshows => by rw [hshows.runId]
  unfold Sql.updateRunWhere Sqlite.updateRunWhere
  rw [h.runs.countWhere hwhere]
  split
  · exact .error _
  · exact .ok () ⟨h.runs.updateWhere hf hg hwhere fun row run hshows _ => hfg row run hshows,
      h.tasks, h.events, h.artifacts⟩

theorem updateRunStatus_agrees (h : db.Shows fl m) (id : RunId) (st : RunStatus) :
    Agree fl (Sql.updateRunStatus id st db) (Sqlite.updateRunStatus id st m) :=
  updateRunWhere_agrees h _ _ fun _ _ hshows => { hshows with status := rfl }

theorem updateRunFinishedAt_agrees (h : db.Shows fl m) (id : RunId) {i : Instant} (hi : InRange i) :
    Agree fl (Sql.updateRunFinishedAt id i db) (Sqlite.updateRunFinishedAt id i m) :=
  updateRunWhere_agrees h _ _ fun _ _ hshows =>
    { hshows with finishedAt := ShowsStamp.map (some i) fun _ hj => Option.some.inj hj ▸ hi }

/-- A foreign key that refers to nothing. -/
theorem dangling_run (h : db.Shows fl m) (id : RunId) :
    db.runs.find? id = none ↔ m.runs.find? id = none := h.runs.find?_eq_none RunRow.Shows.key id

theorem dangling_task (h : db.Shows fl m) (id : TaskId) :
    db.tasks.find? id = none ↔ m.tasks.find? id = none := h.tasks.find?_eq_none TaskRow.Shows.key id

theorem createTask_agrees (h : db.Shows fl m) {task : TaskRecord} (htask : task.Storable fl) :
    Agree fl (Sql.createTask fl task db) (Sqlite.createTask task m) := by
  unfold Sql.createTask Sqlite.createTask
  refine .column htask.payload fun payloadJson payload hpayload => ?_
  refine .unlessNone htask.result fun resultJson result hresult => ?_
  have hkeys := h.tasks.keys TaskRow.Shows.key
  have hany : db.tasks.rows.any (fun t => decide (t.runId = task.runId ∧ t.taskKey = task.taskKey)) =
      m.tasks.rows.any fun t => decide (t.runId = task.runId ∧ t.taskKey = task.taskKey) :=
    Library.forall₂_any h.tasks fun row t hshows => by rw [hshows.runId, hshows.taskKey]
  rw [hany]
  by_cases hmem : task.taskId ∈ m.tasks.rows.map (·.taskId)
  · rw [dif_pos hmem, dif_pos (hkeys ▸ hmem)]
    exact .error _
  · rw [dif_neg hmem, dif_neg (hkeys ▸ hmem)]
    split
    · exact .error _
    · by_cases hrun : m.runs.find? task.runId = none
      · rw [if_pos hrun, if_pos ((dangling_run h _).mpr hrun)]
        exact .error _
      · rw [if_neg hrun, if_neg fun hnone => hrun ((dangling_run h _).mp hnone)]
        refine .ok () ⟨h.runs, ?_, h.events, h.artifacts⟩
        apply h.tasks.insert
        · exact ⟨rfl, rfl, rfl, rfl, hpayload, hresult, rfl, rfl, .map _ htask.dated, rfl⟩
        · exact hkeys ▸ hmem
        · exact hmem

theorem updateTaskStatus_agrees (h : db.Shows fl m) (id : TaskId) (st : TaskStatus)
    {result : Option Dict} (error : Option String)
    (hresult : ∀ d, result = some d → Document fl d) :
    Agree fl (Sql.updateTaskStatus fl id st result error db)
      (Sqlite.updateTaskStatus id st result error m) := by
  have hwhere : ∀ row t, TaskRow.Shows fl row t →
      decide (row.taskId = id) = decide (t.taskId = id) := fun row t hshows => by rw [hshows.taskId]
  unfold Sql.updateTaskStatus Sqlite.updateTaskStatus
  have hfind := h.tasks.find? TaskRow.Shows.key id
  generalize db.tasks.find? id = found at hfind ⊢
  generalize m.tasks.find? id = found' at hfind ⊢
  cases hfind with
  | none => exact .error _
  | @some row t hshows =>
    dsimp only
    rw [readTaskStatus_of_shows hshows]
    refine .both _ fun _ => .unlessNone hresult fun resultJson result' hresult' => ?_
    rw [h.tasks.countWhere hwhere]
    split
    · exact .error _
    · refine .ok () ⟨h.runs, ?_, h.events, h.artifacts⟩
      refine Library.forall₂_update h.tasks hwhere fun row t hshows _ => ?_
      exact { hshows with
        status := rfl, result := hresult', error := rfl, leaseOwner := rfl
        leasedUntil := ShowsStamp.cleared }

theorem markTaskRunning_agrees (h : db.Shows fl m) (id : TaskId) :
    Agree fl (Sql.markTaskRunning id db) (Sqlite.markTaskRunning id m) := by
  have hwhere : ∀ row t, TaskRow.Shows fl row t →
      decide (row.taskId = id ∧ row.status = TaskStatus.leased.value) =
        decide (t.taskId = id ∧ t.status = .leased) := fun row t hshows => by
    rw [hshows.taskId, hshows.status]
    exact decide_eq_decide.mpr (and_congr_right fun _ => TaskStatus.value_inj)
  unfold Sql.markTaskRunning Sqlite.markTaskRunning
  rw [h.tasks.countWhere hwhere]
  split
  · exact .error _
  · refine .ok () ⟨h.runs, ?_, h.events, h.artifacts⟩
    exact Library.forall₂_update h.tasks hwhere fun row t hshows _ => { hshows with status := rfl }

theorem incrementTaskAttempts_agrees (h : db.Shows fl m) (id : TaskId) :
    Agree fl (Sql.incrementTaskAttempts id db) (Sqlite.incrementTaskAttempts id m) := by
  have hwhere : ∀ row t, TaskRow.Shows fl row t →
      decide (row.taskId = id) = decide (t.taskId = id) := fun row t hshows => by rw [hshows.taskId]
  have htasks : Matched (TaskRow.Shows fl)
      (db.tasks.updateWhere (fun t => t.taskId = id)
        (fun t => { t with attemptCount := t.attemptCount + 1 }) fun _ => rfl)
      (m.tasks.updateWhere (fun t => t.taskId = id)
        (fun t => { t with attemptCount := t.attemptCount + 1 }) fun _ => rfl) :=
    Library.forall₂_update h.tasks hwhere fun row t hshows _ =>
      { hshows with attemptCount := congrArg (· + 1) hshows.attemptCount }
  have hfind := htasks.find? TaskRow.Shows.key id
  unfold Sql.incrementTaskAttempts Sqlite.incrementTaskAttempts
  rw [h.tasks.countWhere hwhere]
  split
  · exact .error _
  · dsimp only
    generalize Table.find? (db.tasks.updateWhere _ _ _) id = found at hfind ⊢
    generalize Table.find? (m.tasks.updateWhere _ _ _) id = found' at hfind ⊢
    cases hfind with
    | none => exact .error _
    | some hshows =>
      dsimp only
      rw [hshows.attemptCount]
      exact .ok _ ⟨h.runs, htasks, h.events, h.artifacts⟩

/-! ### Events -/

/-- An event of flat items, in the order of their names. -/
theorem insertEvent_shows {items : List (String × PyVal)} (xs : List (String × Json))
    (hflat : List.Forall₂ (fun kv x => kv.1 = x.1 ∧ flatJson kv.2 = some x.2) items xs)
    (hsorted : (xs.map (·.1)).Pairwise (· < ·)) (runId : RunId) (taskId : TaskId) (kind : String) :
    ∃ row, Sql.insertEvent fl runId taskId kind (Dict.ofList items) = .ok row ∧
      row.Shows fl { runId, taskId := some taskId, kind, payload := Dict.ofList items } := by
  obtain ⟨hd, hj⟩ : Document fl (Dict.ofList items) ∧ _ := ofList_flat hflat hsorted
  obtain ⟨text, htext, hne, hread⟩ := columnText_ok hd hj
  refine ⟨⟨runId, some taskId, kind, text⟩, ?_, rfl, rfl, rfl, hne, hread⟩
  rw [Sql.insertEvent, htext]
  rfl

theorem flatJson_ownerValue (owner : Option String) : ∃ j, flatJson (Sql.ownerValue owner) = some j := by
  cases owner with
  | none => exact ⟨_, rfl⟩
  | some w => exact ⟨_, rfl⟩

theorem leaseExpired_shows {row : TaskRow} {t : TaskRecord} (hshows : row.Shows fl t) :
    ∃ event, Sql.insertEvent fl t.runId row.taskId "lease_expired"
        (Dict.ofList [("previous_owner", Sql.ownerValue row.leaseOwner)]) = .ok event ∧
      event.Shows fl (leaseExpiredEvent t none) := by
  obtain ⟨j, hj⟩ := flatJson_ownerValue t.leaseOwner
  rw [hshows.taskId, hshows.leaseOwner]
  exact insertEvent_shows [("previous_owner", j)] (.cons ⟨rfl, hj⟩ .nil)
    (List.pairwise_singleton _ _) _ _ _

theorem takeover_shows {row : TaskRow} {t : TaskRecord} (hshows : row.Shows fl t) (w : WorkerId) :
    ∃ event, Sql.insertEvent fl t.runId row.taskId "lease_expired" (Dict.ofList
        [("previous_owner", Sql.ownerValue row.leaseOwner), ("reclaimed_by", .str w)]) = .ok event ∧
      event.Shows fl (leaseExpiredEvent t (some w)) := by
  obtain ⟨j, hj⟩ := flatJson_ownerValue t.leaseOwner
  have hnames : ["previous_owner", "reclaimed_by"].Pairwise (· < ·) := by decide
  rw [hshows.taskId, hshows.leaseOwner]
  exact insertEvent_shows [("previous_owner", j), ("reclaimed_by", .str w)]
    (.cons ⟨rfl, hj⟩ (.cons ⟨rfl, rfl⟩ .nil)) hnames _ _ _

theorem reclaimed_shows (runId : RunId) {row : TaskRow} {t : TaskRecord} (hshows : row.Shows fl t)
    (kind : String) (w : WorkerId) (prior : Nat) :
    ∃ event, Sql.insertEvent fl runId row.taskId kind
        (Dict.ofList [("dead_worker", .str w), ("prior_reclaims", .int prior)]) = .ok event ∧
      event.Shows fl (reclaimEvent runId t.taskId kind w prior) := by
  have hnames : ["dead_worker", "prior_reclaims"].Pairwise (· < ·) := by decide
  rw [hshows.taskId]
  exact insertEvent_shows [("dead_worker", .str w), ("prior_reclaims", .int prior)]
    (.cons ⟨rfl, rfl⟩ (.cons ⟨rfl, rfl⟩ .nil)) hnames _ _ _

theorem appendEvent_agrees (h : db.Shows fl m) {e : EventRecord} (he : Document fl e.payload) :
    Agree fl (Sql.appendEvent fl e db) (Sqlite.appendEvent e m) := by
  unfold Sql.appendEvent Sqlite.appendEvent
  refine .column he fun payloadJson payload hpayload => ?_
  have htask : e.taskId.any (fun id => decide (db.tasks.find? id = none)) =
      e.taskId.any fun id => decide (m.tasks.find? id = none) := by
    cases e.taskId with
    | none => rfl
    | some id => exact decide_eq_decide.mpr (dangling_task h id)
  rw [htask]
  by_cases hrun : m.runs.find? e.runId = none
  · rw [if_pos hrun, if_pos ((dangling_run h _).mpr hrun)]
    exact .error _
  · rw [if_neg hrun, if_neg fun hnone => hrun ((dangling_run h _).mp hnone)]
    split
    · exact .error _
    · refine .ok () ⟨h.runs, h.tasks, ?_, h.artifacts⟩
      exact List.rel_append h.events (.cons ⟨rfl, rfl, rfl, hpayload⟩ .nil)

theorem createArtifact_agrees (h : db.Shows fl m) (a : ArtifactRecord) :
    Agree fl (Sql.createArtifact a db) (Sqlite.createArtifact a m) := by
  unfold Sql.createArtifact Sqlite.createArtifact
  have htask : a.taskId.any (fun id => decide (db.tasks.find? id = none)) =
      a.taskId.any fun id => decide (m.tasks.find? id = none) := by
    cases a.taskId with
    | none => rfl
    | some id => exact decide_eq_decide.mpr (dangling_task h id)
  rw [htask, h.artifacts]
  split
  · exact .error _
  · by_cases hrun : m.runs.find? a.runId = none
    · rw [if_pos hrun, if_pos ((dangling_run h _).mpr hrun)]
      exact .error _
    · rw [if_neg hrun, if_neg fun hnone => hrun ((dangling_run h _).mp hnone)]
      split
      · exact .error _
      · exact .ok () ⟨h.runs, h.tasks, h.events, rfl⟩

/-! ### Leases -/

theorem status_text {row : TaskRow} {t : TaskRecord} (hshows : row.Shows fl t) (st : TaskStatus) :
    decide (row.status = st.value) = decide (t.status = st) := by
  rw [hshows.status]
  exact decide_eq_decide.mpr TaskStatus.value_inj

theorem expired_shows {row : TaskRow} {t : TaskRecord} (hshows : row.Shows fl t) (now : Instant) :
    Sql.expired (isoText now) row = Sqlite.expiredWhere now t := by
  rw [Sql.expired, Sqlite.expiredWhere, TaskRecord.expiredBy, status_text hshows,
    hshows.leasedUntil.1, Option.any_map]
  rfl

theorem claims_shows {row : TaskRow} {t : TaskRecord} (hshows : row.Shows fl t) (runId : RunId)
    (now : Instant) :
    (decide (row.runId = runId) &&
        (decide (row.status = TaskStatus.pending.value) || Sql.expired (isoText now) row)) =
      Sqlite.claimsWhere runId now t := by
  rw [Sqlite.claimsWhere, hshows.runId, status_text hshows, expired_shows hshows]

theorem orderByKey_shows {rows : List TaskRow} {ts : List TaskRecord}
    (h : List.Forall₂ (TaskRow.Shows fl) rows ts) :
    List.Forall₂ (TaskRow.Shows fl) (Sql.orderByKey rows) (sortByKey ts) :=
  Library.forall₂_insertionSort h fun _ _ _ _ hshows hshows' => by rw [hshows.taskKey, hshows'.taskKey]

/-- The leased row, as the statements return it, and the record that is returned for it. -/
def ShowsLease (fl : Floats PyFloat) (worker : WorkerId) :
    Option (TaskRow × Instant) → Option TaskRecord → Prop
  | some (row, leasedUntil), some leased =>
    leasedTask fl worker leasedUntil row = .ok leased
  | none, none => True
  | _, _ => False

theorem leaseNext_agrees (h : db.Shows fl m) (runId : RunId) (worker : WorkerId) (seconds : Int)
    (clk : Clock) :
    (∃ e, Sql.leaseNextPendingTask fl runId worker seconds clk db = .error e ∧
        Sqlite.leaseNext runId worker seconds clk m = .error e) ∨
      ∃ found leased db' m', Sql.leaseNextPendingTask fl runId worker seconds clk db = .ok (found, db') ∧
        Sqlite.leaseNext runId worker seconds clk m = .ok (leased, m') ∧
        ShowsLease fl worker found leased ∧ db'.Shows fl m' := by
  unfold Sql.leaseNextPendingTask Sqlite.leaseNext
  cases hlease : Lease.fromSeconds clk.later seconds with
  | error e => exact .inl ⟨e, rfl, rfl⟩
  | ok leasedUntil =>
    have hrange : InRange leasedUntil := by
      unfold Lease.fromSeconds at hlease
      split at hlease
      next hr => exact Except.ok.inj hlease ▸ hr
      next => cases hlease
    have hrows := Library.forall₂_filter h.tasks fun row t hshows => claims_shows hshows runId clk.now
    have hfirst := Library.forall₂_head? (orderByKey_shows hrows)
    refine .inr ?_
    simp only [bind, Except.bind]
    generalize hfound : (Sql.orderByKey _).head? = found at hfirst ⊢
    generalize hleased : (sortByKey _).head? = leased at hfirst ⊢
    cases hfirst with
    | none => exact ⟨none, none, db, m, rfl, rfl, trivial, h⟩
    | @some row t hshows =>
      have hwhere : ∀ row' t', TaskRow.Shows fl row' t' →
          decide (row'.taskId = row.taskId) = decide (t'.taskId = t.taskId) := fun row' t' hshows' => by
        rw [hshows'.taskId, hshows.taskId]
      have hrun : t.runId = runId := by
        have hmem := (List.mem_insertionSort _).mp (List.mem_of_head? hleased)
        have hclaims := (List.mem_filter.mp hmem).2
        rw [Sqlite.claimsWhere, Bool.and_eq_true] at hclaims
        exact of_decide_eq_true hclaims.1
      have htasks : Matched (TaskRow.Shows fl)
          (db.tasks.updateWhere (fun t => t.taskId = row.taskId)
            ({ · with
              status := TaskStatus.leased.value, leaseOwner := some worker,
              leasedUntil := some (isoText leasedUntil) }) fun _ => rfl)
          (m.tasks.updateWhere (fun t' => t'.taskId = t.taskId)
            ({ · with
              status := .leased, leaseOwner := some worker, leasedUntil := some leasedUntil })
            fun _ => rfl) :=
        Library.forall₂_update h.tasks hwhere fun _ _ hshows' _ => { hshows' with
          status := rfl, leaseOwner := rfl
          leasedUntil := ShowsStamp.map (some leasedUntil) fun _ hj => Option.some.inj hj ▸ hrange }
      have hanswer : ShowsLease fl worker (some (row, leasedUntil))
          (some (t.leaseTo worker leasedUntil)) := leasedTask_of_shows hshows worker leasedUntil
      dsimp only
      rw [h.tasks.countWhere hwhere]
      split
      · exact ⟨none, none, db, m, rfl, rfl, trivial, h⟩
      · by_cases hst : t.status = .leased
        · obtain ⟨event, hevent, hshown⟩ := takeover_shows hshows worker
          rw [hrun] at hevent
          rw [if_pos (hshows.status.trans (TaskStatus.value_inj.mpr hst)), if_pos hst, hevent]
          exact ⟨_, _, _, _, rfl, rfl, hanswer,
            ⟨h.runs, htasks, List.rel_append h.events (.cons hshown .nil), h.artifacts⟩⟩
        · rw [if_neg fun heq => hst (TaskStatus.value_inj.mp (hshows.status.symm.trans heq)), if_neg hst]
          exact ⟨_, _, _, _, rfl, rfl, hanswer, ⟨h.runs, htasks, h.events, h.artifacts⟩⟩

theorem release_shows {row : TaskRow} {t : TaskRecord} (hshows : row.Shows fl t) :
    TaskRow.Shows fl
      { row with status := TaskStatus.pending.value, leaseOwner := none, leasedUntil := none }
      { t with status := .pending, leaseOwner := none, leasedUntil := none } :=
  { hshows with
    status := rfl, leaseOwner := rfl, leasedUntil := ShowsStamp.cleared }

theorem expiredEvents_shows {runId : RunId} {rows : List TaskRow} {ts : List TaskRecord}
    (h : List.Forall₂ (fun row t => row.Shows fl t ∧ t.runId = runId) rows ts) :
    ∃ events, readAll (fun row => Sql.insertEvent fl runId row.taskId "lease_expired"
        (Dict.ofList [("previous_owner", Sql.ownerValue row.leaseOwner)])) rows = .ok events ∧
      List.Forall₂ (EventRow.Shows fl) events (ts.map (leaseExpiredEvent · none)) := by
  induction h with
  | nil => exact ⟨[], rfl, .nil⟩
  | cons hshows _ ih =>
    obtain ⟨events, hevents, hshown⟩ := ih
    obtain ⟨event, hevent, hshow⟩ := leaseExpired_shows hshows.1
    rw [hshows.2] at hevent
    rw [readAll, hevent, hevents]
    exact ⟨event :: events, rfl, .cons hshow hshown⟩

theorem requeueExpiredLeases_agrees (h : db.Shows fl m) (runId : RunId) {clk : Clock}
    (hnow : InRange clk.now) :
    Agree fl (Sql.requeueExpiredLeases fl runId clk db) (Sqlite.requeueExpiredLeases runId clk m) := by
  have hstale : ∀ row t, TaskRow.Shows fl row t →
      (decide (row.runId = runId) && Sql.expired (isoText clk.now) row) =
        (decide (t.runId = runId) && decide (t.status = .leased) &&
          t.leasedUntil.any fun u => decide (u < clk.now)) := fun row t hshows => by
    have htext : t.expiredBy (textBefore · clk.now) = t.expiredBy (Lease.isExpired · clk.now) :=
      expiredBy_text hshows.leasedUntil.2 hnow
    rw [hshows.runId, expired_shows hshows, Sqlite.expiredWhere, htext, Bool.and_assoc]
    rfl
  have hrows := Library.forall₂_filter h.tasks hstale
  have hall := Library.forall₂_and hrows fun t ht => by
    have hstale := (List.mem_filter.mp ht).2
    rw [Bool.and_assoc, Bool.and_eq_true] at hstale
    exact of_decide_eq_true hstale.1
  obtain ⟨events, hevents, hshown⟩ := expiredEvents_shows hall
  unfold Sql.requeueExpiredLeases Sqlite.requeueExpiredLeases
  dsimp only
  rw [Library.forall₂_isEmpty hrows, hevents, hrows.length_eq]
  split
  · exact .ok 0 h
  · exact .ok _ ⟨h.runs, Library.forall₂_update h.tasks hstale fun _ _ hshows _ => release_shows hshows,
      List.rel_append h.events hshown, h.artifacts⟩

theorem reclaimDeadWorker_agrees (h : db.Shows fl m) (runId : RunId) (worker : WorkerId)
    (maxReclaims : Int) :
    Agree fl (Sql.reclaimDeadWorker fl runId worker maxReclaims db)
      (Sqlite.reclaimDeadWorker runId worker maxReclaims m) := by
  have hheld : ∀ row t, TaskRow.Shows fl row t →
      decide (row.runId = runId ∧ row.leaseOwner = some worker ∧
        row.status ∈ [TaskStatus.leased.value, TaskStatus.running.value]) =
      decide (t.runId = runId ∧ t.leaseOwner = some worker ∧ t.status ∈ [.leased, .running]) := by
    intro row t hshows
    rw [hshows.runId, hshows.leaseOwner, hshows.status]
    refine decide_eq_decide.mpr (and_congr_right fun _ => and_congr_right fun _ => ?_)
    simp only [List.mem_cons, List.not_mem_nil, or_false, TaskStatus.value_inj]
  have hfirst := Library.forall₂_head? (Library.forall₂_filter h.tasks hheld)
  unfold Sql.reclaimDeadWorker Sqlite.reclaimDeadWorker
  generalize (db.tasks.rows.filter _).head? = found at hfirst ⊢
  generalize (m.tasks.rows.filter _).head? = found' at hfirst ⊢
  cases hfirst with
  | none => exact Agree.ok Reclaim.none h
  | @some row t hshows =>
    have hwhere : ∀ row' t', TaskRow.Shows fl row' t' →
        decide (row'.taskId = row.taskId) = decide (t'.taskId = t.taskId) := fun row' t' hshows' => by
      rw [hshows'.taskId, hshows.taskId]
    have hprior : (db.events.filter fun e =>
        decide (e.taskId = some row.taskId ∧ e.kind = "lease_reclaimed")).length =
        (m.events.filter fun e =>
          decide (e.taskId = some t.taskId ∧ e.kind = "lease_reclaimed")).length :=
      (Library.forall₂_filter h.events fun _ _ hevent => by
        rw [hevent.taskId, hevent.kind, hshows.taskId]).length_eq
    dsimp only
    rw [hprior]
    generalize (m.events.filter fun e =>
      decide (e.taskId = some t.taskId ∧ e.kind = "lease_reclaimed")).length = prior
    split
    · obtain ⟨event, hevent, hshown⟩ := reclaimed_shows runId hshows "task_abandoned" worker prior
      rw [hevent]
      refine .ok _ ⟨h.runs, Library.forall₂_update h.tasks hwhere fun _ _ hshows' _ => ?_,
        List.rel_append h.events (.cons hshown .nil), h.artifacts⟩
      exact { hshows' with
        status := rfl, leaseOwner := rfl, error := rfl
        leasedUntil := ShowsStamp.cleared }
    · obtain ⟨event, hevent, hshown⟩ := reclaimed_shows runId hshows "lease_reclaimed" worker prior
      rw [hevent]
      exact .ok _ ⟨h.runs,
        Library.forall₂_update h.tasks hwhere fun _ _ hshows' _ => release_shows hshows',
        List.rel_append h.events (.cons hshown .nil), h.artifacts⟩

end Statements

/-! ## Calls -/

/-- A call of the store as the code makes it: a lease that ends after year 9999 raises. -/
def StateStore.execDated : (op : StoreOp) → Clock → StateStore → Except PyExc op.Reply × StateStore
  | .leaseNextPendingTask runId worker seconds, clk, s => s.leaseNext runId worker seconds clk
  | op, clk, s => s.exec op clk

/-- A call and the clock readings it makes. -/
structure StoreCall where
  op : StoreOp
  clk : Clock

/-- The values of the call can be written, and the clock shows date times. -/
structure StoreCall.Storable (fl : Floats PyFloat) (c : StoreCall) : Prop where
  op : c.op.Storable fl
  now : InRange c.clk.now

/-- The database holds the rows of the SQLite store. -/
structure Database.Holds (fl : Floats PyFloat) (db : Database) (s : StateStore) : Prop where
  backend : s.backend = .sqlite
  shows : db.Shows fl s.tables

section Calls

variable {fl : Floats PyFloat} {db : Database} {m : Tables} {α : Type}

theorem commit_agrees (memory : Tables → Except PyExc (α × Tables))
    {f : Database → Except PyExc (α × Database)} {sqlite : Tables → Except PyExc (α × Tables)}
    (h : db.Shows fl m) (hagree : Agree fl (f db) (sqlite m)) :
    (db.commit f).1 = (StateStore.commit ⟨.sqlite, m⟩ memory sqlite).1 ∧
      (db.commit f).2.Holds fl (StateStore.commit ⟨.sqlite, m⟩ memory sqlite).2 := by
  unfold Database.commit StateStore.commit
  dsimp only
  generalize f db = x at hagree ⊢
  generalize sqlite m = y at hagree ⊢
  cases hagree with
  | error e => exact ⟨rfl, rfl, h⟩
  | ok a h' => exact ⟨rfl, rfl, h'⟩

theorem lease_agrees (h : db.Shows fl m) (runId : RunId) (worker : WorkerId) (seconds : Int)
    (clk : Clock) :
    (db.lease fl runId worker seconds clk).1 =
        (StateStore.leaseNext ⟨.sqlite, m⟩ runId worker seconds clk).1 ∧
      (db.lease fl runId worker seconds clk).2.Holds fl
        (StateStore.leaseNext ⟨.sqlite, m⟩ runId worker seconds clk).2 := by
  unfold Database.lease StateStore.leaseNext StateStore.commit Database.commit
  dsimp only
  rcases leaseNext_agrees h runId worker seconds clk with ⟨e, hrows, hm⟩ |
    ⟨found, leased, db', m', hrows, hm, hanswer, h'⟩
  · rw [hrows, hm]
    exact ⟨rfl, rfl, h⟩
  · rw [hrows, hm]
    cases found with
    | none =>
      cases leased with
      | none => exact ⟨rfl, rfl, h'⟩
      | some t => exact hanswer.elim
    | some found =>
      cases leased with
      | none => exact hanswer.elim
      | some t =>
        dsimp only
        rw [show leasedTask fl worker found.2 found.1 = .ok t from hanswer]
        exact ⟨rfl, rfl, h'⟩

/-- **Every call answers alike** on the rows and on the records they show. -/
theorem exec_agrees {s : StateStore} {c : StoreCall} (h : db.Holds fl s) (hc : c.Storable fl) :
    (db.exec fl c.op c.clk).1 = (s.execDated c.op c.clk).1 ∧
      (db.exec fl c.op c.clk).2.Holds fl (s.execDated c.op c.clk).2 := by
  obtain ⟨op, clk⟩ := c
  obtain ⟨b, m⟩ := s
  obtain ⟨rfl, h⟩ := h
  obtain ⟨hop, hnow⟩ := hc
  cases op with
  | createRun run => exact commit_agrees (InMemory.createRun run) h (createRun_agrees h hop)
  | updateRunStatus id st => exact commit_agrees (InMemory.updateRunStatus id st) h (updateRunStatus_agrees h id st)
  | updateRunFinishedAt id i => exact commit_agrees (InMemory.updateRunFinishedAt id i) h (updateRunFinishedAt_agrees h id hop)
  | createTask task => exact commit_agrees (InMemory.createTask task) h (createTask_agrees h hop)
  | updateTaskStatus id st result error =>
    exact commit_agrees (InMemory.updateTaskStatus id st result error) h (updateTaskStatus_agrees h id st error hop)
  | leaseNextPendingTask runId w n => exact lease_agrees h runId w n clk
  | markTaskRunning id => exact commit_agrees (InMemory.markTaskRunning id) h (markTaskRunning_agrees h id)
  | incrementTaskAttempts id => exact commit_agrees (InMemory.incrementTaskAttempts id) h (incrementTaskAttempts_agrees h id)
  | requeueExpiredLeases runId => exact commit_agrees (InMemory.requeueExpiredLeases runId clk) h (requeueExpiredLeases_agrees h runId hnow)
  | reclaimDeadWorker runId w n => exact commit_agrees (InMemory.reclaimDeadWorker runId w n) h (reclaimDeadWorker_agrees h runId w n)
  | appendEvent e => exact commit_agrees (InMemory.appendEvent e) h (appendEvent_agrees h hop)
  | createArtifact a => exact commit_agrees (InMemory.createArtifact a) h (createArtifact_agrees h a)
  | getRun id =>
    refine ⟨?_, rfl, h⟩
    show Sql.getRun fl clk.now id db = .ok (m.runs.find? id)
    have hfind := h.runs.find? RunRow.Shows.key id
    unfold Sql.getRun
    generalize db.runs.find? id = found at hfind ⊢
    generalize m.runs.find? id = found' at hfind ⊢
    cases hfind with
    | none => rfl
    | some hshows =>
      dsimp only
      rw [rowToRun_of_shows hshows]
      rfl
  | listRuns =>
    refine ⟨?_, rfl, h⟩
    exact readAll_of_forall₂ h.runs fun _ _ hshows => rowToRun_of_shows hshows clk.now
  | listTasks id =>
    refine ⟨?_, rfl, h⟩
    have hrows := Library.forall₂_filter h.tasks (p := fun t => decide (t.runId = id))
      (q := fun t => decide (t.runId = id)) fun _ _ hshows => by rw [hshows.runId]
    exact readAll_of_forall₂ (orderByKey_shows hrows) fun _ _ hshows => rowToTask_of_shows hshows
  | listArtifacts id =>
    refine ⟨?_, rfl, h⟩
    show Except.ok (Sql.listArtifacts id db) = Except.ok (Sqlite.listArtifacts id m)
    rw [Sql.listArtifacts, h.artifacts]
    rfl
  | listEvents id =>
    refine ⟨?_, rfl, h⟩
    have hrows := Library.forall₂_filter h.events (p := fun e => decide (e.runId = id))
      (q := fun e => decide (e.runId = id)) fun _ _ hshows => by rw [hshows.runId]
    exact readAll_of_forall₂ hrows fun _ _ hshows => rowToEvent_of_shows hshows

theorem empty_holds (fl : Floats PyFloat) :
    Database.empty.Holds fl ⟨.sqlite, .empty⟩ := ⟨rfl, .empty, .empty, .nil, rfl⟩

/-- **No client can tell the database from the tables.** Whatever it calls, one call after another
and each on what the earlier ones answered, it gets the same answers and ends alike. -/
theorem database_refines {client : Program StoreCall (fun c => Except PyExc c.op.Reply) PyExc α}
    (hclient : client.Only (·.Storable fl)) :
    (client.run (fun c db => db.exec fl c.op c.clk) Database.empty).1 =
        (client.run (fun c s => StateStore.execDated c.op c.clk s) ⟨.sqlite, .empty⟩).1 ∧
      (client.run (fun c db => db.exec fl c.op c.clk) Database.empty).2.Holds fl
        (client.run (fun c s => StateStore.execDated c.op c.clk s) ⟨.sqlite, .empty⟩).2 :=
  Program.run_simulates (Program.trace_only hclient) (fun _ _ _ hc h => exec_agrees h hc) (empty_holds fl)

end Calls

/-- A run with one task, leased and listed. -/
def leasingClient : Program StoreCall (fun c => Except PyExc c.op.Reply) PyExc
    (List (String × TaskStatus × Option Instant)) :=
  .call ⟨.createRun { runId := "r", name := "run", status := .created, config := [], createdAt := 0 }, ⟨0, 0⟩⟩
    fun _ => .call ⟨.createTask {
        taskId := "t", runId := "r", taskKey := "k", status := .pending,
        payload := Dict.ofList [("lr", .int 3)] }, ⟨0, 0⟩⟩
      fun _ => .call ⟨.leaseNextPendingTask "r" "w" 30, ⟨5, 6⟩⟩
        fun _ => .call ⟨.listTasks "r", ⟨7, 7⟩⟩
          fun tasks => (Program.ofExcept tasks).bind fun tasks =>
            .ret (tasks.map fun t => (t.taskKey, t.status, t.leasedUntil))

theorem leasingClient_storable (fl : Floats PyFloat) : leasingClient.Only (·.Storable fl) := by
  have hzero : InRange 0 := by decide
  have hempty : Document fl [] := (ofList_flat .nil .nil).1
  have hpayload : Document fl (Dict.ofList [("lr", .int 3)]) :=
    (ofList_flat (.cons (b := ("lr", .int 3)) ⟨rfl, rfl⟩ .nil) (List.pairwise_singleton _ _)).1
  refine ⟨⟨⟨hempty, hempty, hempty, hzero, nofun⟩, hzero⟩, fun _ _ _ => ?_⟩
  refine ⟨⟨⟨hpayload, nofun, nofun⟩, hzero⟩, fun _ _ _ => ?_⟩
  refine ⟨⟨trivial, by decide⟩, fun _ _ _ => ⟨⟨trivial, by decide⟩, fun tasks _ _ => ?_⟩⟩
  cases tasks with
  | error e => trivial
  | ok tasks => trivial

theorem database_refines_leasing :
    (leasingClient.run (fun c db => db.exec halves c.op c.clk) Database.empty).1 =
      .ok [("k", .leased, some 30000006)] := by
  have hrefines := database_refines (leasingClient_storable halves)
  rw [hrefines.1]
  rfl

end FineTuneHarness
