import FineTuneHarness.Database.Refinement
import FineTuneHarness.State.Evolution

/-!
# The two stores side by side

The in-memory store keeps the objects it is given, the database what comes back out of its JSON
columns. `image` is what a value looks like after that trip. A state of the database `Mirrors` a
state of the in-memory store when it holds the images of its records, and a call that SQLite has no
reason to refuse gets the image of the answer it gets in memory, or fails in both.
-/
namespace FineTuneHarness

open Library (Program Table)
open Library.JsonText (Floats)
open DateTime (InRange)

/-! ## Images -/

/-- The dictionary, once written into a column and read back. -/
def Dict.image (d : Dict) : Dict := d.throughJson.toOption.getD d

theorem Dict.throughJson_image {d : Dict} (h : d.throughJson.isOk = true) :
    d.throughJson = .ok d.image := by
  unfold Dict.image
  cases hd : d.throughJson with
  | error e =>
    rw [hd] at h
    cases h
  | ok d' => rfl

theorem Dict.image_of_throughJson {d d' : Dict} (h : d.throughJson = .ok d') : d.image = d' := by
  rw [Dict.image, h]
  rfl

def RunRecord.image (r : RunRecord) : RunRecord :=
  { r with
    config := r.config.image, envSnapshot := r.envSnapshot.image
    datasetHashes := r.datasetHashes.image }

def TaskRecord.image (t : TaskRecord) : TaskRecord :=
  { t with payload := t.payload.image, result := t.result.map Dict.image }

def EventRecord.image (e : EventRecord) : EventRecord := { e with payload := e.payload.image }

section Updates

variable (t : TaskRecord) (r : RunRecord)

theorem TaskRecord.image_leaseTo (w : WorkerId) (i : Instant) :
    t.image.leaseTo w i = (t.leaseTo w i).image := rfl

theorem TaskRecord.image_setStatus (st : TaskStatus) :
    t.image.setStatus st = (t.setStatus st).image := rfl

theorem TaskRecord.image_countAttempt : t.image.countAttempt = t.countAttempt.image := rfl

theorem TaskRecord.image_settle (st : TaskStatus) (result : Option Dict) (e : Option String) :
    t.image.settle st (result.map Dict.image) e = (t.settle st result e).image := rfl

theorem TaskRecord.image_release : t.image.release = t.release.image := rfl

theorem TaskRecord.image_abandon (w : WorkerId) (prior : Nat) :
    t.image.abandon w prior = (t.abandon w prior).image := rfl

theorem RunRecord.image_setStatus (st : RunStatus) :
    r.image.setStatus st = (r.setStatus st).image := rfl

theorem RunRecord.image_finish (i : Instant) : r.image.finish i = (r.finish i).image := rfl

end Updates

/-- What is seen of an answer, once its dictionaries have been through JSON. -/
def StoreOp.replyImage : (op : StoreOp) → op.Reply → op.Reply
  | .getRun _, run => run.map RunRecord.image
  | .listRuns, runs => runs.map RunRecord.image
  | .listTasks _, tasks => tasks.map TaskRecord.image
  | .leaseNextPendingTask .., task => task.map TaskRecord.image
  | .listEvents _, events => events.map EventRecord.image
  | .createRun _, reply | .updateRunStatus .., reply | .updateRunFinishedAt .., reply
  | .createTask _, reply | .updateTaskStatus .., reply | .markTaskRunning _, reply
  | .incrementTaskAttempts _, reply | .requeueExpiredLeases _, reply | .reclaimDeadWorker .., reply
  | .appendEvent _, reply | .createArtifact _, reply | .listArtifacts _, reply => reply

/-! ## Stores with the same contents -/

/-- A SQLite store that keeps the images of what a store in memory keeps. -/
structure Twin (s s' : StateStore) : Prop where
  memory : s.backend = .memory
  sqlite : s'.backend = .sqlite
  runs : s'.tables.runs.rows = s.tables.runs.rows.map RunRecord.image
  tasks : s'.tables.tasks.rows = s.tables.tasks.rows.map TaskRecord.image
  events : s'.tables.events = s.tables.events.map EventRecord.image
  artifacts : s'.tables.artifacts = s.tables.artifacts

namespace Twin

variable {s s' : StateStore}

theorem run? (h : Twin s s') (id : RunId) : s'.run? id = (s.run? id).map RunRecord.image := by
  rw [StateStore.run?, Table.find?, h.runs, List.find?_map]
  rfl

theorem task? (h : Twin s s') (id : TaskId) : s'.task? id = (s.task? id).map TaskRecord.image := by
  rw [StateStore.task?, Table.find?, h.tasks, List.find?_map]
  rfl

theorem tasksOf (h : Twin s s') (id : RunId) :
    s'.tasksOf id = (s.tasksOf id).map TaskRecord.image := by
  rw [StateStore.tasksOf, h.tasks, List.filter_map, sortByKey, StateStore.tasksOf, sortByKey]
  exact (List.map_insertionSort _ _ TaskRecord.image _ fun _ _ _ _ => Iff.rfl).symm

theorem nextLeaseable (h : Twin s s') (runId : RunId) (now : Instant) :
    s'.nextLeaseable runId now = (s.nextLeaseable runId now).map TaskRecord.image := by
  rw [StateStore.nextLeaseable, h.tasksOf, List.find?_map]
  rfl

theorem heldBy (h : Twin s s') (runId : RunId) (w : WorkerId) :
    s'.heldBy runId w = (s.heldBy runId w).map TaskRecord.image := by
  rw [StateStore.heldBy, h.tasks, List.find?_map]
  rfl

theorem expiredLeases (h : Twin s s') (runId : RunId) (now : Instant) :
    s'.expiredLeases runId now = (s.expiredLeases runId now).map TaskRecord.image := by
  rw [StateStore.expiredLeases, h.tasks, List.filter_map]
  rfl

theorem priorReclaims (h : Twin s s') (id : TaskId) : s'.priorReclaims id = s.priorReclaims id := by
  have hevents : s'.events = s.events.map EventRecord.image := h.events
  rw [StateStore.priorReclaims, hevents, List.filter_map, List.length_map]
  rfl

theorem eventsOf (h : Twin s s') (id : RunId) :
    s'.eventsOf id = (s.eventsOf id).map EventRecord.image := by
  have hevents : s'.events = s.events.map EventRecord.image := h.events
  rw [StateStore.eventsOf, hevents, List.filter_map]
  rfl

/-! ### Updates -/

theorem updateTasks (h : Twin s s') {p : TaskRecord → Bool} {f g : TaskRecord → TaskRecord}
    {hf : ∀ t, (f t).taskId = t.taskId} {hg : ∀ t, (g t).taskId = t.taskId}
    (hp : ∀ t : TaskRecord, p t.image = p t) (hfg : ∀ t : TaskRecord, g t.image = (f t).image) :
    Twin (s.updateTasks p f hf) (s'.updateTasks p g hg) := by
  refine { h with tasks := ?_ }
  show s'.tables.tasks.rows.map _ = (s.tables.tasks.rows.map _).map _
  rw [h.tasks, List.map_map, List.map_map]
  refine List.map_congr_left fun t _ => ?_
  simp only [Function.comp, hp]
  split
  · exact hfg t
  · rfl

theorem modifyTask (h : Twin s s') {id : TaskId} {f g : TaskRecord → TaskRecord}
    {hf : ∀ t, (f t).taskId = t.taskId} {hg : ∀ t, (g t).taskId = t.taskId}
    (hfg : ∀ t : TaskRecord, g t.image = (f t).image) :
    Twin (s.modifyTask id f hf) (s'.modifyTask id g hg) :=
  h.updateTasks (fun _ => rfl) hfg

theorem modifyRun (h : Twin s s') {id : RunId} {f : RunRecord → RunRecord}
    {hf : ∀ r, (f r).runId = r.runId} (hfg : ∀ r : RunRecord, f r.image = (f r).image) :
    Twin (s.modifyRun id f hf) (s'.modifyRun id f hf) := by
  refine { h with runs := ?_ }
  show s'.tables.runs.rows.map _ = (s.tables.runs.rows.map _).map _
  rw [h.runs, List.map_map, List.map_map]
  refine List.map_congr_left fun r _ => ?_
  have hid : r.image.runId = r.runId := rfl
  simp only [Function.comp, hid]
  split
  · exact hfg r
  · rfl

theorem addEvents (h : Twin s s') {es es' : List EventRecord} (hes : es' = es.map EventRecord.image) :
    Twin (s.addEvents es) (s'.addEvents es') := by
  refine { h with events := ?_ }
  show s'.tables.events ++ es' = (s.tables.events ++ es).map _
  rw [h.events, hes, List.map_append]

theorem addArtifact (h : Twin s s') (a : ArtifactRecord) :
    Twin (s.addArtifact a) (s'.addArtifact a) :=
  { h with artifacts := congrArg (· ++ [a]) h.artifacts }

end Twin

/-! ## Calls that SQLite has no reason to refuse -/

/-- What the schema, the column types and `json.dumps` ask of a call: values that JSON can write,
integers of 64 bits, a lease that ends at some date time, a key that is new in its run, an artifact
id that is new, and references to rows that exist. -/
def StoreOp.Portable (s : StateStore) (clk : Clock) : StoreOp → Prop
  | .createRun run => run.config.throughJson.isOk = true ∧ run.envSnapshot.throughJson.isOk = true ∧
      run.datasetHashes.throughJson.isOk = true ∧ (Sqlite.integerColumn run.seed).isOk = true
  | .createTask task => task.payload.throughJson.isOk = true ∧
      (∀ d, task.result = some d → d.throughJson.isOk = true) ∧ s.run? task.runId ≠ none ∧
      task.taskKey ∉ (s.tasksOf task.runId).map (·.taskKey)
  | .updateTaskStatus _ _ result _ => ∀ d, result = some d → d.throughJson.isOk = true
  | .leaseNextPendingTask _ _ seconds => InRange (leaseUntil clk.later seconds)
  | .appendEvent e => e.payload.throughJson.isOk = true ∧ s.run? e.runId ≠ none ∧
      ∀ id, e.taskId = some id → s.task? id ≠ none
  | .createArtifact a => a.artifactId ∉ s.tables.artifacts.map (·.artifactId) ∧
      s.run? a.runId ≠ none ∧ ∀ id, a.taskId = some id → s.task? id ≠ none
  | _ => True

theorem Sqlite.jsonColumn_image {result : Option Dict}
    (h : ∀ d, result = some d → d.throughJson.isOk = true) :
    Sqlite.jsonColumn result = .ok (result.map Dict.image) := by
  cases result with
  | none => rfl
  | some d =>
    rw [Sqlite.jsonColumn, Dict.throughJson_image (h d rfl)]
    rfl

/-- Flat items in the order of their names are their own image. -/
theorem Dict.image_ofList {items : List (String × PyVal)} (xs : List (String × Json))
    (hflat : List.Forall₂ (fun kv x => kv.1 = x.1 ∧ flatJson kv.2 = some x.2) items xs)
    (hsorted : (xs.map (·.1)).Pairwise (· < ·)) : (Dict.ofList items).image = Dict.ofList items :=
  by
  have hread : Document halves (Dict.ofList items) ∧ _ := ofList_flat hflat hsorted
  exact Dict.image_of_throughJson hread.2

/-- The events that a store writes itself are their own images. -/
theorem leaseExpiredEvent_image (t : TaskRecord) (w : Option WorkerId) :
    (leaseExpiredEvent t w).image = leaseExpiredEvent t.image w := by
  obtain ⟨j, hj⟩ := flatJson_ownerValue t.leaseOwner
  have hnames : ["previous_owner", "reclaimed_by"].Pairwise (· < ·) := by decide
  have hpayload : (leaseExpiredEvent t w).payload.image = (leaseExpiredEvent t w).payload := by
    cases w with
    | none =>
      exact Dict.image_ofList [("previous_owner", j)] (.cons ⟨rfl, hj⟩ .nil)
        (List.pairwise_singleton _ _)
    | some w =>
      exact Dict.image_ofList [("previous_owner", j), ("reclaimed_by", .str w)]
        (.cons ⟨rfl, hj⟩ (.cons ⟨rfl, rfl⟩ .nil)) hnames
  rw [EventRecord.image, hpayload]
  rfl

theorem reclaimEvent_image (runId : RunId) (taskId : TaskId) (kind : String) (w : WorkerId)
    (prior : Nat) :
    (reclaimEvent runId taskId kind w prior).image = reclaimEvent runId taskId kind w prior := by
  have hnames : ["dead_worker", "prior_reclaims"].Pairwise (· < ·) := by decide
  have hpayload : (reclaimEvent runId taskId kind w prior).payload.image =
      (reclaimEvent runId taskId kind w prior).payload :=
    Dict.image_ofList [("dead_worker", .str w), ("prior_reclaims", .int prior)]
      (.cons ⟨rfl, rfl⟩ (.cons ⟨rfl, rfl⟩ .nil)) hnames
  rw [EventRecord.image, hpayload]

section Calls

variable {s s' : StateStore} (clk : Clock)

/-- Both answer, the second with the image of the first answer, or both raise; and the stores are
twins again. -/
def Alike (op : StoreOp) (x y : Except PyExc op.Reply × StateStore) : Prop :=
  x.1.toOption.map op.replyImage = y.1.toOption ∧ Twin x.2 y.2

theorem lease_alike (h : Twin s s') (runId : RunId) (w : WorkerId) (n : Int) :
    Alike (.leaseNextPendingTask runId w n) (s.exec (.leaseNextPendingTask runId w n) clk)
      (s'.exec (.leaseNextPendingTask runId w n) clk) := by
  rw [StateStore.exec_leaseNextPendingTask, StateStore.exec_leaseNextPendingTask, h.nextLeaseable]
  cases s.nextLeaseable runId clk.now with
  | none => exact ⟨rfl, h⟩
  | some t =>
    refine ⟨rfl, Twin.addEvents (h.modifyTask fun t => t.image_leaseTo w (leaseUntil clk.later n)) ?_⟩
    show StateStore.takeover t.image w = _
    have hst : t.image.status = t.status := rfl
    unfold StateStore.takeover
    rw [hst]
    split
    · rfl
    · rw [List.map_singleton, leaseExpiredEvent_image]

theorem requeue_alike (h : Twin s s') (runId : RunId) :
    Alike (.requeueExpiredLeases runId) (s.exec (.requeueExpiredLeases runId) clk)
      (s'.exec (.requeueExpiredLeases runId) clk) := by
  rw [StateStore.exec_requeueExpiredLeases, StateStore.exec_requeueExpiredLeases, h.expiredLeases]
  refine ⟨congrArg some (List.length_map _).symm, ?_⟩
  refine Twin.addEvents (h.updateTasks (fun _ => rfl) TaskRecord.image_release) ?_
  rw [List.map_map, List.map_map]
  exact List.map_congr_left fun t _ => (leaseExpiredEvent_image t none).symm

theorem reclaim_alike (h : Twin s s') (runId : RunId) (w : WorkerId) (n : Int) :
    Alike (.reclaimDeadWorker runId w n) (s.exec (.reclaimDeadWorker runId w n) clk)
      (s'.exec (.reclaimDeadWorker runId w n) clk) := by
  rw [StateStore.exec_reclaimDeadWorker, StateStore.exec_reclaimDeadWorker, h.heldBy]
  cases s.heldBy runId w with
  | none => exact ⟨rfl, h⟩
  | some t =>
    have hid : t.image.taskId = t.taskId := rfl
    dsimp only [Option.map_some]
    rw [hid, h.priorReclaims]
    split
    · refine ⟨rfl, Twin.addEvents (h.modifyTask fun t' => t'.image_abandon w (s.priorReclaims t.taskId)) ?_⟩
      rw [List.map_singleton, reclaimEvent_image]
    · refine ⟨rfl, Twin.addEvents (h.modifyTask TaskRecord.image_release) ?_⟩
      rw [List.map_singleton, reclaimEvent_image]

theorem updateTaskStatus_alike (h : Twin s s') (id : TaskId) (st : TaskStatus) {result : Option Dict}
    (e : Option String) (hresult : ∀ d, result = some d → d.throughJson.isOk = true) :
    Alike (.updateTaskStatus id st result e) (s.exec (.updateTaskStatus id st result e) clk)
      (s'.exec (.updateTaskStatus id st result e) clk) := by
  have hkeep : s.keep result = .ok result := by rw [StateStore.keep, h.memory]
  have hkeep' : s'.keep result = .ok (result.map Dict.image) := by
    rw [StateStore.keep, h.sqlite]
    exact Sqlite.jsonColumn_image hresult
  rw [StateStore.exec_updateTaskStatus, StateStore.exec_updateTaskStatus, h.task?, hkeep, hkeep']
  cases s.task? id with
  | none => exact ⟨rfl, h⟩
  | some t =>
    have hst : t.image.status = t.status := rfl
    dsimp only [Option.map_some]
    rw [hst]
    cases ensureTaskTransition t.status st with
    | error x => exact ⟨rfl, h⟩
    | ok u => exact ⟨rfl, h.modifyTask fun t => t.image_settle st result e⟩

theorem updateRunStatus_alike (h : Twin s s') (id : RunId) (st : RunStatus) :
    Alike (.updateRunStatus id st) (s.exec (.updateRunStatus id st) clk)
      (s'.exec (.updateRunStatus id st) clk) := by
  cases hrun : s.run? id with
  | none =>
    obtain ⟨e, he⟩ := s.exec_updateRunStatus_none clk hrun st
    obtain ⟨e', he'⟩ := s'.exec_updateRunStatus_none clk (by rw [h.run?, hrun]; rfl) st
    rw [he, he']
    exact ⟨rfl, h⟩
  | some r =>
    have hrun' : s'.run? id = some r.image := by rw [h.run?, hrun]; rfl
    rw [s.exec_updateRunStatus clk hrun, s'.exec_updateRunStatus clk hrun']
    exact ⟨rfl, h.modifyRun fun r => r.image_setStatus st⟩

theorem updateRunFinishedAt_alike (h : Twin s s') (id : RunId) (i : Instant) :
    Alike (.updateRunFinishedAt id i) (s.exec (.updateRunFinishedAt id i) clk)
      (s'.exec (.updateRunFinishedAt id i) clk) := by
  cases hrun : s.run? id with
  | none =>
    obtain ⟨e, he⟩ := s.exec_updateRunFinishedAt_none clk hrun i
    obtain ⟨e', he'⟩ := s'.exec_updateRunFinishedAt_none clk (by rw [h.run?, hrun]; rfl) i
    rw [he, he']
    exact ⟨rfl, h⟩
  | some r =>
    have hrun' : s'.run? id = some r.image := by rw [h.run?, hrun]; rfl
    rw [s.exec_updateRunFinishedAt clk hrun, s'.exec_updateRunFinishedAt clk hrun']
    exact ⟨rfl, h.modifyRun fun r => r.image_finish i⟩

theorem markTaskRunning_alike (h : Twin s s') (id : TaskId) :
    Alike (.markTaskRunning id) (s.exec (.markTaskRunning id) clk)
      (s'.exec (.markTaskRunning id) clk) := by
  have hleased : (s'.task? id).any (fun t => decide (t.status = .leased)) =
      (s.task? id).any fun t => decide (t.status = .leased) := by
    rw [h.task?, Option.any_map]
    rfl
  rw [StateStore.exec_markTaskRunning, StateStore.exec_markTaskRunning, hleased]
  split
  · exact ⟨rfl, h.modifyTask fun t => t.image_setStatus .running⟩
  · exact ⟨rfl, h⟩

theorem incrementTaskAttempts_alike (h : Twin s s') (id : TaskId) :
    Alike (.incrementTaskAttempts id) (s.exec (.incrementTaskAttempts id) clk)
      (s'.exec (.incrementTaskAttempts id) clk) := by
  cases htask : s.task? id with
  | none =>
    obtain ⟨e, he⟩ := s.exec_incrementTaskAttempts_none clk htask
    obtain ⟨e', he'⟩ := s'.exec_incrementTaskAttempts_none clk (by rw [h.task?, htask]; rfl)
    rw [he, he']
    exact ⟨rfl, h⟩
  | some t =>
    have htask' : s'.task? id = some t.image := by rw [h.task?, htask]; rfl
    rw [s.exec_incrementTaskAttempts clk htask, s'.exec_incrementTaskAttempts clk htask']
    exact ⟨rfl, h.modifyTask TaskRecord.image_countAttempt⟩

/-- A row that the one store has, the other has. -/
theorem Twin.knows (h : Twin s s') {runId : RunId} {task : Option TaskId}
    (hrun : s.run? runId ≠ none) (htask : ∀ id, task = some id → s.task? id ≠ none) :
    s'.run? runId ≠ none ∧ ∀ id, task = some id → s'.task? id ≠ none := by
  constructor
  · rw [h.run?]
    simpa using hrun
  · intro id hid
    rw [h.task?]
    simpa using htask id hid

theorem appendEvent_alike (h : Twin s s') {e : EventRecord}
    (he : (StoreOp.appendEvent e).Portable s clk) :
    Alike (.appendEvent e) (s.exec (.appendEvent e) clk) (s'.exec (.appendEvent e) clk) := by
  obtain ⟨hpayload, hrun, htask⟩ := he
  obtain ⟨hrun', htask'⟩ := h.knows hrun htask
  have hkeep : s.keepEvent e = .ok e := by rw [StateStore.keepEvent, h.memory]
  have hknown : ¬ e.taskId.any (fun id => decide (s'.tables.tasks.find? id = none)) = true := by
    simp only [Option.any_eq_true, not_exists, not_and, decide_eq_true_eq]
    exact htask'
  have hkeep' : s'.keepEvent e = .ok e.image := by
    rw [StateStore.keepEvent, h.sqlite]
    dsimp only
    rw [Dict.throughJson_image hpayload]
    dsimp only
    rw [if_neg hknown]
    exact if_neg hrun'
  rw [StateStore.exec_appendEvent, StateStore.exec_appendEvent, hkeep, hkeep']
  exact ⟨rfl, Twin.addEvents h rfl⟩

theorem createArtifact_alike (h : Twin s s') {a : ArtifactRecord}
    (ha : (StoreOp.createArtifact a).Portable s clk) :
    Alike (.createArtifact a) (s.exec (.createArtifact a) clk) (s'.exec (.createArtifact a) clk) := by
  obtain ⟨hnew, hrun, htask⟩ := ha
  obtain ⟨hrun', htask'⟩ := h.knows hrun htask
  have haccepts : s.acceptsArtifact a = true := by rw [StateStore.acceptsArtifact, h.memory]
  have haccepts' : s'.acceptsArtifact a = true := by
    rw [StateStore.acceptsArtifact, h.sqlite]
    dsimp only
    rw [h.artifacts, Bool.and_eq_true, Bool.and_eq_true, decide_eq_true_eq, Option.isSome_iff_ne_none,
      Option.all_eq_true]
    exact ⟨⟨hnew, hrun'⟩, fun id hid => Option.isSome_iff_ne_none.mpr (htask' id hid)⟩
  have hexec := s.exec_createArtifact_of clk a
  have hexec' := s'.exec_createArtifact_of clk a
  rw [if_pos haccepts] at hexec
  rw [if_pos haccepts'] at hexec'
  rw [hexec, hexec']
  exact ⟨rfl, Twin.addArtifact h a⟩

theorem createRun_alike (h : Twin s s') {run : RunRecord}
    (hrun : (StoreOp.createRun run).Portable s clk) :
    Alike (.createRun run) (s.exec (.createRun run) clk) (s'.exec (.createRun run) clk) := by
  obtain ⟨b, m⟩ := s
  obtain ⟨b', db⟩ := s'
  obtain rfl : b = .memory := h.memory
  obtain rfl : b' = .sqlite := h.sqlite
  obtain ⟨hconfig, henv, hhashes, hseed⟩ := hrun
  have hrows : db.runs.rows = m.runs.rows.map RunRecord.image := h.runs
  have hids : db.runs.rows.map (·.runId) = m.runs.rows.map (·.runId) := by
    rw [hrows, List.map_map]
    rfl
  simp only [StateStore.exec, StateStore.commit, InMemory.createRun, Sqlite.createRun,
    Dict.throughJson_image hconfig, Dict.throughJson_image henv, Dict.throughJson_image hhashes,
    Sqlite.integerColumn_isOk hseed, bind, Except.bind]
  by_cases hmem : run.runId ∈ m.runs.rows.map (·.runId)
  · rw [dif_pos hmem, dif_pos (hids ▸ hmem)]
    exact ⟨rfl, h⟩
  · rw [dif_neg hmem, dif_neg (hids ▸ hmem)]
    refine ⟨rfl, { h with runs := ?_ }⟩
    show db.runs.rows ++ [run.image] = (m.runs.rows ++ [run]).map _
    rw [hrows, List.map_append, List.map_singleton]

theorem createTask_alike (h : Twin s s') {task : TaskRecord}
    (htask : (StoreOp.createTask task).Portable s clk) :
    Alike (.createTask task) (s.exec (.createTask task) clk) (s'.exec (.createTask task) clk) := by
  obtain ⟨hpayload, hresult, hrun, hkey⟩ := htask
  have hkey' : task.taskKey ∉ (s'.tasksOf task.runId).map (·.taskKey) := by
    rw [h.tasksOf, List.map_map]
    exact hkey
  have hrun' : s'.run? task.runId ≠ none := by
    rw [h.run?]
    simpa using hrun
  obtain ⟨b, m⟩ := s
  obtain ⟨b', db⟩ := s'
  obtain rfl : b = .memory := h.memory
  obtain rfl : b' = .sqlite := h.sqlite
  have hrows : db.tasks.rows = m.tasks.rows.map TaskRecord.image := h.tasks
  have hids : db.tasks.rows.map (·.taskId) = m.tasks.rows.map (·.taskId) := by
    rw [hrows, List.map_map]
    rfl
  have hfree : ¬ db.tasks.rows.any
      (fun t => decide (t.runId = task.runId ∧ t.taskKey = task.taskKey)) = true := by
    simp only [List.any_eq_true, decide_eq_true_eq, not_exists, not_and]
    intro t ht hr hk
    have hmem : t ∈ StateStore.tasksOf ⟨.sqlite, db⟩ task.runId :=
      (StateStore.mem_tasksOf _).mpr ⟨Table.mem_rows_iff.mp ht, hr⟩
    exact hkey' (List.mem_map.mpr ⟨t, hmem, hk⟩)
  have hknown : ¬ db.runs.find? task.runId = none := hrun'
  simp only [StateStore.exec, StateStore.commit, InMemory.createTask, Sqlite.createTask,
    Dict.throughJson_image hpayload, Sqlite.jsonColumn_image hresult, bind, Except.bind]
  by_cases hmem : task.taskId ∈ m.tasks.rows.map (·.taskId)
  · rw [dif_pos hmem, dif_pos (hids ▸ hmem)]
    exact ⟨rfl, h⟩
  · rw [dif_neg hmem, dif_neg (hids ▸ hmem), if_neg hfree, if_neg hknown]
    refine ⟨rfl, { h with tasks := ?_ }⟩
    show db.tasks.rows ++ [task.image] = (m.tasks.rows ++ [task]).map _
    rw [hrows, List.map_append, List.map_singleton]

/-- Both stores lease alike where the lease can be made. -/
theorem leaseNext_alike (h : Twin s s') (hdated : s'.Dated) (hnow : InRange clk.now) (runId : RunId)
    (w : WorkerId) {n : Int} (hlease : InRange (leaseUntil clk.later n)) :
    Alike (.leaseNextPendingTask runId w n) (s.leaseNext runId w n clk) (s'.leaseNext runId w n clk) := by
  have hdated₀ : s.Dated := by
    intro t ht
    have himage : t.image ∈ s'.tables.tasks.rows := h.tasks ▸ List.mem_map_of_mem ht
    exact hdated t.image himage
  rw [StateStore.leaseNext_eq hdated₀ hnow, StateStore.leaseNext_eq hdated hnow, if_pos (.inl hlease),
    if_pos (.inl hlease)]
  exact lease_alike clk h runId w n

/-- **A call that SQLite has no reason to refuse** is answered alike by both stores. -/
theorem execDated_alike (h : Twin s s') (hdated : s'.Dated) (hnow : InRange clk.now) {op : StoreOp}
    (hop : op.Portable s clk) : Alike op (s.execDated op clk) (s'.execDated op clk) := by
  cases op with
  | createRun run => exact createRun_alike clk h hop
  | updateRunStatus id st => exact updateRunStatus_alike clk h id st
  | updateRunFinishedAt id i => exact updateRunFinishedAt_alike clk h id i
  | createTask task => exact createTask_alike clk h hop
  | updateTaskStatus id st result e => exact updateTaskStatus_alike clk h id st e hop
  | leaseNextPendingTask runId w n => exact leaseNext_alike clk h hdated hnow runId w hop
  | markTaskRunning id => exact markTaskRunning_alike clk h id
  | incrementTaskAttempts id => exact incrementTaskAttempts_alike clk h id
  | requeueExpiredLeases runId => exact requeue_alike clk h runId
  | reclaimDeadWorker runId w n => exact reclaim_alike clk h runId w n
  | appendEvent e => exact appendEvent_alike clk h hop
  | createArtifact a => exact createArtifact_alike clk h hop
  | getRun id =>
    show Alike _ (s.exec (.getRun id) clk) (s'.exec (.getRun id) clk)
    rw [StateStore.exec_getRun, StateStore.exec_getRun, h.run?]
    exact ⟨rfl, h⟩
  | listRuns =>
    show Alike _ (s.exec .listRuns clk) (s'.exec .listRuns clk)
    rw [StateStore.exec_listRuns, StateStore.exec_listRuns]
    exact ⟨congrArg some h.runs.symm, h⟩
  | listTasks id =>
    show Alike _ (s.exec (.listTasks id) clk) (s'.exec (.listTasks id) clk)
    rw [StateStore.exec_listTasks, StateStore.exec_listTasks, h.tasksOf]
    exact ⟨rfl, h⟩
  | listArtifacts id =>
    show Alike _ (s.exec (.listArtifacts id) clk) (s'.exec (.listArtifacts id) clk)
    rw [StateStore.exec_listArtifacts, StateStore.exec_listArtifacts, h.artifacts]
    exact ⟨rfl, h⟩
  | listEvents id =>
    show Alike _ (s.exec (.listEvents id) clk) (s'.exec (.listEvents id) clk)
    rw [StateStore.exec_listEvents, StateStore.exec_listEvents, h.eventsOf]
    exact ⟨rfl, h⟩

end Calls

/-! ## Clients -/

/-- A call on the in-memory store, as a client sees it that compares answers as JSON and exceptions
not at all. -/
def memoryCall (c : StoreCall) (s : StateStore) : Option c.op.Reply × StateStore :=
  ((s.execDated c.op c.clk).1.toOption.map c.op.replyImage, (s.execDated c.op c.clk).2)

/-- The call on the database. -/
def databaseCall (fl : Floats PyFloat) (c : StoreCall) (db : Database) : Option c.op.Reply × Database :=
  ((db.exec fl c.op c.clk).1.toOption, (db.exec fl c.op c.clk).2)

/-- The rows are those of a SQLite store that is the twin of the store in memory. -/
def Mirrors (fl : Floats PyFloat) (s : StateStore) (db : Database) : Prop :=
  ∃ s', Twin s s' ∧ db.Holds fl s'

section Clients

variable {fl : Floats PyFloat} {ε α : Type}

theorem Database.Holds.dated {db : Database} {s : StateStore} (h : db.Holds fl s) : s.Dated := by
  intro t ht
  obtain ⟨i, hi, rfl⟩ := List.mem_iff_getElem.mp ht
  have hshows := (List.forall₂_iff_get.mp h.shows.tasks).2 i (h.shows.tasks.length_eq ▸ hi) hi
  exact hshows.leasedUntil.2

theorem call_mirrors {s : StateStore} {db : Database} {c : StoreCall} (h : Mirrors fl s db)
    (hc : c.Storable fl) (hportable : c.op.Portable s c.clk) :
    (memoryCall c s).1 = (databaseCall fl c db).1 ∧
      Mirrors fl (memoryCall c s).2 (databaseCall fl c db).2 := by
  obtain ⟨s', htwin, hholds⟩ := h
  obtain ⟨hreply, htwin'⟩ := execDated_alike c.clk htwin hholds.dated hc.now hportable
  obtain ⟨hanswer, hholds'⟩ := exec_agrees hholds hc
  refine ⟨?_, _, htwin', hholds'⟩
  rw [memoryCall, databaseCall, hanswer]
  exact hreply

/-- **The two stores answer alike.** A client whose calls give SQLite no reason to refuse them, in
the states the in-memory store is then in, gets the same answers from either store, and ends alike. -/
theorem stores_agree {client : Program StoreCall (fun c => Option c.op.Reply) ε α}
    (hclient : ∀ x ∈ client.trace memoryCall ⟨.memory, .empty⟩,
      x.1.Storable fl ∧ x.1.op.Portable x.2 x.1.clk) :
    (client.run memoryCall ⟨.memory, .empty⟩).1 = (client.run (databaseCall fl) Database.empty).1 ∧
      Mirrors fl (client.run memoryCall ⟨.memory, .empty⟩).2
        (client.run (databaseCall fl) Database.empty).2 := by
  have hempty : Mirrors fl ⟨.memory, .empty⟩ Database.empty :=
    ⟨⟨.sqlite, .empty⟩, ⟨rfl, rfl, rfl, rfl, rfl, rfl⟩, empty_holds fl⟩
  have hstep : ∀ (c : StoreCall) (s : StateStore) (db : Database),
      c.Storable fl ∧ c.op.Portable s c.clk → Mirrors fl s db →
      (memoryCall c s).1 = (databaseCall fl c db).1 ∧
        Mirrors fl (memoryCall c s).2 (databaseCall fl c db).2 :=
    fun c s db hc h => call_mirrors h hc.1 hc.2
  exact Program.run_simulates hclient hstep hempty

end Clients

/-- A run with one task, an event of it, and a lease. -/
def twinClient : Program StoreCall (fun c => Option c.op.Reply) PyExc
    (Option (List (String × TaskStatus)) × Option (List String)) :=
  .call ⟨.createRun { runId := "r", name := "run", status := .created, config := [], createdAt := 0 }, ⟨0, 0⟩⟩
    fun _ => .call ⟨.createTask {
        taskId := "t", runId := "r", taskKey := "k", status := .pending,
        payload := Dict.ofList [("lr", .int 3)] }, ⟨0, 0⟩⟩
      fun _ => .call ⟨.appendEvent { runId := "r", taskId := some "t", kind := "queued" }, ⟨1, 1⟩⟩
        fun _ => .call ⟨.leaseNextPendingTask "r" "w" 30, ⟨5, 6⟩⟩
          fun _ => .call ⟨.listTasks "r", ⟨7, 7⟩⟩
            fun tasks => .call ⟨.listEvents "r", ⟨8, 8⟩⟩
              fun events => .ret (tasks.map fun ts => ts.map fun t => (t.taskKey, t.status),
                events.map fun es => es.map (·.kind))

theorem twinClient_portable (fl : Floats PyFloat) :
    ∀ x ∈ twinClient.trace memoryCall ⟨.memory, .empty⟩,
      x.1.Storable fl ∧ x.1.op.Portable x.2 x.1.clk := by
  have hempty : Document fl [] := (ofList_flat .nil .nil).1
  have hpayload : Document fl (Dict.ofList [("lr", .int 3)]) :=
    (ofList_flat (.cons (b := ("lr", .int 3)) ⟨rfl, rfl⟩ .nil) (List.pairwise_singleton _ _)).1
  intro x hx
  rcases List.mem_cons.mp hx with rfl | hx
  · exact ⟨⟨⟨hempty, hempty, hempty, by decide, nofun⟩, by decide⟩, rfl, rfl, rfl, rfl⟩
  rcases List.mem_cons.mp hx with rfl | hx
  · exact ⟨⟨⟨hpayload, nofun, nofun⟩, by decide⟩, rfl, nofun, nofun, nofun⟩
  rcases List.mem_cons.mp hx with rfl | hx
  · refine ⟨⟨hempty, by decide⟩, rfl, nofun, fun id hid => ?_⟩
    obtain rfl := Option.some.inj hid
    nofun
  rcases List.mem_cons.mp hx with rfl | hx
  · have hlease : InRange (leaseUntil 6 30) := by decide
    exact ⟨⟨trivial, by decide⟩, hlease⟩
  rcases List.mem_cons.mp hx with rfl | hx
  · exact ⟨⟨trivial, by decide⟩, trivial⟩
  rcases List.mem_cons.mp hx with rfl | hx
  · exact ⟨⟨trivial, by decide⟩, trivial⟩
  cases hx

theorem stores_agree_twinClient :
    (twinClient.run (databaseCall halves) Database.empty).1 =
      .ok (some [("k", .leased)], some ["queued"]) := by
  have hagree := stores_agree (twinClient_portable halves)
  rw [← hagree.1]
  rfl

end FineTuneHarness
