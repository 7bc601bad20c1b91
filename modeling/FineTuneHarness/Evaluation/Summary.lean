import FineTuneHarness.Evaluation.ComparatorSpec
import FineTuneHarness.Executor.Alone
import Mathlib.Data.List.Dedup

/-!
# What a comparison reads and reports

`compareRuns` only reads the store. There is a report where each of its runs can be read by
itself, and it is put together from what each run shows next to the baseline: `summary`.
-/
namespace FineTuneHarness

open Library Library.Program

namespace Comparator

/-! ## Loading -/

section Load

variable {ok : Admits} {pf : Platform} {s : StateStore} {c : List TaskId}

/-- The runs are loaded under their ids, unless one of them is unknown. -/
theorem alone_loadRuns (hok : ¬ ok.refreshable) {ids : List RunId} :
    (loadRuns pf ids).wp (alone ok) (fun runs l => l = ⟨s, c⟩ ∧ runs.map (·.1) = ids ∧
      ∀ run ∈ runs, s.run? run.1 = some run.2)
      (fun e _ => e.cls = "KeyError" ∧ ∃ id ∈ ids, s.run? id = none) ⟨s, c⟩ := by
  induction ids with
  | nil => exact ⟨rfl, rfl, by simp⟩
  | cons id ids ih =>
    refine (wp_bind _ _).mpr (alone_getRun (fun hr => absurd hr hok) ?_)
    cases hr : s.run? id with
    | none => exact ⟨rfl, id, List.mem_cons_self, hr⟩
    | some r =>
      refine (wp_bind _ _).mpr (wp_mono ih (fun runs l hl => ?_) fun _ _ hf => ?_)
      · obtain ⟨rfl, hids, hruns⟩ := hl
        refine ⟨rfl, congrArg (id :: ·) hids, fun run hrun => ?_⟩
        rcases List.mem_cons.mp hrun with rfl | hrun
        · exact hr
        · exact hruns run hrun
      · obtain ⟨hcls, id', hid', hnone⟩ := hf
        exact ⟨hcls, id', List.mem_cons_of_mem _ hid', hnone⟩

/-- Among pairs that agree with `f` on their first part, the last under an id is that of `f`. -/
theorem latest_eq {α : Type} {pairs : List (RunId × α)} {id : RunId} {f : RunId → Option α}
    (hf : ∀ p ∈ pairs, f p.1 = some p.2) (hid : id ∈ pairs.map (·.1)) : latest pairs id = f id := by
  unfold latest
  cases hfind : pairs.reverse.find? fun p => decide (p.1 = id) with
  | none =>
    obtain ⟨p, hp, rfl⟩ := List.mem_map.mp hid
    have := List.find?_eq_none.mp hfind p (List.mem_reverse.mpr hp)
    simp at this
  | some p =>
    have hp := hf p (List.mem_reverse.mp (List.mem_of_find?_eq_some hfind))
    have hname : p.1 = id := by simpa using List.find?_some hfind
    rw [hname] at hp
    exact hp.symm

/-- What is under an id of a dictionary filled from the ids. -/
theorem latest_filterMap {α : Type} {f : RunId → Option α} {ids : List RunId} {id : RunId}
    (hid : id ∈ ids) : latest (ids.filterMap fun id => (f id).map fun a => (id, a)) id = f id := by
  cases hf : f id with
  | none =>
    rw [latest, List.find?_eq_none.mpr]
    · rfl
    · intro p hp hname
      obtain ⟨id', -, hp⟩ := List.mem_filterMap.mp (List.mem_reverse.mp hp)
      obtain ⟨a, ha, rfl⟩ := Option.map_eq_some_iff.mp hp
      obtain rfl : id' = id := of_decide_eq_true hname
      rw [hf] at ha
      cases ha
  | some a =>
    rw [← hf]
    apply latest_eq
    · intro p hp
      obtain ⟨id', -, hp⟩ := List.mem_filterMap.mp hp
      obtain ⟨a', ha', rfl⟩ := Option.map_eq_some_iff.mp hp
      exact ha'
    · apply List.mem_map.mpr
      exact ⟨(id, a), List.mem_filterMap.mpr ⟨id, hid, by rw [hf]; rfl⟩, rfl⟩

theorem latest_map {α : Type} {f : RunId → α} {ids : List RunId} {id : RunId} (hid : id ∈ ids) :
    latest (ids.map fun id => (id, f id)) id = some (f id) := by
  apply latest_eq (f := fun id => some (f id))
  · intro p hp
    obtain ⟨id', -, rfl⟩ := List.mem_map.mp hp
    rfl
  · apply List.mem_map.mpr
    exact ⟨(id, f id), List.mem_map_of_mem hid, rfl⟩

theorem latest_loaded {runs : List (RunId × RunRecord)} {ids : List RunId} {id : RunId}
    (hids : runs.map (·.1) = ids) (hruns : ∀ run ∈ runs, s.run? run.1 = some run.2)
    (hid : id ∈ ids) : latest runs id = s.run? id :=
  latest_eq hruns (by rw [hids]; exact hid)

/-- What `loadTasks` has of the runs: their tasks, and the snapshots that can be taken. -/
def snapped (s : StateStore) (runs : List (RunId × RunRecord)) :
    List (RunId × List TaskRecord × RunSnapshot) :=
  runs.filterMap fun run => (snapshot run.2 (s.tasksOf run.1)).toOption.map fun snap =>
    (run.1, s.tasksOf run.1, snap)

theorem alone_loadTasks {runs : List (RunId × RunRecord)} :
    (loadTasks runs).wp (alone ok) (fun loaded l => l = ⟨s, c⟩ ∧ loaded = snapped s runs ∧
      ∀ run ∈ runs, ∃ snap, snapshot run.2 (s.tasksOf run.1) = .ok snap)
      (fun e _ => ∃ run ∈ runs, snapshot run.2 (s.tasksOf run.1) = .error e) ⟨s, c⟩ := by
  induction runs with
  | nil => exact ⟨rfl, rfl, by simp⟩
  | cons run runs ih =>
    refine (wp_bind _ _).mpr (alone_listTasks ((wp_bind _ _).mpr ?_))
    rw [wp_ofExcept]
    cases hsnap : snapshot run.2 (s.tasksOf run.1) with
    | error e => exact ⟨run, List.mem_cons_self, hsnap⟩
    | ok snap =>
      refine (wp_bind _ _).mpr (wp_mono ih (fun loaded l hl => ?_) fun _ _ hf => ?_)
      · obtain ⟨rfl, rfl, hall⟩ := hl
        refine ⟨rfl, ?_, fun run' hrun' => ?_⟩
        · rw [snapped, snapped, List.filterMap_cons, hsnap]
          rfl
        · rcases List.mem_cons.mp hrun' with rfl | hrun'
          · exact ⟨snap, hsnap⟩
          · exact hall run' hrun'
      · obtain ⟨run', hrun', herr⟩ := hf
        exact ⟨run', List.mem_cons_of_mem _ hrun', herr⟩

end Load

/-! ## A whole report -/

section Report

variable {pf : Platform} {s : StateStore} {thresholds : List (String × PyFloat)}
  {baselineId : RunId} {later ids : List RunId} {issues : List ComparabilityIssue}

def taskOf (s : StateStore) (key : String) (id : RunId) : Option TaskRecord :=
  taskUnder (s.tasksOf id) key

def snapshotOf (s : StateStore) (id : RunId) : Option RunSnapshot :=
  (s.run? id).bind fun run => (snapshot run (s.tasksOf id)).toOption

/-- The run is there, and none of its results is more than the report can take. -/
structure ReadableRun (pf : Platform) (s : StateStore) (id : RunId) : Prop where
  snapshot : (snapshotOf s id).isSome
  judged : ∀ key, Judged pf (resultAt (taskOf s key) id)

/-- The keys of the runs' tasks, sorted. -/
def keysOf (s : StateStore) (ids : List RunId) : List String :=
  (((ids.flatMap s.tasksOf).map (·.taskKey)).dedup).insertionSort (· ≤ ·)

theorem mem_keysOf {key : String} :
    key ∈ keysOf s ids ↔ ∃ id ∈ ids, ∃ t ∈ s.tasksOf id, t.taskKey = key := by
  rw [keysOf, List.mem_insertionSort, List.mem_dedup]
  simp only [List.mem_map, List.mem_flatMap]
  constructor
  · rintro ⟨t, ⟨id, hid, ht⟩, hkey⟩
    exact ⟨id, hid, t, ht, hkey⟩
  · rintro ⟨id, hid, t, ht, hkey⟩
    exact ⟨t, ⟨id, hid, ht⟩, hkey⟩

def pairIssues (pf : Platform) (s : StateStore) (baselineId id : RunId) :
    List ComparabilityIssue :=
  ((s.run? baselineId).bind fun base => (s.run? id).map (checkComparability pf base)).getD []

/-- The report on runs that can all be read. -/
def summary (pf : Platform) (thresholds : List (String × PyFloat)) (s : StateStore)
    (baselineId : RunId) (later : List RunId) : ComparisonReport :=
  let runIds := baselineId :: later
  let keys := keysOf s runIds
  let comparisons := keys.map fun key =>
    comparisonOf pf thresholds baselineId later (taskOf s key) key
  let regressed := fun key => statusRegressed (statusText (taskOf s key baselineId))
    (later.map fun id => statusText (taskOf s key id))
  { runIds
    snapshots := runIds.filterMap fun id => (snapshotOf s id).map fun snap => (id, snap)
    taskComparisons := comparisons
    regressions := keys.filter regressed
    improvements := (comparisons.filter (·.isImprovement)).map (·.taskKey)
    metricRegressions := (comparisons.filter fun c =>
      !c.metricRegressions.isEmpty && !regressed c.taskKey).map (·.taskKey)
    comparabilityIssues := later.flatMap (pairIssues pf s baselineId)
    excludedTasks := (runIds.eraseDups.map fun id => (id, comparisons.flatMap fun c =>
      if isExcluded c.excludedFromMetrics id then List.replicate (runIds.count id) c.taskKey
      else [])).filter fun e => !e.2.isEmpty }

/-! ### What a summary says -/

theorem mem_keysOf_of_status {key : String} {id : RunId} (hid : id ∈ ids)
    (h : statusText (taskOf s key id) ≠ "missing") : key ∈ keysOf s ids := by
  cases ht : taskOf s key id with
  | none =>
    rw [ht] at h
    exact absurd rfl h
  | some t =>
    have hmem : t ∈ s.tasksOf id := List.mem_reverse.mp (List.mem_of_find?_eq_some ht)
    have hkey : t.taskKey = key := by simpa using List.find?_some ht
    exact mem_keysOf.mpr ⟨id, hid, t, hmem, hkey⟩

theorem ne_missing_of_ok {st : String} (h : st ∈ okTexts) : st ≠ "missing" := by
  rintro rfl
  revert h
  decide

theorem statusRegressed_iff {base : String} {laters : List String} :
    statusRegressed base laters = true ↔ base ∈ okTexts ∧ ∃ st ∈ laters, st ∈ failTexts := by
  simp [statusRegressed]

theorem statusImproved_iff {base : String} {laters : List String} :
    statusImproved base laters = true ↔ base ∈ failTexts ∧ ∃ st ∈ laters, st ∈ okTexts := by
  simp [statusImproved]

/-- A regression is a task that succeeded in the baseline and is not there, or not well, later. -/
theorem mem_regressions {key : String} :
    key ∈ (summary pf thresholds s baselineId later).regressions ↔
      statusText (taskOf s key baselineId) ∈ okTexts ∧
      ∃ id ∈ later, statusText (taskOf s key id) ∈ failTexts := by
  show key ∈ List.filter _ _ ↔ _
  rw [List.mem_filter, statusRegressed_iff]
  simp only [List.mem_map, exists_exists_and_eq_and, and_iff_right_iff_imp]
  intro h
  exact mem_keysOf_of_status List.mem_cons_self (ne_missing_of_ok h.1)

theorem improvements_eq : (summary pf thresholds s baselineId later).improvements =
    (keysOf s (baselineId :: later)).filter fun key =>
      statusImproved (statusText (taskOf s key baselineId))
        (later.map fun id => statusText (taskOf s key id)) := by
  show List.map _ (List.filter _ (List.map _ _)) = _
  rw [List.filter_map, List.map_map]
  exact List.map_id _

theorem mem_improvements {key : String} :
    key ∈ (summary pf thresholds s baselineId later).improvements ↔
      statusText (taskOf s key baselineId) ∈ failTexts ∧
      ∃ id ∈ later, statusText (taskOf s key id) ∈ okTexts := by
  rw [improvements_eq, List.mem_filter, statusImproved_iff]
  simp only [List.mem_map, exists_exists_and_eq_and, and_iff_right_iff_imp]
  rintro ⟨-, id, hid, hok⟩
  exact mem_keysOf_of_status (List.mem_cons_of_mem _ hid) (ne_missing_of_ok hok)

/-- There is one comparison of each task. -/
theorem mem_comparisons {c : TaskComparison} :
    c ∈ (summary pf thresholds s baselineId later).taskComparisons ↔
      c.taskKey ∈ keysOf s (baselineId :: later) ∧
      c = comparisonOf pf thresholds baselineId later (taskOf s c.taskKey) c.taskKey := by
  show c ∈ List.map _ _ ↔ _
  rw [List.mem_map]
  constructor
  · rintro ⟨key, hkey, rfl⟩
    exact ⟨hkey, rfl⟩
  · rintro ⟨hkey, hc⟩
    exact ⟨c.taskKey, hkey, hc.symm⟩

/-- A task is listed as excluded for a run where its result is left out. -/
theorem mem_excludedTasks {key : String} {id : RunId} :
    (∃ e ∈ (summary pf thresholds s baselineId later).excludedTasks, e.1 = id ∧ key ∈ e.2) ↔
      id ∈ baselineId :: later ∧ key ∈ keysOf s (baselineId :: later) ∧
        (exclusionReason pf (resultAt (taskOf s key) id)).isSome := by
  show (∃ e ∈ List.filter _ (List.map _ (baselineId :: later).eraseDups), _) ↔ _
  constructor
  · rintro ⟨e, he, rfl, hkey⟩
    obtain ⟨id, hid, rfl⟩ := List.mem_map.mp (List.mem_filter.mp he).1
    have hid := List.mem_eraseDups.mp hid
    obtain ⟨c, hc, hkey⟩ := List.mem_flatMap.mp hkey
    obtain ⟨key', hkey', rfl⟩ := List.mem_map.mp hc
    split at hkey
    next hout =>
      obtain rfl := (List.mem_replicate.mp hkey).2
      refine ⟨hid, hkey', ?_⟩
      rw [← isExcluded_excludedOf hid]
      exact hout
    · cases hkey
  · rintro ⟨hid, hkey, hout⟩
    rw [← isExcluded_excludedOf hid] at hout
    have hmem : key ∈ ((keysOf s (baselineId :: later)).map fun key =>
        comparisonOf pf thresholds baselineId later (taskOf s key) key).flatMap fun c =>
          if isExcluded c.excludedFromMetrics id then
            List.replicate ((baselineId :: later).count id) c.taskKey
          else [] := by
      refine List.mem_flatMap.mpr ⟨_, List.mem_map_of_mem hkey, ?_⟩
      rw [if_pos (show isExcluded (comparisonOf pf thresholds baselineId later (taskOf s key)
        key).excludedFromMetrics id = true from hout)]
      exact List.mem_replicate.mpr ⟨(List.count_pos_iff.mpr hid).ne', rfl⟩
    refine ⟨_, List.mem_filter.mpr ⟨List.mem_map_of_mem (List.mem_eraseDups.mpr hid), ?_⟩, rfl, hmem⟩
    rw [Bool.not_eq_true', List.isEmpty_eq_false_iff_exists_mem]
    exact ⟨key, hmem⟩

/-! ### The report is the summary -/

/-- The runs of the ids, as `compareRuns` has them once they are loaded. -/
def runsOf (s : StateStore) (ids : List RunId) : List (RunId × RunRecord) :=
  ids.filterMap fun id => (s.run? id).map fun run => (id, run)

theorem snapped_runsOf (s : StateStore) (ids : List RunId) : snapped s (runsOf s ids) =
    ids.filterMap fun id => (snapshotOf s id).map fun snap => (id, s.tasksOf id, snap) := by
  rw [snapped, runsOf, List.filterMap_filterMap]
  apply List.filterMap_congr
  intro id _
  rw [snapshotOf]
  cases s.run? id with
  | none => rfl
  | some run => simp

/-- Under the id of a loaded run are its tasks. -/
theorem tasks_snapped (hsnap : ∀ id ∈ ids, (snapshotOf s id).isSome) {id : RunId} (hid : id ∈ ids) :
    ((latest (snapped s (runsOf s ids)) id).map (·.1)).getD [] = s.tasksOf id := by
  obtain ⟨snap, hs⟩ := Option.isSome_iff_exists.mp (hsnap id hid)
  have hlatest : latest (snapped s (runsOf s ids)) id =
      (snapshotOf s id).map fun snap => (s.tasksOf id, snap) := by
    apply latest_eq (f := fun id => (snapshotOf s id).map fun snap => (s.tasksOf id, snap))
    · intro p hp
      rw [snapped_runsOf] at hp
      obtain ⟨id', -, hp⟩ := List.mem_filterMap.mp hp
      obtain ⟨snap', hs', rfl⟩ := Option.map_eq_some_iff.mp hp
      show (snapshotOf s id').map _ = _
      rw [hs']
      rfl
    · rw [snapped_runsOf]
      apply List.mem_map.mpr
      exact ⟨(id, s.tasksOf id, snap), List.mem_filterMap.mpr ⟨id, hid, by rw [hs]; rfl⟩, rfl⟩
  rw [hlatest, hs]
  rfl

/-- **Loaded runs make a summary**, unless a result in one of them raises. -/
theorem report_eq (h : ∀ id ∈ baselineId :: later, ReadableRun pf s id) :
    report pf thresholds baselineId later (snapped s (runsOf s (baselineId :: later)))
      (later.flatMap (pairIssues pf s baselineId)) =
      .ok (summary pf thresholds s baselineId later) := by
  have htasks := @tasks_snapped s (baselineId :: later) fun id hid => (h id hid).snapshot
  have hsnaps : (snapped s (runsOf s (baselineId :: later))).map (fun l => (l.1, l.2.2)) =
      (baselineId :: later).filterMap fun id => (snapshotOf s id).map fun snap => (id, snap) := by
    rw [snapped_runsOf, List.map_filterMap]
    apply List.filterMap_congr
    intro id _
    rw [Option.map_map]
    rfl
  unfold report
  dsimp only
  rw [hsnaps]
  generalize (snapped s (runsOf s (baselineId :: later))) = loaded at htasks
  have hkeys : ((((baselineId :: later).flatMap fun id =>
      ((latest loaded id).map (·.1)).getD []).map (·.taskKey)).dedup).insertionSort (· ≤ ·) =
      keysOf s (baselineId :: later) := by
    rw [keysOf, List.flatMap_congr fun id hid => htasks hid]
  have hat : ∀ key, ∀ id ∈ baselineId :: later,
      taskUnder (((latest loaded id).map (·.1)).getD []) key = taskOf s key id := by
    intro key id hid
    rw [htasks hid, taskOf]
  have hjudged : ∀ key ∈ keysOf s (baselineId :: later), ∀ id ∈ baselineId :: later,
      Judged pf (resultAt (fun id => taskUnder (((latest loaded id).map (·.1)).getD []) key) id) := by
    intro key _ id hid
    rw [resultAt, hat key id hid]
    exact (h id hid).judged key
  have hregressed : ∀ key, statusRegressed
      (statusText (taskUnder (((latest loaded baselineId).map (·.1)).getD []) key))
      (later.map fun id => statusText (taskUnder (((latest loaded id).map (·.1)).getD []) key)) =
      statusRegressed (statusText (taskOf s key baselineId))
        (later.map fun id => statusText (taskOf s key id)) := by
    intro key
    rw [hat key baselineId List.mem_cons_self]
    apply congrArg
    exact List.map_congr_left fun id hid => by rw [hat key id (List.mem_cons_of_mem _ hid)]
  rw [hkeys, compareTasks_eq hjudged,
    List.map_congr_left fun key _ => comparisonOf_congr (hat key)]
  simp only [hregressed]
  rfl

/-- No report without a look at every result. -/
theorem report_judged {rep : ComparisonReport}
    (hsnap : ∀ id ∈ baselineId :: later, (snapshotOf s id).isSome)
    (h : report pf thresholds baselineId later (snapped s (runsOf s (baselineId :: later))) issues =
      .ok rep) : ∀ id ∈ baselineId :: later, ReadableRun pf s id := by
  obtain ⟨comparisons, hcs, -⟩ := Except.bind_ok h
  have hjudged := compareTasks_judged hcs
  intro id hid
  refine ⟨hsnap id hid, fun key => ?_⟩
  cases ht : taskOf s key id with
  | none =>
    rw [resultAt, ht]
    exact judged_none
  | some t =>
    have hmem : t ∈ s.tasksOf id := List.mem_reverse.mp (List.mem_of_find?_eq_some ht)
    have hkey : t.taskKey = key := by simpa using List.find?_some ht
    have hj := hjudged key (by
      rw [List.mem_insertionSort, List.mem_dedup]
      apply List.mem_map.mpr
      refine ⟨t, List.mem_flatMap.mpr ⟨id, hid, ?_⟩, hkey⟩
      rw [tasks_snapped hsnap hid]
      exact hmem) id hid
    rw [resultAt] at hj
    dsimp only at hj
    rw [tasks_snapped hsnap hid] at hj
    exact hj

theorem report_error {e : PyExc} (hsnap : ∀ id ∈ baselineId :: later, (snapshotOf s id).isSome)
    (h : report pf thresholds baselineId later (snapped s (runsOf s (baselineId :: later))) issues =
      .error e) :
    e.cls ≠ "ComparabilityError" ∧ ∃ id ∈ baselineId :: later, ¬ ReadableRun pf s id := by
  rcases Except.bind_error h with h | ⟨comparisons, -, h⟩
  · obtain ⟨key, -, herr⟩ := compareTasks_error h
    refine ⟨unrelated_exclusions _ e herr, ?_⟩
    by_contra hall
    push Not at hall
    have hjudged : ∀ id ∈ baselineId :: later, Judged pf (resultAt (fun id => taskUnder
        (((latest (snapped s (runsOf s (baselineId :: later))) id).map (·.1)).getD []) key) id) := by
      intro id hid
      rw [resultAt, tasks_snapped hsnap hid]
      exact (hall id hid).judged key
    rw [exclusions_eq hjudged] at herr
    cases herr
  · cases h

/-- Some later run has data other than the baseline's. -/
def Clash (pf : Platform) (s : StateStore) (baselineId : RunId) (later : List RunId) : Prop :=
  ∃ id ∈ later, ∃ issue ∈ pairIssues pf s baselineId id, issue.severity = .error

/-- What a report on the runs is. -/
structure Reported (pf : Platform) (thresholds : List (String × PyFloat)) (strict : Bool)
    (s : StateStore) (baselineId : RunId) (later : List RunId) (rep : ComparisonReport) :
    Prop where
  readable : ∀ id ∈ baselineId :: later, ReadableRun pf s id
  lenient : strict = true → ¬ Clash pf s baselineId later
  eq : rep = summary pf thresholds s baselineId later

/-- Why there is no report. -/
inductive Failed (pf : Platform) (strict : Bool) (s : StateStore) (baselineId : RunId)
    (later : List RunId) (e : PyExc) : Prop
  | unknown (cls : e.cls = "KeyError") (missing : ∃ id ∈ baselineId :: later, s.run? id = none)
  | refused (cls : e.cls = "ComparabilityError")
      (known : ∀ id ∈ baselineId :: later, s.run? id ≠ none) (strictly : strict = true)
      (clash : Clash pf s baselineId later)
  | unreadable (cls : e.cls ≠ "ComparabilityError")
      (lenient : strict = true → ¬ Clash pf s baselineId later)
      (bad : ∃ id ∈ baselineId :: later, ¬ ReadableRun pf s id)

theorem unrelated_snapshot (run : RunRecord) (tasks : List TaskRecord) :
    Unrelated (snapshot run tasks) := by
  have htimes : Unrelated (timesOf tasks) := by
    induction tasks with
    | nil => exact unrelated_ok []
    | cons t tasks ih =>
      apply Unrelated.bind
      · intro e he
        unfold wallSecondsOf at he
        split at he
        · cases he
        next f hf =>
          obtain ⟨v, -, hv⟩ := Option.bind_eq_some_iff.mp hf
          rcases Except.bind_error he with he | ⟨x, -, he⟩
          · exact unrelated_toFloat? hv e he
          · cases he
      · intro wall
        apply ih.bind
        intro rest
        exact unrelated_ok _
  apply htimes.bind
  intro timed
  exact unrelated_ok _

theorem issuesOf_eq {runs : List (RunId × RunRecord)} {baseline : RunRecord}
    (hbase : s.run? baselineId = some baseline)
    (hlatest : ∀ id ∈ later, latest runs id = s.run? id) :
    issuesOf pf runs baseline later = later.flatMap (pairIssues pf s baselineId) := by
  apply List.flatMap_congr
  intro id hid
  rw [hlatest id hid, pairIssues, hbase]
  rfl

theorem clash_iff_any :
    (later.flatMap (pairIssues pf s baselineId)).any (·.severity = .error) = true ↔
      Clash pf s baselineId later := by
  rw [List.any_eq_true]
  constructor
  · rintro ⟨issue, hm, hs⟩
    obtain ⟨id, hid, hm⟩ := List.mem_flatMap.mp hm
    exact ⟨id, hid, issue, hm, of_decide_eq_true hs⟩
  · rintro ⟨id, hid, issue, hm, hs⟩
    exact ⟨issue, List.mem_flatMap.mpr ⟨id, hid, hm⟩, decide_eq_true hs⟩

theorem alone_compareRuns (pf : Platform) (s : StateStore) (baselineId : RunId)
    (thresholds : Option (List (String × PyFloat))) (strict : Bool) (hne : later ≠ []) :
    (compareRuns pf (baselineId :: later) thresholds strict).wp (alone .any)
      (fun rep _ => Reported pf (thresholds.getD defaultThresholds) strict s baselineId later rep)
      (fun e _ => Failed pf strict s baselineId later e) ⟨s, []⟩ := by
  obtain ⟨x, xs, rfl⟩ := List.exists_cons_of_ne_nil hne
  unfold compareRuns
  refine (wp_bind _ _).mpr (wp_mono (alone_loadRuns (fun h => h)) (fun runs l hl => ?_)
    fun e _ hf => .unknown hf.1 hf.2)
  obtain ⟨rfl, hids, hruns⟩ := hl
  have hlatest : ∀ id ∈ baselineId :: x :: xs, latest runs id = s.run? id :=
    fun id hid => latest_loaded hids hruns hid
  have hknown : ∀ id ∈ baselineId :: x :: xs, s.run? id ≠ none := by
    intro id hid
    rw [← hids] at hid
    obtain ⟨run, hrun, rfl⟩ := List.mem_map.mp hid
    rw [hruns run hrun]
    simp
  obtain ⟨baseline, hbase⟩ := Option.ne_none_iff_exists'.mp (hknown baselineId List.mem_cons_self)
  rw [hlatest baselineId List.mem_cons_self, hbase]
  dsimp only
  rw [issuesOf_eq hbase fun id hid => hlatest id (List.mem_cons_of_mem _ hid)]
  split
  next hrefused =>
    obtain ⟨hstrict, hclash⟩ := Bool.and_eq_true _ _ |>.mp hrefused
    exact .refused rfl hknown hstrict (clash_iff_any.mp hclash)
  next hpass =>
    have hlenient : strict = true → ¬ Clash pf s baselineId (x :: xs) := by
      intro hstrict hclash
      rw [hstrict, clash_iff_any.mpr hclash] at hpass
      exact hpass rfl
    have hrunsOf : ((baselineId :: x :: xs).filterMap fun id =>
        (latest runs id).map fun run => (id, run)) = runsOf s (baselineId :: x :: xs) := by
      apply List.filterMap_congr
      intro id hid
      rw [hlatest id hid]
    rw [hrunsOf]
    refine (wp_bind _ _).mpr (wp_mono alone_loadTasks (fun loaded l hl => ?_) fun e _ hf => ?_)
    · obtain ⟨rfl, rfl, hsnaps⟩ := hl
      have hsnap : ∀ id ∈ baselineId :: x :: xs, (snapshotOf s id).isSome := by
        intro id hid
        obtain ⟨run, hrun⟩ := Option.ne_none_iff_exists'.mp (hknown id hid)
        obtain ⟨snap, hs⟩ := hsnaps (id, run) (List.mem_filterMap.mpr ⟨id, hid, by rw [hrun]; rfl⟩)
        rw [snapshotOf, hrun]
        show (snapshot run (s.tasksOf id)).toOption.isSome = true
        rw [hs]
        rfl
      rw [wp_ofExcept]
      cases hrep : report pf (thresholds.getD defaultThresholds) baselineId (x :: xs)
        (snapped s (runsOf s (baselineId :: x :: xs)))
        ((x :: xs).flatMap (pairIssues pf s baselineId)) with
      | ok rep =>
        have hall := report_judged hsnap hrep
        rw [report_eq hall] at hrep
        exact ⟨hall, hlenient, (Except.ok.inj hrep).symm⟩
      | error e =>
        obtain ⟨hcls, hbad⟩ := report_error hsnap hrep
        exact .unreadable hcls hlenient hbad
    · obtain ⟨run, hrun, herr⟩ := hf
      obtain ⟨id, hid, hmap⟩ := List.mem_filterMap.mp hrun
      obtain ⟨r, hr, rfl⟩ := Option.map_eq_some_iff.mp hmap
      refine .unreadable (unrelated_snapshot _ _ e herr) hlenient ⟨id, hid, fun hread => ?_⟩
      have hsome := hread.snapshot
      rw [snapshotOf, hr] at hsome
      change (snapshot r (s.tasksOf id)).toOption.isSome = true at hsome
      rw [herr] at hsome
      cases hsome

variable {env : Nat → Answers} {n : Nat} {strict : Bool} {rep : ComparisonReport} {e : PyExc}
  {σ : Session}

/-- **What a report is about**: two runs at least, each of them readable. -/
theorem reported_of_run {runIds : List RunId} {thresholds : Option (List (String × PyFloat))}
    (h : (compareRuns pf runIds thresholds strict).run (Session.exec env) ⟨⟨s, []⟩, n⟩ =
      (.ok rep, σ)) :
    ∃ baselineId later, runIds = baselineId :: later ∧
      Reported pf (thresholds.getD defaultThresholds) strict s baselineId later rep := by
  cases runIds with
  | nil => cases (Prod.mk.inj h).1
  | cons baselineId later =>
    cases later with
    | nil => cases (Prod.mk.inj h).1
    | cons x xs =>
      have hrun := @Session.run_of_wp .any env _ _ _ _ ⟨⟨s, []⟩, n⟩
        (alone_compareRuns pf s baselineId thresholds strict (List.cons_ne_nil x xs))
        fun n => Admits.any_meets _
      rw [h] at hrun
      exact ⟨baselineId, x :: xs, rfl, hrun⟩

theorem failed_of_run {thresholds : Option (List (String × PyFloat))} (hne : later ≠ [])
    (h : (compareRuns pf (baselineId :: later) thresholds strict).run (Session.exec env)
      ⟨⟨s, []⟩, n⟩ = (.error e, σ)) : Failed pf strict s baselineId later e := by
  have hrun := @Session.run_of_wp .any env _ _ _ _ ⟨⟨s, []⟩, n⟩
    (alone_compareRuns pf s baselineId thresholds strict hne) fun n => Admits.any_meets _
  rw [h] at hrun
  exact hrun

/-- What a comparison of the runs in a store returns or raises. -/
def compared (pf : Platform) (env : Nat → Answers) (n : Nat) (s : StateStore)
    (thresholds : Option (List (String × PyFloat))) (strict : Bool) (runIds : List RunId) :
    Except PyExc ComparisonReport :=
  ((compareRuns pf runIds thresholds strict).run (Session.exec env) ⟨⟨s, []⟩, n⟩).1

variable {thresholds : Option (List (String × PyFloat))}

theorem reported_of_compared
    (h : compared pf env n s thresholds strict (baselineId :: later) = .ok rep) :
    Reported pf (thresholds.getD defaultThresholds) strict s baselineId later rep := by
  obtain ⟨_, _, heq, hrep⟩ := reported_of_run (Prod.ext h rfl)
  obtain ⟨rfl, rfl⟩ := List.cons.inj heq
  exact hrep

/-- Whether there is a report is up to each run by itself and each pair with the baseline. -/
theorem compared_ok_iff (hne : later ≠ []) :
    (∃ rep, compared pf env n s thresholds strict (baselineId :: later) = .ok rep) ↔
      (∀ id ∈ baselineId :: later, ReadableRun pf s id) ∧
        (strict = true → ¬ Clash pf s baselineId later) := by
  constructor
  · rintro ⟨rep, hrep⟩
    have h := reported_of_compared hrep
    exact ⟨h.readable, h.lenient⟩
  · rintro ⟨hread, hlenient⟩
    cases hout : compared pf env n s thresholds strict (baselineId :: later) with
    | ok rep => exact ⟨rep, rfl⟩
    | error e =>
      exfalso
      cases failed_of_run hne (Prod.ext hout rfl) with
      | unknown cls missing =>
        obtain ⟨id, hid, hnone⟩ := missing
        have hsnap := (hread id hid).snapshot
        rw [snapshotOf, hnone] at hsnap
        cases hsnap
      | refused cls known strictly clash => exact hlenient strictly clash
      | unreadable cls lenient bad =>
        obtain ⟨id, hid, hbad⟩ := bad
        exact hbad (hread id hid)

/-- `ComparabilityError` is raised. -/
def RefusedBy (out : Except PyExc ComparisonReport) : Prop :=
  ∃ e, out = .error e ∧ e.cls = "ComparabilityError"

theorem refused_iff (hne : later ≠ []) :
    RefusedBy (compared pf env n s thresholds strict (baselineId :: later)) ↔
      (∀ id ∈ baselineId :: later, s.run? id ≠ none) ∧ strict = true ∧
        Clash pf s baselineId later := by
  constructor
  · rintro ⟨e, he, hcls⟩
    cases failed_of_run hne (Prod.ext he rfl) with
    | unknown cls =>
      rw [cls] at hcls
      exact absurd hcls (by decide)
    | refused cls known strictly clash => exact ⟨known, strictly, clash⟩
    | unreadable cls => exact absurd hcls cls
  · rintro ⟨hknown, hstrict, hclash⟩
    cases hout : compared pf env n s thresholds strict (baselineId :: later) with
    | ok rep => exact absurd hclash ((reported_of_compared hout).lenient hstrict)
    | error e =>
      cases failed_of_run hne (Prod.ext hout rfl) with
      | unknown cls missing =>
        obtain ⟨id, hid, hnone⟩ := missing
        exact absurd hnone (hknown id hid)
      | refused cls => exact ⟨e, rfl, cls⟩
      | unreadable cls lenient => exact absurd hclash (lenient hstrict)

end Report

end Comparator
end FineTuneHarness
