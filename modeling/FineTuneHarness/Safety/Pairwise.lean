import FineTuneHarness.Evaluation.Summary

/-!
# Comparing several runs pair by pair

A report on a baseline and several later runs against the reports on the baseline and each of
them. The keys of the other runs' tasks are in the long report and not in the short ones: the
baseline has no such task, so it cannot have regressed.
-/
namespace FineTuneHarness

open Library Comparator

/-- Two comparisons of a task record the same for a run. -/
structure RecordsAlike (id : RunId) (c c' : TaskComparison) : Prop where
  deltas : c.metricDeltas.filter (·.2.1 = id) = c'.metricDeltas.filter (·.2.1 = id)
  regressions : c.metricRegressions.filter (·.2.1 = id) = c'.metricRegressions.filter (·.2.1 = id)
  excluded : latest c.excludedFromMetrics id = latest c'.excludedFromMetrics id
  status : latest c.statusByRun id = latest c'.statusByRun id
  wall : latest c.wallSecondsByRun id = latest c'.wallSecondsByRun id

def HasRegressed (rep : ComparisonReport) (key : String) : Prop :=
  ∃ c ∈ rep.taskComparisons, c.taskKey = key ∧ c.isRegression = true

/-- The report on all runs is made of the reports on the pairs. -/
structure MadeOfPairs (s : StateStore) (baselineId : RunId) (later : List RunId)
    (rep : ComparisonReport) (pair : RunId → ComparisonReport) : Prop where
  regressions : ∀ key, key ∈ rep.regressions ↔ ∃ id ∈ later, key ∈ (pair id).regressions
  improvements : ∀ key, key ∈ rep.improvements ↔ ∃ id ∈ later, key ∈ (pair id).improvements
  regressed : ∀ key, HasRegressed rep key ↔ ∃ id ∈ later, HasRegressed (pair id) key
  recorded : ∀ id ∈ later, ∀ t ∈ s.tasksOf baselineId ++ s.tasksOf id,
    (∃ c ∈ rep.taskComparisons, c.taskKey = t.taskKey) ∧
    (∃ c' ∈ (pair id).taskComparisons, c'.taskKey = t.taskKey) ∧
    ∀ c ∈ rep.taskComparisons, ∀ c' ∈ (pair id).taskComparisons, c.taskKey = t.taskKey →
      c'.taskKey = t.taskKey → RecordsAlike id c c'
  snapshots : ∀ id ∈ later, ∀ x ∈ [baselineId, id],
    latest rep.snapshots x = latest (pair id).snapshots x
  issues : rep.comparabilityIssues = later.flatMap fun id => (pair id).comparabilityIssues

section

variable {pf : Platform} {s : StateStore} {thresholds : List (String × PyFloat)}
  {baselineId : RunId} {later : List RunId} {key : String} {id : RunId}

/-- Of blocks that belong to their runs, those of one run are its own block. -/
theorem filter_blocks {α : Type} {block : RunId → List α} {owner : α → RunId} {ids : List RunId}
    (howner : ∀ id ∈ ids, ∀ e ∈ block id, owner e = id) (hnd : ids.Nodup) (hid : id ∈ ids) :
    (ids.flatMap block).filter (owner · = id) = block id := by
  induction ids with
  | nil => cases hid
  | cons x xs ih =>
    obtain ⟨hx, hnd⟩ := List.nodup_cons.mp hnd
    have hxs : ∀ id ∈ xs, ∀ e ∈ block id, owner e = id :=
      fun id hid => howner id (List.mem_cons_of_mem _ hid)
    rw [List.flatMap_cons, List.filter_append]
    by_cases hxid : x = id
    · subst hxid
      have hself : (block x).filter (owner · = x) = block x :=
        List.filter_eq_self.mpr fun e he => decide_eq_true (howner x List.mem_cons_self e he)
      have hothers : (xs.flatMap block).filter (owner · = x) = [] := by
        apply List.filter_eq_nil_iff.mpr
        intro e he howned
        obtain ⟨y, hy, he⟩ := List.mem_flatMap.mp he
        rw [hxs y hy e he] at howned
        exact hx (of_decide_eq_true howned ▸ hy)
      rw [hself, hothers, List.append_nil]
    · have hnone : (block x).filter (owner · = id) = [] := by
        apply List.filter_eq_nil_iff.mpr
        intro e he howned
        rw [howner x List.mem_cons_self e he] at howned
        exact hxid (of_decide_eq_true howned)
      rw [hnone, List.nil_append]
      exact ih hxs hnd ((List.mem_cons.mp hid).resolve_left (Ne.symm hxid))

/-- The deltas of a run in a comparison are those of its pair. -/
theorem deltas_of_run (hnd : later.Nodup) (hid : id ∈ later) (taskAt : RunId → Option TaskRecord) :
    (comparisonOf pf thresholds baselineId later taskAt key).metricDeltas.filter (·.2.1 = id) =
      pairDeltas pf (resultAt taskAt baselineId) (resultAt taskAt id) id :=
  filter_blocks (fun _ _ _ he => (mem_pairDeltas.mp he).1) hnd hid

theorem regressions_of_run (hnd : later.Nodup) (hid : id ∈ later)
    (taskAt : RunId → Option TaskRecord) :
    (comparisonOf pf thresholds baselineId later taskAt key).metricRegressions.filter
      (·.2.1 = id) =
      (pairDeltas pf (resultAt taskAt baselineId) (resultAt taskAt id) id).filter
        fun e => isMetricRegression e.1 e.2.2 thresholds := by
  show List.filter _ (List.filter _ _) = _
  rw [List.filter_comm]
  exact congrArg _ (filter_blocks (fun _ _ _ he => (mem_pairDeltas.mp he).1) hnd hid)

section Recorded

variable {taskAt : RunId → Option TaskRecord} (hid : id ∈ baselineId :: later)
include hid

theorem excluded_of_run :
    latest (comparisonOf pf thresholds baselineId later taskAt key).excludedFromMetrics id =
      exclusionReason pf (resultAt taskAt id) :=
  latest_filterMap (f := fun id => exclusionReason pf (resultAt taskAt id)) hid

theorem status_of_run :
    latest (comparisonOf pf thresholds baselineId later taskAt key).statusByRun id =
      some (statusText (taskAt id)) :=
  latest_map (f := fun id => statusText (taskAt id)) hid

theorem wall_of_run :
    latest (comparisonOf pf thresholds baselineId later taskAt key).wallSecondsByRun id =
      some (wallOf (resultAt taskAt id)) :=
  latest_map (f := fun id => wallOf (resultAt taskAt id)) hid

end Recorded

theorem recordsAlike_pair (hnd : later.Nodup) (hid : id ∈ later)
    (taskAt : RunId → Option TaskRecord) :
    RecordsAlike id (comparisonOf pf thresholds baselineId later taskAt key)
      (comparisonOf pf thresholds baselineId [id] taskAt key) := by
  have hone : [id].Nodup := List.nodup_singleton id
  have hself : id ∈ [id] := List.mem_singleton.mpr rfl
  have hin : id ∈ baselineId :: later := List.mem_cons_of_mem _ hid
  have hpair : id ∈ [baselineId, id] := List.mem_cons_of_mem _ hself
  constructor
  · rw [deltas_of_run hnd hid, deltas_of_run hone hself]
  · rw [regressions_of_run hnd hid, regressions_of_run hone hself]
  · rw [excluded_of_run hin, excluded_of_run hpair]
  · rw [status_of_run hin, status_of_run hpair]
  · rw [wall_of_run hin, wall_of_run hpair]

/-- A task has regressed where its status has, or one of its metrics. -/
def RegressedFor (pf : Platform) (thresholds : List (String × PyFloat)) (s : StateStore)
    (baselineId : RunId) (key : String) (id : RunId) : Prop :=
  (statusText (taskOf s key baselineId) ∈ okTexts ∧
    statusText (taskOf s key id) ∈ failTexts) ∨
  ∃ e ∈ pairDeltas pf (resultAt (taskOf s key) baselineId) (resultAt (taskOf s key) id) id,
    isMetricRegression e.1 e.2.2 thresholds = true

/-- Only a task of the baseline regresses. -/
theorem RegressedFor.listed (h : RegressedFor pf thresholds s baselineId key id) :
    key ∈ keysOf s (baselineId :: later) := by
  rcases h with ⟨hok, -⟩ | ⟨e, he, -⟩
  · exact mem_keysOf_of_status List.mem_cons_self (ne_missing_of_ok hok)
  · obtain ⟨-, -, -, -, q, -, hm, -⟩ := mem_pairDeltas.mp he
    cases ht : taskOf s key baselineId with
    | none =>
      rw [resultAt, ht] at hm
      cases hm
    | some t =>
      have hmem : t ∈ s.tasksOf baselineId := List.mem_reverse.mp (List.mem_of_find?_eq_some ht)
      have hkey : t.taskKey = key := by simpa using List.find?_some ht
      exact mem_keysOf.mpr ⟨baselineId, List.mem_cons_self, t, hmem, hkey⟩

theorem isRegression_iff :
    (comparisonOf pf thresholds baselineId later (taskOf s key) key).isRegression = true ↔
      ∃ id ∈ later, RegressedFor pf thresholds s baselineId key id := by
  show (statusRegressed _ _ || !(List.filter _ (List.flatMap _ _)).isEmpty) = true ↔ _
  rw [Bool.or_eq_true, statusRegressed_iff, Bool.not_eq_true', List.isEmpty_eq_false_iff_exists_mem]
  simp only [List.mem_map, exists_exists_and_eq_and, List.mem_filter, List.mem_flatMap]
  constructor
  · rintro (⟨hok, id, hid, hfail⟩ | ⟨e, ⟨id, hid, he⟩, hreg⟩)
    · exact ⟨id, hid, .inl ⟨hok, hfail⟩⟩
    · exact ⟨id, hid, .inr ⟨e, he, hreg⟩⟩
  · rintro ⟨id, hid, ⟨hok, hfail⟩ | ⟨e, he, hreg⟩⟩
    · exact .inl ⟨hok, id, hid, hfail⟩
    · exact .inr ⟨e, ⟨id, hid, he⟩, hreg⟩

theorem hasRegressed_iff :
    HasRegressed (summary pf thresholds s baselineId later) key ↔
      ∃ id ∈ later, RegressedFor pf thresholds s baselineId key id := by
  constructor
  · rintro ⟨c, hc, rfl, hreg⟩
    rw [(mem_comparisons.mp hc).2] at hreg
    exact isRegression_iff.mp hreg
  · rintro ⟨id, hid, h⟩
    refine ⟨comparisonOf pf thresholds baselineId later (taskOf s key) key, ?_, rfl,
      isRegression_iff.mpr ⟨id, hid, h⟩⟩
    exact mem_comparisons.mpr ⟨h.listed, rfl⟩

/-- **The summaries.** What is said of all runs at once is what is said of each pair. -/
theorem summary_madeOfPairs (hnd : later.Nodup) {pair : RunId → ComparisonReport}
    (hpair : ∀ id ∈ later, pair id = summary pf thresholds s baselineId [id]) :
    MadeOfPairs s baselineId later (summary pf thresholds s baselineId later) pair := by
  have hpairs : ∀ P : ComparisonReport → Prop, (∃ id ∈ later, P (pair id)) ↔
      ∃ id ∈ later, P (summary pf thresholds s baselineId [id]) := fun P =>
    exists_congr fun id => and_congr_right fun hid => by rw [hpair id hid]
  constructor
  · intro key
    apply Iff.trans _ (hpairs fun rep => key ∈ rep.regressions).symm
    simp only [mem_regressions, List.mem_singleton, exists_eq_left]
    constructor
    · rintro ⟨hok, id, hid, hfail⟩
      exact ⟨id, hid, hok, hfail⟩
    · rintro ⟨id, hid, hok, hfail⟩
      exact ⟨hok, id, hid, hfail⟩
  · intro key
    apply Iff.trans _ (hpairs fun rep => key ∈ rep.improvements).symm
    simp only [mem_improvements, List.mem_singleton, exists_eq_left]
    constructor
    · rintro ⟨hfail, id, hid, hok⟩
      exact ⟨id, hid, hfail, hok⟩
    · rintro ⟨id, hid, hfail, hok⟩
      exact ⟨hfail, id, hid, hok⟩
  · intro key
    apply Iff.trans _ (hpairs fun rep => HasRegressed rep key).symm
    simp only [hasRegressed_iff, List.mem_singleton, exists_eq_left]
  · intro id hid t ht
    rw [hpair id hid]
    have hkey : ∀ ids, id ∈ ids → t.taskKey ∈ keysOf s (baselineId :: ids) := by
      intro ids hin
      apply mem_keysOf.mpr
      rcases List.mem_append.mp ht with ht | ht
      · exact ⟨baselineId, List.mem_cons_self, t, ht, rfl⟩
      · exact ⟨id, List.mem_cons_of_mem _ hin, t, ht, rfl⟩
    have hlisted : ∀ ids, id ∈ ids → ∃ c ∈ (summary pf thresholds s baselineId ids).taskComparisons,
        c.taskKey = t.taskKey := fun ids hin =>
      ⟨comparisonOf pf thresholds baselineId ids (taskOf s t.taskKey) t.taskKey,
        mem_comparisons.mpr ⟨hkey ids hin, rfl⟩, rfl⟩
    refine ⟨hlisted later hid, hlisted [id] (List.mem_singleton.mpr rfl), ?_⟩
    intro c hc c' hc' hck hck'
    rw [(mem_comparisons.mp hc).2, (mem_comparisons.mp hc').2, hck, hck']
    exact recordsAlike_pair hnd hid _
  · intro id hid x hx
    rw [hpair id hid]
    have hin : x ∈ baselineId :: later := by
      rcases List.mem_cons.mp hx with rfl | hx
      · exact List.mem_cons_self
      · exact List.mem_cons_of_mem _ (List.mem_singleton.mp hx ▸ hid)
    exact (latest_filterMap hin).trans (latest_filterMap hx).symm
  · show List.flatMap _ later = _
    apply List.flatMap_congr
    intro id hid
    rw [hpair id hid]
    exact (List.flatMap_singleton _ id).symm

theorem clash_iff_pair :
    Clash pf s baselineId later ↔ ∃ id ∈ later, Clash pf s baselineId [id] := by
  simp only [Clash, List.mem_singleton, exists_eq_left]

end

/-- **Comparing several runs is comparing them pairwise.** There is a report on the list where
there is one on every pair, it is refused as not comparable where a pair is, and it says of
every run what its pair says. -/
theorem comparison_pairwise {pf : Platform} {env : Nat → Answers} {n : Nat} {s : StateStore}
    {thresholds : Option (List (String × PyFloat))} {baselineId : RunId} {later : List RunId}
    (hne : later ≠ []) (hdistinct : (baselineId :: later).Nodup) :
    (∀ strict, (∃ rep, compared pf env n s thresholds strict (baselineId :: later) = .ok rep) ↔
      ∀ id ∈ later, ∃ rep, compared pf env n s thresholds strict [baselineId, id] = .ok rep) ∧
    ((∀ id ∈ baselineId :: later, s.run? id ≠ none) → ∀ strict,
      (RefusedBy (compared pf env n s thresholds strict (baselineId :: later)) ↔
        ∃ id ∈ later, RefusedBy (compared pf env n s thresholds strict [baselineId, id]))) ∧
    ∀ strict rep pair, compared pf env n s thresholds strict (baselineId :: later) = .ok rep →
      (∀ id ∈ later, compared pf env n s thresholds strict [baselineId, id] = .ok (pair id)) →
      MadeOfPairs s baselineId later rep pair := by
  have hone : ∀ id, [id] ≠ ([] : List RunId) := fun id => List.cons_ne_nil id []
  constructor
  · intro strict
    rw [compared_ok_iff hne]
    constructor
    · rintro ⟨hread, hlenient⟩ id hid
      refine (compared_ok_iff (hone id)).mpr ⟨fun x hx => hread x ?_, fun hstrict hclash => ?_⟩
      · rcases List.mem_cons.mp hx with rfl | hx
        · exact List.mem_cons_self
        · exact List.mem_cons_of_mem _ (List.mem_singleton.mp hx ▸ hid)
      · exact hlenient hstrict (clash_iff_pair.mpr ⟨id, hid, hclash⟩)
    · intro hpairs
      have hpair : ∀ id ∈ later, _ := fun id hid => (compared_ok_iff (hone id)).mp (hpairs id hid)
      constructor
      · intro x hx
        rcases List.mem_cons.mp hx with rfl | hx
        · obtain ⟨id, hid⟩ := List.exists_mem_of_ne_nil later hne
          exact (hpair id hid).1 x List.mem_cons_self
        · exact (hpair x hx).1 x (List.mem_cons_of_mem _ (List.mem_singleton.mpr rfl))
      · intro hstrict hclash
        obtain ⟨id, hid, hclash⟩ := clash_iff_pair.mp hclash
        exact (hpair id hid).2 hstrict hclash
  constructor
  · intro hknown strict
    rw [refused_iff hne, clash_iff_pair]
    constructor
    · rintro ⟨-, hstrict, id, hid, hclash⟩
      refine ⟨id, hid, (refused_iff (hone id)).mpr ⟨fun x hx => hknown x ?_, hstrict, hclash⟩⟩
      rcases List.mem_cons.mp hx with rfl | hx
      · exact List.mem_cons_self
      · exact List.mem_cons_of_mem _ (List.mem_singleton.mp hx ▸ hid)
    · rintro ⟨id, hid, hrefused⟩
      obtain ⟨-, hstrict, hclash⟩ := (refused_iff (hone id)).mp hrefused
      exact ⟨hknown, hstrict, id, hid, hclash⟩
  · intro strict rep pair hrep hpairs
    obtain rfl := (reported_of_compared hrep).eq
    have hpair : ∀ id ∈ later, pair id = summary pf (thresholds.getD defaultThresholds) s
        baselineId [id] := fun id hid => (reported_of_compared (hpairs id hid)).eq
    exact summary_madeOfPairs (List.nodup_cons.mp hdistinct).2 hpair

/-- The task `k` of a run, with its accuracy. -/
def scoredTask (runId : RunId) (status : TaskStatus) (accuracy : ℚ) : TaskRecord where
  taskId := runId
  runId := runId
  taskKey := "k"
  status := status
  payload := []
  result := some (Dict.ofList [("accuracy", .float (.finite accuracy))])

/-- A baseline and two runs; the task has failed in one of them. -/
def threeRuns : StateStore where
  backend := .sqlite
  tables := {
    runs := ⟨["b", "x", "y"].map fun id =>
      { runId := id, name := id, status := .completed, config := [], createdAt := 0 }, by decide⟩
    tasks := ⟨[scoredTask "b" .succeeded (9 / 10), scoredTask "x" .failed (1 / 2),
      scoredTask "y" .succeeded 1], by decide⟩
    events := []
    artifacts := [] }

/-- The comparisons of these runs by the default thresholds. -/
def comparingThree (runIds : List RunId) : Except PyExc ComparisonReport :=
  compared .bare (fun _ => Answers.steady 0 (.ok .none)) 0 threeRuns none true runIds

theorem threeRuns_pairwise : ∃ rep pair, comparingThree ["b", "x", "y"] = .ok rep ∧
    rep.regressions = ["k"] ∧ MadeOfPairs threeRuns "b" ["x", "y"] rep pair := by
  have hreg : (comparingThree ["b", "x", "y"]).toOption.any (·.regressions = ["k"]) = true := by
    decide +kernel
  have h := @comparison_pairwise .bare (fun _ => Answers.steady 0 (.ok .none)) 0 threeRuns none "b"
    ["x", "y"] (by decide) (by decide)
  cases hrep : comparingThree ["b", "x", "y"] with
  | error e =>
    rw [hrep] at hreg
    cases hreg
  | ok rep =>
    rw [hrep] at hreg
    refine ⟨rep, fun id => (comparingThree ["b", id]).toOption.getD rep, rfl,
      of_decide_eq_true hreg, h.2.2 true rep _ hrep fun id hid => ?_⟩
    obtain ⟨rep', hrep'⟩ := (h.1 true).mp ⟨rep, hrep⟩ id hid
    show comparingThree ["b", id] = .ok ((comparingThree ["b", id]).toOption.getD rep)
    rw [show comparingThree ["b", id] = .ok rep' from hrep']
    rfl

end FineTuneHarness
