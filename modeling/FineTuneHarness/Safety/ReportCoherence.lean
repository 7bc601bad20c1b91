import FineTuneHarness.Evaluation.ComparatorLoop
import FineTuneHarness.Safety.Pairwise

/-!
# A report that agrees with itself

What the parts of a comparison report say about one task fits together, and so do the counts of
a snapshot. Looser thresholds never bring up a new metric regression.
-/
namespace FineTuneHarness

open Library Comparator

/-! ## Thresholds -/

/-- `thresholds.get(name)`. -/
def thresholdOf (thresholds : List (String × PyFloat)) (name : String) : Option PyFloat :=
  (thresholds.find? fun t => t.1 = name).map (·.2)

/-- `0 <= x`. -/
def PyFloat.nonneg : PyFloat → Bool
  | .finite q => 0 ≤ q
  | .inf negative => !negative
  | .nan => false

/-- The delta is over the threshold of its metric: upwards for a loss, downwards for anything
else. -/
def CrossesThreshold (thresholds : List (String × PyFloat)) (key : PyKey) (delta : ℚ) : Prop :=
  ∃ name q, key = .str name ∧ thresholdOf thresholds name = some (.finite q) ∧ 0 ≤ q ∧
    if name ∈ lowerIsBetter then q < delta else delta < -q

/-- The second map has thresholds of the first, some of them raised. -/
def Looser (thresholds thresholds' : List (String × PyFloat)) : Prop :=
  ∀ name x', thresholdOf thresholds' name = some x' →
    ∃ x, thresholdOf thresholds name = some x ∧ (x = x' ∨ Validator.floatLt x x' = true)

section Thresholds

variable {thresholds thresholds' : List (String × PyFloat)} {key : PyKey} {delta : ℚ}

/-- The threshold of a metric decides; a key that is no string has none. -/
theorem isMetricRegression_eq : isMetricRegression key delta thresholds = true ↔
    ∃ name x, key = .str name ∧ thresholdOf thresholds name = some x ∧
      if name ∈ lowerIsBetter then Validator.floatLt x (.finite delta) = true
      else Validator.floatLt (.finite delta) (negate x) = true := by
  unfold isMetricRegression
  cases key with
  | str name =>
    have hfind : (thresholds.find? fun t => PyKey.str name = .str t.1) =
        thresholds.find? fun t => t.1 = name := by
      congr 1
      funext t
      exact decide_eq_decide.mpr ⟨fun h => (PyKey.str.inj h).symm, fun h => h ▸ rfl⟩
    rw [hfind]
    simp only [PyKey.str.injEq, exists_and_left, exists_eq_left', thresholdOf, Validator.memberOf]
    cases thresholds.find? fun t => t.1 = name with
    | none => simp
    | some t =>
      simp only [Option.map_some, Option.some.injEq, exists_eq_left', decide_eq_true_eq]
      split <;> exact Iff.rfl
  | _ =>
    have hnone : (thresholds.find? fun _ => false) = none := List.find?_eq_none.mpr (by simp)
    simp [hnone]

/-- **A metric regression is a threshold crossed.** -/
theorem isMetricRegression_iff (hnonneg : ∀ t ∈ thresholds, t.2.nonneg = true) :
    isMetricRegression key delta thresholds = true ↔ CrossesThreshold thresholds key delta := by
  rw [isMetricRegression_eq]
  constructor
  · intro ⟨name, x, hkey, hx, hcross⟩
    obtain ⟨t, ht, rfl⟩ := Option.map_eq_some_iff.mp hx
    have hpos := hnonneg t (List.mem_of_find?_eq_some ht)
    obtain ⟨name', x⟩ := t
    cases x with
    | finite q =>
      refine ⟨name, q, hkey, hx, of_decide_eq_true hpos, ?_⟩
      simpa [Validator.floatLt, negate] using hcross
    | inf negative =>
      cases negative with
      | true => cases hpos
      | false => simp [Validator.floatLt, negate] at hcross
    | nan => cases hpos
  · intro ⟨name, q, hkey, hq, _, hcross⟩
    refine ⟨name, .finite q, hkey, hq, ?_⟩
    simpa [Validator.floatLt, negate] using hcross

theorem floatLt_trans {x y z : PyFloat} (hxy : Validator.floatLt x y = true)
    (hyz : Validator.floatLt y z = true) : Validator.floatLt x z = true := by
  cases x <;> cases y <;> cases z <;> simp_all [Validator.floatLt]
  exact hxy.trans hyz

theorem floatLt_negate {x y : PyFloat} :
    Validator.floatLt (negate y) (negate x) = Validator.floatLt x y := by
  cases x <;> cases y <;> simp [Validator.floatLt, negate, Bool.and_comm]

theorem isMetricRegression_mono (h : Looser thresholds thresholds')
    (hreg : isMetricRegression key delta thresholds' = true) :
    isMetricRegression key delta thresholds = true := by
  rw [isMetricRegression_eq] at hreg ⊢
  obtain ⟨name, x', hkey, hx', hcross⟩ := hreg
  obtain ⟨x, hx, rfl | hraised⟩ := h name x' hx'
  · exact ⟨name, x, hkey, hx, hcross⟩
  · refine ⟨name, x, hkey, hx, ?_⟩
    split at hcross
    next hlower =>
      rw [if_pos hlower]
      exact floatLt_trans hraised hcross
    next hhigher =>
      rw [if_neg hhigher]
      apply floatLt_trans hcross
      rw [floatLt_negate]
      exact hraised

end Thresholds

/-! ## One report -/

/-- The counts of a snapshot, next to the tasks it counts. -/
structure CountsTasks (snap : RunSnapshot) (tasks : List TaskRecord) : Prop where
  degenerate : snap.degenerate ≤ snap.failed
  ended : snap.succeeded + snap.failed ≤ snap.totalTasks
  settled : snap.succeeded + snap.failed = snap.totalTasks ↔ ∀ t ∈ tasks, t.status.terminal = true

/-- An entry among the metric regressions of a task. -/
structure JustifiedEntry (thresholds : List (String × PyFloat)) (baselineId : RunId)
    (c : TaskComparison) (e : PyKey × RunId × ℚ) : Prop where
  noted : e ∈ c.metricDeltas
  counted : isExcluded c.excludedFromMetrics e.2.1 = false
  baseline : isExcluded c.excludedFromMetrics baselineId = false
  metric : e.1 ≠ .str "wall_seconds"
  crosses : CrossesThreshold thresholds e.1 e.2.2

/-- The parts of a report say the same of every task. -/
structure Coherent (thresholds : List (String × PyFloat)) (s : StateStore) (baselineId : RunId)
    (rep : ComparisonReport) : Prop where
  sorted : ∀ keys ∈ [rep.regressions, rep.improvements, rep.metricRegressions],
    keys.Pairwise (· < ·)
  listed : ∀ keys ∈ [rep.regressions, rep.improvements, rep.metricRegressions], ∀ key ∈ keys,
    ∃ c ∈ rep.taskComparisons, c.taskKey = key
  improved : rep.regressions.Disjoint rep.improvements
  byMetric : rep.regressions.Disjoint rep.metricRegressions
  flagged : ∀ c ∈ rep.taskComparisons, c.isRegression = true ↔
    c.taskKey ∈ rep.regressions ∨ c.taskKey ∈ rep.metricRegressions
  justified : ∀ c ∈ rep.taskComparisons, ∀ e ∈ c.metricRegressions,
    JustifiedEntry thresholds baselineId c e
  counted : ∀ p ∈ rep.snapshots, CountsTasks p.2 (s.tasksOf p.1)

section Report

variable {pf : Platform} {s : StateStore} {thresholds thresholds' : List (String × PyFloat)}
  {baselineId : RunId} {later : List RunId} {key : String}

theorem keysOf_sorted (ids : List RunId) : (keysOf s ids).Pairwise (· < ·) := by
  have hle : (keysOf s ids).Pairwise (· ≤ ·) := List.pairwise_insertionSort _ _
  have hne : (keysOf s ids).Nodup := (List.perm_insertionSort _ _).nodup_iff.mpr (List.nodup_dedup _)
  apply (hle.and hne).imp
  intro a b ⟨hab, hne⟩
  by_contra hlt
  exact hne (String.le_antisymm hab (String.not_lt.mp hlt))

/-- The tasks that succeeded and those that failed are the ended ones. -/
theorem ended_count (tasks : List TaskRecord) :
    (tasks.filter fun t => t.status = .succeeded).length +
      (tasks.filter fun t => TaskStatus.failedForComparison t.status).length =
      (tasks.filter fun t => t.status.terminal).length := by
  induction tasks with
  | nil => rfl
  | cons t tasks ih =>
    simp only [List.filter_cons]
    cases t.status <;>
      simp only [TaskStatus.failedForComparison, TaskStatus.terminal, List.mem_cons, List.not_mem_nil,
        reduceCtorEq, or_true, or_false, decide_true, decide_false, if_true, Bool.false_eq_true,
        if_false, List.length_cons] at ih ⊢ <;>
      omega

theorem snapshot_counts {run : RunRecord} {tasks : List TaskRecord} {snap : RunSnapshot}
    (h : snapshot run tasks = .ok snap) : CountsTasks snap tasks := by
  obtain ⟨timed, -, h⟩ := Except.bind_ok h
  obtain rfl := Except.ok.inj h
  have hended := ended_count tasks
  have hall := @List.length_filter_eq_length_iff _ (fun t : TaskRecord => t.status.terminal) tasks
  constructor
  · show (tasks.filter _).length ≤ (tasks.filter _).length
    rw [← List.countP_eq_length_filter, ← List.countP_eq_length_filter]
    apply List.countP_mono_left
    intro t _ hdeg
    rw [of_decide_eq_true hdeg]
    rfl
  · exact hended.trans_le (List.length_filter_le _ _)
  · show _ + _ = tasks.length ↔ _
    rw [hended]
    exact hall

/-- The comparison of a task in a summary. -/
abbrev comparedAt (pf : Platform) (thresholds : List (String × PyFloat)) (s : StateStore)
    (baselineId : RunId) (later : List RunId) (key : String) : TaskComparison :=
  comparisonOf pf thresholds baselineId later (taskOf s key) key

theorem metricRegressions_eq : (summary pf thresholds s baselineId later).metricRegressions =
    (keysOf s (baselineId :: later)).filter fun key =>
      !(comparedAt pf thresholds s baselineId later key).metricRegressions.isEmpty &&
        !statusRegressed (statusText (taskOf s key baselineId))
          (later.map fun id => statusText (taskOf s key id)) := by
  show List.map _ (List.filter _ (List.map _ _)) = _
  rw [List.filter_map, List.map_map]
  exact List.map_id _

/-- Each of the three lists picks keys of the tasks, in their order. -/
theorem lists_pick_keys {keys : List String}
    (h : keys ∈ [(summary pf thresholds s baselineId later).regressions,
      (summary pf thresholds s baselineId later).improvements,
      (summary pf thresholds s baselineId later).metricRegressions]) :
    ∃ p, keys = (keysOf s (baselineId :: later)).filter p := by
  simp only [List.mem_cons, List.not_mem_nil, or_false] at h
  rcases h with rfl | rfl | rfl
  · exact ⟨_, rfl⟩
  · exact ⟨_, improvements_eq⟩
  · exact ⟨_, metricRegressions_eq⟩

theorem mem_metricRegressions : key ∈ (summary pf thresholds s baselineId later).metricRegressions ↔
    key ∈ keysOf s (baselineId :: later) ∧
      (comparedAt pf thresholds s baselineId later key).metricRegressions ≠ [] ∧
      key ∉ (summary pf thresholds s baselineId later).regressions := by
  rw [metricRegressions_eq, List.mem_filter]
  show _ ↔ _ ∧ _ ∧ key ∉ List.filter _ _
  rw [List.mem_filter, Bool.and_eq_true, Bool.not_eq_true', List.isEmpty_eq_false_iff]
  constructor
  · intro ⟨hkey, hmetrics, hstatus⟩
    refine ⟨hkey, hmetrics, fun hreg => ?_⟩
    rw [hreg.2] at hstatus
    cases hstatus
  · intro ⟨hkey, hmetrics, hreg⟩
    refine ⟨hkey, hmetrics, ?_⟩
    rw [Bool.not_eq_true', ← Bool.not_eq_true]
    exact fun hstatus => hreg ⟨hkey, hstatus⟩

theorem comparedAt_justified (hnonneg : ∀ t ∈ thresholds, t.2.nonneg = true)
    {e : PyKey × RunId × ℚ}
    (he : e ∈ (comparedAt pf thresholds s baselineId later key).metricRegressions) :
    JustifiedEntry thresholds baselineId (comparedAt pf thresholds s baselineId later key) e := by
  obtain ⟨hnoted, hreg⟩ := List.mem_filter.mp he
  obtain ⟨id, hid, hpair⟩ := List.mem_flatMap.mp hnoted
  obtain ⟨rfl, hrun, hbase, hwall, -⟩ := mem_pairDeltas.mp hpair
  constructor
  · exact hnoted
  · exact (isExcluded_excludedOf (List.mem_cons_of_mem _ hid)).trans hrun
  · exact (isExcluded_excludedOf List.mem_cons_self).trans hbase
  · exact hwall
  · exact (isMetricRegression_iff hnonneg).mp hreg

/-- **Every summary is coherent.** -/
theorem summary_coherent (hnonneg : ∀ t ∈ thresholds, t.2.nonneg = true) :
    Coherent thresholds s baselineId (summary pf thresholds s baselineId later) := by
  constructor
  case sorted =>
    intro keys hkeys
    obtain ⟨p, rfl⟩ := lists_pick_keys hkeys
    exact (keysOf_sorted _).filter p
  case listed =>
    intro keys hkeys key hkey
    obtain ⟨p, rfl⟩ := lists_pick_keys hkeys
    have hmem := (List.mem_filter.mp hkey).1
    exact ⟨comparedAt pf thresholds s baselineId later key, mem_comparisons.mpr ⟨hmem, rfl⟩, rfl⟩
  case improved =>
    intro key hreg himp
    have hok := (mem_regressions.mp hreg).1
    have hfail := (mem_improvements.mp himp).1
    rw [List.mem_singleton.mp hok] at hfail
    revert hfail
    decide
  case byMetric =>
    intro key hreg hmetric
    exact (mem_metricRegressions.mp hmetric).2.2 hreg
  case flagged =>
    intro c hc
    obtain ⟨hkey, hc⟩ := mem_comparisons.mp hc
    generalize c.taskKey = key at hkey hc
    subst hc
    have hstatus : key ∈ (summary pf thresholds s baselineId later).regressions ↔
        statusRegressed (statusText (taskOf s key baselineId))
          (later.map fun id => statusText (taskOf s key id)) = true :=
      List.mem_filter.trans (and_iff_right hkey)
    rw [mem_metricRegressions, ← List.isEmpty_eq_false_iff]
    show (_ || !List.isEmpty (comparedAt pf thresholds s baselineId later key).metricRegressions) =
      true ↔ _
    rw [Bool.or_eq_true, ← hstatus, Bool.not_eq_true']
    by_cases hreg : key ∈ (summary pf thresholds s baselineId later).regressions
    · exact iff_of_true (.inl hreg) (.inl hreg)
    · exact or_congr_right ⟨fun h => ⟨hkey, h, hreg⟩, fun h => h.2.1⟩
  case justified =>
    intro c hc e he
    rw [(mem_comparisons.mp hc).2] at he ⊢
    exact comparedAt_justified hnonneg he
  case counted =>
    intro p hp
    obtain ⟨id, -, hp⟩ := List.mem_filterMap.mp hp
    obtain ⟨snap, hsnap, rfl⟩ := Option.map_eq_some_iff.mp hp
    obtain ⟨run, -, hsnap⟩ := Option.bind_eq_some_iff.mp hsnap
    cases hx : snapshot run (s.tasksOf id) with
    | error e =>
      rw [hx] at hsnap
      cases hsnap
    | ok snap' =>
      rw [hx] at hsnap
      obtain rfl := Option.some.inj hsnap
      exact snapshot_counts hx

/-- Looser thresholds: no task gets a metric regression, and none is listed for one, that was not
there before. -/
structure NoNewRegressions (rep rep' : ComparisonReport) : Prop where
  entries : ∀ c' ∈ rep'.taskComparisons, ∃ c ∈ rep.taskComparisons, c.taskKey = c'.taskKey ∧
    ∀ e ∈ c'.metricRegressions, e ∈ c.metricRegressions
  listed : ∀ key ∈ rep'.metricRegressions, key ∈ rep.metricRegressions

theorem summary_loosened (h : Looser thresholds thresholds') :
    NoNewRegressions (summary pf thresholds s baselineId later)
      (summary pf thresholds' s baselineId later) := by
  have hentries : ∀ key, ∀ e ∈ (comparedAt pf thresholds' s baselineId later key).metricRegressions,
      e ∈ (comparedAt pf thresholds s baselineId later key).metricRegressions := by
    intro key e he
    obtain ⟨hnoted, hreg⟩ := List.mem_filter.mp he
    exact List.mem_filter.mpr ⟨hnoted, isMetricRegression_mono h hreg⟩
  constructor
  · intro c' hc'
    obtain ⟨hkey, hc'⟩ := mem_comparisons.mp hc'
    refine ⟨comparedAt pf thresholds s baselineId later c'.taskKey,
      mem_comparisons.mpr ⟨hkey, rfl⟩, rfl, ?_⟩
    rw [hc']
    exact hentries c'.taskKey
  · intro key hkey
    obtain ⟨hlisted, hmetrics, hreg⟩ := mem_metricRegressions.mp hkey
    obtain ⟨e, he⟩ := List.exists_mem_of_ne_nil _ hmetrics
    apply mem_metricRegressions.mpr
    exact ⟨hlisted, List.ne_nil_of_mem (hentries key e he), hreg⟩

end Report

/-- **Coherence of a comparison report.** The parts of every report agree, and with a threshold
raised or removed the same call returns a report without any new metric regression. -/
theorem comparison_coherent {pf : Platform} {env : Nat → Answers} {n : Nat} {s : StateStore}
    {thresholds : Option (List (String × PyFloat))} {strict : Bool} {baselineId : RunId}
    {later : List RunId} {rep : ComparisonReport} (hne : later ≠ [])
    (hnonneg : ∀ t ∈ thresholds.getD defaultThresholds, t.2.nonneg = true)
    (hrep : compared pf env n s thresholds strict (baselineId :: later) = .ok rep) :
    Coherent (thresholds.getD defaultThresholds) s baselineId rep ∧
    ∀ thresholds', Looser (thresholds.getD defaultThresholds) thresholds' →
      ∃ rep', compared pf env n s (some thresholds') strict (baselineId :: later) = .ok rep' ∧
        NoNewRegressions rep rep' := by
  have hfound := (compared_ok_iff hne).mp ⟨rep, hrep⟩
  obtain rfl := (reported_of_compared hrep).eq
  constructor
  · exact summary_coherent hnonneg
  · intro thresholds' hlooser
    obtain ⟨rep', hrep'⟩ := (@compared_ok_iff _ _ _ _ _ _ _ (some thresholds') hne).mpr hfound
    refine ⟨rep', hrep', ?_⟩
    rw [(reported_of_compared hrep').eq]
    exact summary_loosened hlooser

/-- An accuracy that fell from 1 to 9/10. -/
theorem comparison_coherent_drop : ∃ rep, comparingThree ["y", "b"] = .ok rep ∧
    rep.metricRegressions = ["k"] ∧ Coherent defaultThresholds threeRuns "y" rep := by
  have hlisted : (comparingThree ["y", "b"]).toOption.any (·.metricRegressions = ["k"]) = true := by
    decide +kernel
  cases hrep : comparingThree ["y", "b"] with
  | error e =>
    rw [hrep] at hlisted
    cases hlisted
  | ok rep =>
    rw [hrep] at hlisted
    have hnonneg : ∀ t ∈ Option.getD none defaultThresholds, t.2.nonneg = true := by
      decide +kernel
    refine ⟨rep, rfl, of_decide_eq_true hlisted, ?_⟩
    exact (comparison_coherent (List.cons_ne_nil "b" []) hnonneg hrep).1

end FineTuneHarness
