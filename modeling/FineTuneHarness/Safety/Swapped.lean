import FineTuneHarness.Evaluation.Equality
import FineTuneHarness.Safety.Pairwise

/-!
# Swapping baseline and candidate

The baseline is treated apart throughout `compareRuns`, but what the report on two runs says
is the same with the roles changed: a regression one way is an improvement the other.
-/
namespace FineTuneHarness

open Library Comparator

/-- The dictionaries in the store are dictionaries: no key occurs twice. -/
structure WellKeyed (s : StateStore) : Prop where
  runs : ∀ id run, s.run? id = some run → wellKeyedItems run.config = true ∧
    wellKeyedItems run.datasetHashes = true ∧ wellKeyedItems run.envSnapshot = true
  results : ∀ id, ∀ t ∈ s.tasksOf id, ∀ d, t.result = some d → wellKeyedItems d = true

/-! ## Comparability -/

section Issues

variable {pf : Platform} {a b : PyVal}

/-- What an issue says, its text apart, and the same with the two runs swapped. -/
def Comparator.ComparabilityIssue.fact (i : ComparabilityIssue) :
    Severity × String × PyVal × PyVal :=
  (i.severity, i.field, i.baselineValue, i.compareValue)

def Comparator.ComparabilityIssue.swappedFact (i : ComparabilityIssue) :
    Severity × String × PyVal × PyVal :=
  (i.severity, i.field, i.compareValue, i.baselineValue)

theorem get_wellKeyed {d : Dict} (h : wellKeyedItems d = true) (k : String) :
    (d.get k).wellKeyed = true := by
  unfold Dict.get
  cases hg : d.get? k with
  | none => rfl
  | some v => exact values_of_wellKeyed h _ (Dict.mem_of_get? hg)

theorem warnDifferent_swapped {field : String} {message : PyVal → PyVal → String}
    (ha : a.wellKeyed = true) (hb : b.wellKeyed = true) :
    (warnDifferent field message a b).map (·.fact) =
      (warnDifferent field message b a).map (·.swappedFact) := by
  unfold warnDifferent
  rw [PyVal.eq_symm ha hb, Bool.or_comm a.isNone]
  split
  · rfl
  · rfl

theorem datasetHashesIssue_swapped {a b : Dict} (ha : wellKeyedItems a = true)
    (hb : wellKeyedItems b = true) :
    (datasetHashesIssue pf a b).map (·.fact) = (datasetHashesIssue pf b a).map (·.swappedFact) := by
  have hsame : hashesDiffer a b = hashesDiffer b a := by
    unfold hashesDiffer
    rw [@PyVal.eq_symm (.dict a) (.dict b) ha hb, Bool.and_comm (!a.isEmpty)]
  unfold datasetHashesIssue
  rw [hsame]
  split
  · rfl
  · rfl

theorem checkComparability_swapped {a b : RunRecord}
    (ha : wellKeyedItems a.config = true ∧ wellKeyedItems a.datasetHashes = true ∧
      wellKeyedItems a.envSnapshot = true)
    (hb : wellKeyedItems b.config = true ∧ wellKeyedItems b.datasetHashes = true ∧
      wellKeyedItems b.envSnapshot = true) :
    (checkComparability pf a b).map (·.fact) =
      (checkComparability pf b a).map (·.swappedFact) := by
  obtain ⟨hac, had, hae⟩ := ha
  obtain ⟨hbc, hbd, hbe⟩ := hb
  unfold checkComparability
  simp only [List.map_append, List.map_flatMap]
  rw [datasetHashesIssue_swapped had hbd, seedIssue, commitIssue,
    warnDifferent_swapped (get_wellKeyed hac _) (get_wellKeyed hbc _),
    warnDifferent_swapped (get_wellKeyed hae _) (get_wellKeyed hbe _)]
  congr 1
  apply List.flatMap_congr
  intro key _
  exact warnDifferent_swapped (get_wellKeyed hac _) (get_wellKeyed hbc _)

end Issues

/-! ## Metrics -/

section Deltas

variable {pf : Platform} {base r : Option Dict} {a b : RunId}

theorem metricsOf_keys (h : ∀ d, r = some d → wellKeyedItems d = true) :
    (metricsOf r).Pairwise fun p q => p.1.eq q.1 = false := by
  cases r with
  | none => exact .nil
  | some d =>
    apply List.Pairwise.filterMap _ _ (keys_of_wellKeyed (h d rfl))
    intro p q hpq m hm m' hm'
    obtain ⟨x, -, rfl⟩ := Option.map_eq_some_iff.mp hm
    obtain ⟨y, -, rfl⟩ := Option.map_eq_some_iff.mp hm'
    exact hpq

/-- There is a delta of a run on a metric, under some spelling of its key. -/
def HasDelta (deltas : List (PyKey × RunId × ℚ)) (id : RunId) (k : PyKey) (q : ℚ) : Prop :=
  ∃ k', k.eq k' = true ∧ (k', id, q) ∈ deltas

/-- The other run's result against this one's gives the delta turned round. -/
theorem HasDelta.swap (hbase : ∀ d, base = some d → wellKeyedItems d = true) {k : PyKey} {q : ℚ}
    (h : HasDelta (pairDeltas pf base r b) b k q) :
    HasDelta (pairDeltas pf r base a) a k (-q) := by
  obtain ⟨k₁, hk, h⟩ := h
  obtain ⟨-, hin, hinBase, hwall, x, m, hx, hfind, hq⟩ := mem_pairDeltas.mp h
  have hm : m ∈ metricsOf r := List.mem_of_find?_eq_some hfind
  have hkm : k₁.eq m.1 = true := by simpa using List.find?_some hfind
  refine ⟨m.1, PyKey.eq_trans hk hkm, mem_pairDeltas.mpr ⟨rfl, hinBase, hin, ?_, m.2, (k₁, x), hm,
    ?_, ?_⟩⟩
  · intro hmw
    have hmw : m.1 = .str "wall_seconds" := hmw
    rw [hmw, PyKey.eq_symm, PyKey.eq_str] at hkm
    exact hwall (of_decide_eq_true hkm)
  · apply find_of_eq (metricsOf_keys hbase) hx
    rw [PyKey.eq_symm]
    exact hkm
  · have hq : q = m.2 - x := hq
    show -q = x - m.2
    rw [hq, neg_sub]

end Deltas

/-! ## The reports -/

/-- What the reports on `[a, b]` and on `[b, a]` have in common. -/
structure Mirrored (a b : RunId) (rep rep' : ComparisonReport) : Prop where
  keys : rep.taskComparisons.map (·.taskKey) = rep'.taskComparisons.map (·.taskKey)
  excluded : ∀ id key, (∃ e ∈ rep.excludedTasks, e.1 = id ∧ key ∈ e.2) ↔
    ∃ e ∈ rep'.excludedTasks, e.1 = id ∧ key ∈ e.2
  regressions : rep.regressions = rep'.improvements
  improvements : rep.improvements = rep'.regressions
  deltas : ∀ c ∈ rep.taskComparisons, ∀ c' ∈ rep'.taskComparisons, c.taskKey = c'.taskKey →
    ∀ k q, HasDelta c.metricDeltas b k q ↔ HasDelta c'.metricDeltas a k (-q)
  issues : rep.comparabilityIssues.map (·.fact) = rep'.comparabilityIssues.map (·.swappedFact)

section

variable {pf : Platform} {s : StateStore} {thresholds : List (String × PyFloat)} {a b : RunId}

theorem keysOf_swapped (s : StateStore) (a b : RunId) : keysOf s [a, b] = keysOf s [b, a] := by
  have hperm : (((([a, b].flatMap s.tasksOf).map (·.taskKey)).dedup)).Perm
      ((([b, a].flatMap s.tasksOf).map (·.taskKey)).dedup) := by
    apply List.Perm.dedup
    apply List.Perm.map
    simp only [List.flatMap_cons, List.flatMap_nil, List.append_nil]
    exact List.perm_append_comm
  have hsorted : ∀ ids, (keysOf s ids).Pairwise (· ≤ ·) := fun ids =>
    List.pairwise_insertionSort (· ≤ ·) _
  apply List.Perm.eq_of_pairwise _ (hsorted [a, b]) (hsorted [b, a])
  · exact ((List.perm_insertionSort (· ≤ ·) _).trans hperm).trans
      (List.perm_insertionSort (· ≤ ·) _).symm
  · intro key key' _ _ hle hge
    exact String.le_antisymm hle hge

theorem statusRegressed_swapped (left right : String) :
    statusRegressed left [right] = statusImproved right [left] := by
  unfold statusRegressed statusImproved
  simp only [List.any_cons, List.any_nil, Bool.or_false]
  exact Bool.and_comm _ _

theorem comparisonOf_pair_deltas (taskAt : RunId → Option TaskRecord) (key : String) :
    (comparisonOf pf thresholds a [b] taskAt key).metricDeltas =
      pairDeltas pf (resultAt taskAt a) (resultAt taskAt b) b :=
  List.flatMap_singleton _ b

theorem WellKeyed.resultAt (h : WellKeyed s) (key : String) (id : RunId) :
    ∀ d, Comparator.resultAt (taskOf s key) id = some d → wellKeyedItems d = true := by
  intro d hd
  obtain ⟨t, ht, hres⟩ := Option.bind_eq_some_iff.mp hd
  exact h.results id t (List.mem_reverse.mp (List.mem_of_find?_eq_some ht)) d hres

theorem WellKeyed.pairIssues (h : WellKeyed s) (a b : RunId) :
    (Comparator.pairIssues pf s a b).map (·.fact) =
      (Comparator.pairIssues pf s b a).map (·.swappedFact) := by
  unfold Comparator.pairIssues
  cases ha : s.run? a with
  | none =>
    cases s.run? b with
    | none => rfl
    | some rb => rfl
  | some ra =>
    cases hb : s.run? b with
    | none => rfl
    | some rb => exact checkComparability_swapped (h.runs a ra ha) (h.runs b rb hb)

theorem WellKeyed.clash (h : WellKeyed s) : Clash pf s a [b] ↔ Clash pf s b [a] := by
  have hone : ∀ {a b}, Clash pf s a [b] → Clash pf s b [a] := by
    rintro a b ⟨id, hid, issue, hissue, hs⟩
    obtain rfl := List.mem_singleton.mp hid
    have hfact : issue.fact ∈ (Comparator.pairIssues pf s id a).map (·.swappedFact) := by
      rw [← h.pairIssues]
      exact List.mem_map_of_mem hissue
    obtain ⟨issue', hissue', heq⟩ := List.mem_map.mp hfact
    refine ⟨a, List.mem_singleton.mpr rfl, issue', hissue', ?_⟩
    have hseverity : issue'.severity = issue.severity := congrArg (·.1) heq
    rw [hseverity, hs]
  exact ⟨hone, hone⟩

/-- **The summaries.** -/
theorem summary_mirrored (h : WellKeyed s) (a b : RunId) :
    Mirrored a b (summary pf thresholds s a [b]) (summary pf thresholds s b [a]) := by
  have hswap : ∀ id, id ∈ [a, b] ↔ id ∈ [b, a] := by
    intro id
    simp only [List.mem_cons, List.not_mem_nil, or_false]
    exact or_comm
  constructor
  · show List.map _ (List.map _ _) = List.map _ (List.map _ _)
    rw [List.map_map, List.map_map]
    exact (List.map_id _).trans ((keysOf_swapped s a b).trans (List.map_id _).symm)
  · intro id key
    rw [mem_excludedTasks, mem_excludedTasks, hswap, keysOf_swapped]
  · rw [improvements_eq]
    show List.filter _ _ = _
    rw [keysOf_swapped]
    apply List.filter_congr
    intro key _
    exact statusRegressed_swapped _ _
  · rw [improvements_eq]
    show _ = List.filter _ _
    rw [keysOf_swapped]
    apply List.filter_congr
    intro key _
    exact (statusRegressed_swapped _ _).symm
  · intro c hc c' hc' hkey k q
    rw [(mem_comparisons.mp hc).2, (mem_comparisons.mp hc').2, hkey, comparisonOf_pair_deltas,
      comparisonOf_pair_deltas]
    constructor
    · exact HasDelta.swap (h.resultAt _ a)
    · intro hdelta
      rw [← neg_neg q]
      exact hdelta.swap (h.resultAt _ b)
  · show (List.flatMap _ [b]).map _ = (List.flatMap _ [a]).map _
    rw [List.flatMap_singleton, List.flatMap_singleton]
    exact h.pairIssues a b

end

/-- **Swapping baseline and candidate.** Both orders give a report or neither does, both are
refused as not comparable or neither is, and the reports mirror each other. -/
theorem comparison_swapped {pf : Platform} {env : Nat → Answers} {n : Nat} {s : StateStore}
    {thresholds : Option (List (String × PyFloat))} {a b : RunId} (hkeys : WellKeyed s) :
    (∀ strict, (∃ rep, compared pf env n s thresholds strict [a, b] = .ok rep) ↔
      ∃ rep, compared pf env n s thresholds strict [b, a] = .ok rep) ∧
    (∀ strict, RefusedBy (compared pf env n s thresholds strict [a, b]) ↔
      RefusedBy (compared pf env n s thresholds strict [b, a])) ∧
    ∀ strict rep rep', compared pf env n s thresholds strict [a, b] = .ok rep →
      compared pf env n s thresholds strict [b, a] = .ok rep' → Mirrored a b rep rep' := by
  have hone : ∀ id, [id] ≠ ([] : List RunId) := fun id => List.cons_ne_nil id []
  have hall : ∀ P : RunId → Prop, (∀ id ∈ [a, b], P id) ↔ ∀ id ∈ [b, a], P id := by
    intro P
    simp only [List.forall_mem_cons]
    exact and_left_comm
  constructor
  · intro strict
    rw [compared_ok_iff (hone b), compared_ok_iff (hone a), hall, hkeys.clash]
  constructor
  · intro strict
    rw [refused_iff (hone b), refused_iff (hone a), hall, hkeys.clash]
  · intro strict rep rep' hrep hrep'
    obtain rfl := (reported_of_compared hrep).eq
    obtain rfl := (reported_of_compared hrep').eq
    exact summary_mirrored hkeys a b

theorem threeRuns_wellKeyed : WellKeyed threeRuns := by
  constructor
  · intro id run hrun
    have hall : ∀ run ∈ threeRuns.tables.runs.rows, wellKeyedItems run.config = true ∧
        wellKeyedItems run.datasetHashes = true ∧ wellKeyedItems run.envSnapshot = true := by
      decide
    exact hall run (Table.find?_eq_some_iff.mp hrun).1
  · intro id t ht d hd
    have hall : ∀ t ∈ threeRuns.tables.tasks.rows, wellKeyedItems (t.result.getD []) = true := by
      decide
    have hkeyed := hall t (Table.find?_eq_some_iff.mp (threeRuns.mem_tasksOf.mp ht).1).1
    rwa [hd] at hkeyed

/-- The baseline and the run whose task has failed, both ways. -/
theorem threeRuns_swapped : ∃ rep rep', comparingThree ["b", "x"] = .ok rep ∧
    comparingThree ["x", "b"] = .ok rep' ∧ rep.regressions = ["k"] ∧ Mirrored "b" "x" rep rep' := by
  have hreg : (comparingThree ["b", "x"]).toOption.any (·.regressions = ["k"]) = true := by
    decide +kernel
  obtain ⟨hreports, -, hmirror⟩ := @comparison_swapped .bare
    (fun _ => Answers.steady 0 (.ok .none)) 0 threeRuns none "b" "x" threeRuns_wellKeyed
  cases hrep : comparingThree ["b", "x"] with
  | error e =>
    rw [hrep] at hreg
    cases hreg
  | ok rep =>
    rw [hrep] at hreg
    obtain ⟨rep', hrep'⟩ := (hreports true).mp ⟨rep, hrep⟩
    exact ⟨rep, rep', rfl, hrep', of_decide_eq_true hreg, hmirror true rep rep' hrep hrep'⟩

end FineTuneHarness
