import FineTuneHarness.Evaluation.Comparator

/-!
# The comparison of one task

Where no look at a result raises, a comparison is put together run by run: what it says of
a run depends on the results of that run and of the baseline.
-/
namespace FineTuneHarness

open Library Library.Program

/-- An exception of two parts is one of the first, or of the second after the first. -/
theorem Except.bind_error {ε α β : Type} {x : Except ε α} {f : α → Except ε β} {e : ε}
    (h : (x >>= f) = .error e) : x = .error e ∨ ∃ a, x = .ok a ∧ f a = .error e := by
  cases x with
  | error e' => exact .inl (congrArg Except.error (Except.error.inj h))
  | ok a => exact .inr ⟨a, rfl, h⟩

/-! ## What the validator raises -/

/-- Whatever is raised is no `ComparabilityError`. -/
def Unrelated {α : Type} (x : Except PyExc α) : Prop :=
  ∀ e, x = .error e → e.cls ≠ "ComparabilityError"

theorem unrelated_ok {α : Type} (a : α) : Unrelated (.ok a : Except PyExc α) := by
  intro e h
  cases h

theorem Unrelated.bind {α β : Type} {x : Except PyExc α} {f : α → Except PyExc β}
    (hx : Unrelated x) (hf : ∀ a, Unrelated (f a)) : Unrelated (x >>= f) := by
  intro e h
  rcases Except.bind_error h with h | ⟨a, -, h⟩
  · exact hx e h
  · exact hf a e h

theorem Unrelated.ite {α : Type} {p : Prop} [Decidable p] {x y : Except PyExc α}
    (hx : Unrelated x) (hy : Unrelated y) : Unrelated (if p then x else y) := by
  split
  · exact hx
  · exact hy

theorem unrelated_toFloat? {v : PyVal} {f : Except PyExc PyFloat} (h : v.toFloat? = some f) :
    Unrelated f := by
  intro e he
  subst he
  unfold PyVal.toFloat? at h
  split at h
  · cases h
  · split at h
    · cases h
    · obtain rfl := Except.error.inj (Option.some.inj h)
      decide
  · cases h
  · cases h

theorem unrelated_truth (v : PyVal) : Unrelated v.truth := by
  intro e he
  unfold PyVal.truth at he
  split at he
  all_goals cases he
  show "ValueError" ≠ "ComparabilityError"
  decide

namespace Validator

theorem unrelated_pyOr (a b : PyVal) : Unrelated (pyOr a b) := by
  apply (unrelated_truth a).bind
  intro t
  cases t
  · exact unrelated_ok b
  · exact unrelated_ok a

theorem unrelated_metricErrors (pf : Platform) (d : Dict) : Unrelated (metricErrors pf d) := by
  induction d with
  | nil => exact unrelated_ok []
  | cons kv d ih =>
    rw [metricErrors]
    split
    · exact ih
    next f hf =>
      apply (unrelated_toFloat? hf).bind
      intro v
      apply ih.bind
      intro rest
      exact unrelated_ok _

theorem unrelated_floatsOf (d : Dict) (ks : List String) : Unrelated (floatsOf d ks) := by
  induction ks with
  | nil => exact unrelated_ok []
  | cons k ks ih =>
    rw [floatsOf]
    split
    · exact ih
    next f hf =>
      obtain ⟨v, -, hv⟩ := Option.bind_eq_some_iff.mp hf
      apply (unrelated_toFloat? hv).bind
      intro v
      apply ih.bind
      intro rest
      exact unrelated_ok _

theorem unrelated_isAdapterMethod (v : PyVal) : Unrelated (isAdapterMethod v) := by
  intro e he
  unfold isAdapterMethod at he
  split at he
  · cases he
  · cases he
  · obtain rfl := Except.error.inj he
    show "AttributeError" ≠ "ComparabilityError"
    decide

theorem unrelated_degeneracyReasons (pf : Platform) (method : PyVal) (d : Dict) :
    Unrelated (degeneracyReasons pf method d) := by
  apply (unrelated_isAdapterMethod method).bind
  intro isAdapter
  apply (unrelated_floatsOf d boundedMetrics).bind
  intro bounded
  apply Unrelated.ite
  · apply (unrelated_truth _).bind
    intro expected
    exact .ite (unrelated_ok _) (unrelated_ok _)
  · exact unrelated_ok _

theorem unrelated_poorPerformance (d : Dict) : Unrelated (poorPerformance d) := by
  apply (unrelated_floatsOf d _).bind
  intro values
  split
  · exact unrelated_ok _
  · exact unrelated_ok _

theorem unrelated_validateDict (pf : Platform) (d : Dict) (method : PyVal) :
    Unrelated (validateDict pf d method) := by
  apply (unrelated_truth _).bind
  intro caught
  apply Unrelated.bind (unrelated_pyOr method _ |>.bind fun m => unrelated_pyOr m _)
  intro method
  apply (unrelated_metricErrors pf d).bind
  intro metrics
  apply (unrelated_degeneracyReasons pf method d).bind
  intro reasons
  apply (unrelated_poorPerformance d).bind
  intro poor
  exact unrelated_ok _

end Validator

namespace Comparator

/-! ## One result -/

section Result

variable {pf : Platform} {d : Dict} {r : Option Dict}

/-- The second look at the result does not raise. -/
def Judged (pf : Platform) (r : Option Dict) : Prop :=
  ∃ verdict, resultIsValidForComparison pf r = .ok verdict

/-- Why a result is left out of the metrics. -/
def exclusionReason (pf : Platform) (r : Option Dict) : Option String :=
  if r.isSome then
    ((resultIsValidForComparison pf r).toOption.filter fun verdict => !verdict.1).map (·.2)
  else none

/-- The finite number that `float()` gives. -/
def finite? (v : PyVal) : Option ℚ :=
  match v.toFloat? with
  | some (.ok (.finite q)) => some q
  | _ => none

def metricsOf (r : Option Dict) : List (PyKey × ℚ) :=
  (r.getD []).filterMap fun kv => (finite? kv.2).map fun q => (kv.1, q)

def wallOf (r : Option Dict) : Option PyFloat :=
  ((r.bind (Dict.get? · "wall_seconds")).bind PyVal.toFloat?).bind (·.toOption)

theorem judged_none : Judged pf none := ⟨_, rfl⟩

theorem unrelated_resultIsValid (pf : Platform) (r : Option Dict) :
    Unrelated (resultIsValidForComparison pf r) := by
  cases r with
  | none => exact unrelated_ok _
  | some d =>
    apply (Validator.unrelated_validateDict pf d .none).bind
    intro outcome
    exact .ite (unrelated_ok _) (unrelated_ok _)

/-- No number of a dictionary that passes the metric loop is too large for `float()`. -/
theorem toFloat_ok_of_metricErrors {errors : List String}
    (h : Validator.metricErrors pf d = .ok errors) :
    ∀ kv ∈ d, ∀ f, kv.2.toFloat? = some f → ∃ x, f = .ok x := by
  induction d generalizing errors with
  | nil => simp
  | cons kv d ih =>
    rw [Validator.metricErrors] at h
    intro kv' hkv' f hf
    split at h
    next hnone =>
      rcases List.mem_cons.mp hkv' with rfl | hkv'
      · rw [hnone] at hf
        cases hf
      · exact ih h kv' hkv' f hf
    next f' hf' =>
      obtain ⟨x, hx, h⟩ := Except.bind_ok h
      obtain ⟨rest, hrest, -⟩ := Except.bind_ok h
      rcases List.mem_cons.mp hkv' with rfl | hkv'
      · rw [hf'] at hf
        exact ⟨x, (Option.some.inj hf) ▸ hx⟩
      · exact ih hrest kv' hkv' f hf

theorem Judged.toFloat_ok (h : Judged pf (some d)) :
    ∀ kv ∈ d, ∀ f, kv.2.toFloat? = some f → ∃ x, f = .ok x := by
  obtain ⟨verdict, h⟩ := h
  obtain ⟨outcome, h, -⟩ := Except.bind_ok h
  obtain ⟨caught, -, h⟩ := Except.bind_ok (show Validator.validateDict pf d .none = _ from h)
  obtain ⟨method, -, h⟩ := Except.bind_ok h
  obtain ⟨errors, hmetrics, -⟩ := Except.bind_ok h
  exact toFloat_ok_of_metricErrors hmetrics

theorem finiteMetrics_eq (h : ∀ kv ∈ d, ∀ f, kv.2.toFloat? = some f → ∃ x, f = .ok x) :
    finiteMetrics d = .ok (metricsOf (some d)) := by
  induction d with
  | nil => rfl
  | cons kv d ih =>
    have ih := ih fun kv' hkv' => h kv' (List.mem_cons_of_mem _ hkv')
    have hcons : metricsOf (some (kv :: d)) =
        ((finite? kv.2).map fun q => (kv.1, q)).toList ++ metricsOf (some d) := by
      simp only [metricsOf, Option.getD_some, List.filterMap_cons]
      cases finite? kv.2 <;> rfl
    rw [finiteMetrics, hcons, finite?]
    cases hf : kv.2.toFloat? with
    | none => exact ih
    | some f =>
      obtain ⟨x, rfl⟩ := h kv List.mem_cons_self f hf
      cases x with
      | finite q =>
        change (finiteMetrics d >>= fun rest => pure ((kv.1, q) :: rest)) = _
        rw [ih]
        rfl
      | inf n => exact ih
      | nan => exact ih

theorem Judged.numericMetrics (h : Judged pf r) : numericMetrics r = .ok (metricsOf r) := by
  cases r with
  | none => rfl
  | some d => exact finiteMetrics_eq h.toFloat_ok

theorem Judged.wallSecondsOf (h : Judged pf r) : wallSecondsOf r = .ok (wallOf r) := by
  unfold Comparator.wallSecondsOf wallOf
  cases hf : (r.bind (Dict.get? · "wall_seconds")).bind PyVal.toFloat? with
  | none => rfl
  | some f =>
    obtain ⟨v, hv, hfv⟩ := Option.bind_eq_some_iff.mp hf
    obtain ⟨d, rfl, hd⟩ := Option.bind_eq_some_iff.mp hv
    obtain ⟨x, rfl⟩ := h.toFloat_ok _ (Dict.mem_of_get? hd) f hfv
    rfl

end Result

/-! ## One task -/

section Task

variable {pf : Platform} {resultOf : RunId → Option Dict}

def excludedOf (pf : Platform) (resultOf : RunId → Option Dict) (ids : List RunId) :
    List (RunId × String) :=
  ids.filterMap fun id => (exclusionReason pf (resultOf id)).map fun reason => (id, reason)

/-- The runs are excluded one by one, each for its own result. -/
theorem exclusions_eq {ids : List RunId} (h : ∀ id ∈ ids, Judged pf (resultOf id)) :
    exclusions pf resultOf ids = .ok (excludedOf pf resultOf ids) := by
  induction ids with
  | nil => rfl
  | cons id ids ih =>
    obtain ⟨verdict, hv⟩ := h id List.mem_cons_self
    have ih := ih fun id' hid' => h id' (List.mem_cons_of_mem _ hid')
    rw [exclusions, hv, ih, excludedOf, excludedOf, List.filterMap_cons, exclusionReason, hv]
    obtain ⟨valid, reason⟩ := verdict
    cases valid with
    | true => cases (resultOf id).isSome <;> rfl
    | false => cases (resultOf id).isSome <;> rfl

theorem judged_of_exclusions {ids : List RunId} {excluded : List (RunId × String)}
    (h : exclusions pf resultOf ids = .ok excluded) : ∀ id ∈ ids, Judged pf (resultOf id) := by
  induction ids generalizing excluded with
  | nil => simp
  | cons id ids ih =>
    obtain ⟨verdict, hv, h⟩ := Except.bind_ok h
    obtain ⟨rest, hrest, -⟩ := Except.bind_ok h
    intro id' hid'
    rcases List.mem_cons.mp hid' with rfl | hid'
    · exact ⟨verdict, hv⟩
    · exact ih hrest id' hid'

theorem unrelated_exclusions (ids : List RunId) : Unrelated (exclusions pf resultOf ids) := by
  induction ids with
  | nil => exact unrelated_ok []
  | cons id ids ih =>
    apply (unrelated_resultIsValid pf (resultOf id)).bind
    intro verdict
    apply ih.bind
    intro rest
    split
    · exact unrelated_ok _
    · exact unrelated_ok _

theorem mem_excludedOf {ids : List RunId} {e : RunId × String} :
    e ∈ excludedOf pf resultOf ids ↔
      e.1 ∈ ids ∧ exclusionReason pf (resultOf e.1) = some e.2 := by
  constructor
  · intro h
    obtain ⟨id, hid, h⟩ := List.mem_filterMap.mp h
    obtain ⟨reason, hreason, rfl⟩ := Option.map_eq_some_iff.mp h
    exact ⟨hid, hreason⟩
  · rintro ⟨hid, hreason⟩
    apply List.mem_filterMap.mpr
    exact ⟨e.1, hid, by rw [hreason]; rfl⟩

theorem isExcluded_excludedOf {ids : List RunId} {id : RunId} (hid : id ∈ ids) :
    isExcluded (excludedOf pf resultOf ids) id = (exclusionReason pf (resultOf id)).isSome := by
  apply Bool.eq_iff_iff.mpr
  rw [isExcluded, List.any_eq_true, Option.isSome_iff_exists]
  constructor
  · rintro ⟨e, he, heq⟩
    obtain rfl := of_decide_eq_true heq
    exact ⟨e.2, (mem_excludedOf.mp he).2⟩
  · rintro ⟨reason, hreason⟩
    exact ⟨(id, reason), mem_excludedOf.mpr ⟨hid, hreason⟩, decide_eq_true rfl⟩

/-- The deltas of a run whose result is `r` against a baseline whose result is `base`. -/
def pairDeltas (pf : Platform) (base r : Option Dict) (id : RunId) : List (PyKey × RunId × ℚ) :=
  if (exclusionReason pf r).isSome || (exclusionReason pf base).isSome then []
  else runDeltas (metricsOf base) (metricsOf r) id

theorem mem_pairDeltas {base r : Option Dict} {id : RunId} {e : PyKey × RunId × ℚ} :
    e ∈ pairDeltas pf base r id ↔ e.2.1 = id ∧ (exclusionReason pf r).isSome = false ∧
      (exclusionReason pf base).isSome = false ∧ e.1 ≠ .str "wall_seconds" ∧
      ∃ q m, (e.1, q) ∈ metricsOf base ∧ (metricsOf r).find? (fun m => e.1.eq m.1) = some m ∧
        e.2.2 = m.2 - q := by
  unfold pairDeltas
  split
  next hout =>
    refine iff_of_false (by simp) fun h => ?_
    rw [h.2.1, h.2.2.1] at hout
    cases hout
  next hin =>
    simp only [Bool.or_eq_true, not_or, Bool.not_eq_true] at hin
    constructor
    · intro h
      obtain ⟨⟨key, q⟩, hm, h⟩ := List.mem_filterMap.mp h
      dsimp only at h
      split at h
      · cases h
      next hkey =>
        obtain ⟨m, hfind, rfl⟩ := Option.map_eq_some_iff.mp h
        exact ⟨rfl, hin.1, hin.2, hkey, q, m, hm, hfind, rfl⟩
    · rintro ⟨hid, -, -, hkey, q, m, hm, hfind, hq⟩
      apply List.mem_filterMap.mpr
      refine ⟨(e.1, q), hm, ?_⟩
      show (if e.1 = _ then none else (List.find? _ _).map _) = some e
      rw [if_neg hkey, hfind, ← hid, Option.map_some, ← hq]

theorem metricDeltasOf_eq {ids later : List RunId} {baselineId : RunId}
    {baseline : List (PyKey × ℚ)} (hsub : ∀ id ∈ later, id ∈ baselineId :: ids)
    (hj : ∀ id ∈ later, Judged pf (resultOf id))
    (hbase : (exclusionReason pf (resultOf baselineId)).isSome = false →
      baseline = metricsOf (resultOf baselineId)) :
    metricDeltasOf resultOf (excludedOf pf resultOf (baselineId :: ids)) baselineId baseline later =
      .ok (later.flatMap fun id => pairDeltas pf (resultOf baselineId) (resultOf id) id) := by
  induction later with
  | nil => rfl
  | cons id later ih =>
    have ih := ih (fun id' hid' => hsub id' (List.mem_cons_of_mem _ hid'))
      fun id' hid' => hj id' (List.mem_cons_of_mem _ hid')
    rw [metricDeltasOf, isExcluded_excludedOf (hsub id List.mem_cons_self),
      isExcluded_excludedOf List.mem_cons_self, List.flatMap_cons, pairDeltas]
    split
    next hout => exact ih
    next hin =>
      have hin : (exclusionReason pf (resultOf baselineId)).isSome = false := by
        simp only [Bool.or_eq_true, not_or, Bool.not_eq_true] at hin
        exact hin.2
      rw [(hj id List.mem_cons_self).numericMetrics, ih, hbase hin]
      rfl

theorem wallSecondsByRun_eq {ids : List RunId} (h : ∀ id ∈ ids, Judged pf (resultOf id)) :
    wallSecondsByRun resultOf ids = .ok (ids.map fun id => (id, wallOf (resultOf id))) := by
  induction ids with
  | nil => rfl
  | cons id ids ih =>
    rw [wallSecondsByRun, (h id List.mem_cons_self).wallSecondsOf,
      ih fun id' hid' => h id' (List.mem_cons_of_mem _ hid')]
    rfl

variable {thresholds : List (String × PyFloat)} {baselineId : RunId} {later : List RunId}
  {taskAt : RunId → Option TaskRecord} {key : String}

def resultAt (taskAt : RunId → Option TaskRecord) (id : RunId) : Option Dict :=
  (taskAt id).bind (·.result)

/-- The comparison of one task, where no look at a result raises. -/
def comparisonOf (pf : Platform) (thresholds : List (String × PyFloat)) (baselineId : RunId)
    (later : List RunId) (taskAt : RunId → Option TaskRecord) (key : String) : TaskComparison :=
  let runIds := baselineId :: later
  let deltas := later.flatMap fun id =>
    pairDeltas pf (resultAt taskAt baselineId) (resultAt taskAt id) id
  let regressions := deltas.filter fun e => isMetricRegression e.1 e.2.2 thresholds
  let baselineStatus := statusText (taskAt baselineId)
  let laterStatuses := later.map fun id => statusText (taskAt id)
  { taskKey := key
    statusByRun := runIds.map fun id => (id, statusText (taskAt id))
    resultByRun := runIds.map fun id => (id, resultAt taskAt id)
    metricDeltas := deltas
    wallSecondsByRun := runIds.map fun id => (id, wallOf (resultAt taskAt id))
    isRegression := statusRegressed baselineStatus laterStatuses || !regressions.isEmpty
    isImprovement := statusImproved baselineStatus laterStatuses
    metricRegressions := regressions
    excludedFromMetrics := excludedOf pf (resultAt taskAt) runIds }

theorem compareTask_eq (h : ∀ id ∈ baselineId :: later, Judged pf (resultAt taskAt id)) :
    compareTask pf thresholds baselineId later taskAt key =
      .ok (comparisonOf pf thresholds baselineId later taskAt key) := by
  have hlater : ∀ id ∈ later, Judged pf (resultAt taskAt id) :=
    fun id hid => h id (List.mem_cons_of_mem _ hid)
  have hsub : ∀ id ∈ later, id ∈ baselineId :: later := fun id hid => List.mem_cons_of_mem _ hid
  have hexcluded : isExcluded (excludedOf pf (resultAt taskAt) (baselineId :: later)) baselineId =
      (exclusionReason pf (resultAt taskAt baselineId)).isSome :=
    isExcluded_excludedOf List.mem_cons_self
  have hwalls := wallSecondsByRun_eq h
  unfold compareTask
  change (exclusions pf (resultAt taskAt) (baselineId :: later) >>= _) = _
  rw [exclusions_eq h]
  change (if isExcluded (excludedOf pf (resultAt taskAt) (baselineId :: later)) baselineId then _
    else _) = _
  rw [hexcluded]
  split
  next hout =>
    change (metricDeltasOf (resultAt taskAt) (excludedOf pf (resultAt taskAt) (baselineId :: later))
      baselineId [] later >>= fun deltas =>
        wallSecondsByRun (resultAt taskAt) (baselineId :: later) >>= _) = _
    rw [metricDeltasOf_eq hsub hlater fun hin => absurd hout (by simp [hin]), hwalls]
    rfl
  next hin =>
    change (numericMetrics (resultAt taskAt baselineId) >>= _) = _
    rw [(h baselineId List.mem_cons_self).numericMetrics]
    change (metricDeltasOf (resultAt taskAt) (excludedOf pf (resultAt taskAt) (baselineId :: later))
      baselineId _ later >>= fun deltas =>
        wallSecondsByRun (resultAt taskAt) (baselineId :: later) >>= _) = _
    rw [metricDeltasOf_eq hsub hlater fun _ => rfl, hwalls]
    rfl

theorem compareTask_error {e : PyExc}
    (h : compareTask pf thresholds baselineId later taskAt key = .error e) :
    exclusions pf (resultAt taskAt) (baselineId :: later) = .error e := by
  cases hex : exclusions pf (resultAt taskAt) (baselineId :: later) with
  | ok excluded =>
    rw [compareTask_eq (judged_of_exclusions hex)] at h
    cases h
  | error e' =>
    unfold compareTask at h
    change (exclusions pf (resultAt taskAt) (baselineId :: later) >>= _) = _ at h
    rw [hex] at h
    exact congrArg Except.error (Except.error.inj h)

theorem compareTasks_judged {taskAt : String → RunId → Option TaskRecord} {keys : List String}
    {cs : List TaskComparison}
    (h : compareTasks pf thresholds baselineId later taskAt keys = .ok cs) :
    ∀ key ∈ keys, ∀ id ∈ baselineId :: later, Judged pf (resultAt (taskAt key) id) := by
  induction keys generalizing cs with
  | nil => simp
  | cons key keys ih =>
    obtain ⟨c, hc, h⟩ := Except.bind_ok h
    obtain ⟨rest, hrest, -⟩ := Except.bind_ok h
    obtain ⟨excluded, hex, -⟩ := Except.bind_ok hc
    intro key' hkey'
    rcases List.mem_cons.mp hkey' with rfl | hkey'
    · exact judged_of_exclusions hex
    · exact ih hrest key' hkey'

/-- What a comparison says depends on the tasks of the compared runs alone. -/
theorem comparisonOf_congr {taskAt' : RunId → Option TaskRecord}
    (h : ∀ id ∈ baselineId :: later, taskAt id = taskAt' id) :
    comparisonOf pf thresholds baselineId later taskAt key =
      comparisonOf pf thresholds baselineId later taskAt' key := by
  have hbase := h baselineId List.mem_cons_self
  have hlater : ∀ id ∈ later, taskAt id = taskAt' id :=
    fun id hid => h id (List.mem_cons_of_mem _ hid)
  have hresult : ∀ id ∈ baselineId :: later, resultAt taskAt id = resultAt taskAt' id := by
    intro id hid
    rw [resultAt, resultAt, h id hid]
  have hdeltas : (later.flatMap fun id =>
      pairDeltas pf (resultAt taskAt baselineId) (resultAt taskAt id) id) =
      later.flatMap fun id =>
        pairDeltas pf (resultAt taskAt' baselineId) (resultAt taskAt' id) id := by
    apply List.flatMap_congr
    intro id hid
    rw [hresult baselineId List.mem_cons_self, hresult id (List.mem_cons_of_mem _ hid)]
  have hexcluded : excludedOf pf (resultAt taskAt) (baselineId :: later) =
      excludedOf pf (resultAt taskAt') (baselineId :: later) := by
    apply List.filterMap_congr
    intro id hid
    rw [hresult id hid]
  have hstatuses : (later.map fun id => statusText (taskAt id)) =
      later.map fun id => statusText (taskAt' id) := by
    apply List.map_congr_left
    intro id hid
    rw [hlater id hid]
  unfold comparisonOf
  dsimp only
  rw [hdeltas, hexcluded, hstatuses, hbase]
  congr 1
  · exact List.map_congr_left fun id hid => by rw [h id hid]
  · exact List.map_congr_left fun id hid => by rw [hresult id hid]
  · exact List.map_congr_left fun id hid => by rw [hresult id hid]

theorem compareTasks_eq {taskAt : String → RunId → Option TaskRecord} {keys : List String}
    (h : ∀ key ∈ keys, ∀ id ∈ baselineId :: later, Judged pf (resultAt (taskAt key) id)) :
    compareTasks pf thresholds baselineId later taskAt keys =
      .ok (keys.map fun key => comparisonOf pf thresholds baselineId later (taskAt key) key) := by
  induction keys with
  | nil => rfl
  | cons key keys ih =>
    rw [compareTasks, compareTask_eq (h key List.mem_cons_self),
      ih fun key' hkey' => h key' (List.mem_cons_of_mem _ hkey')]
    rfl

theorem compareTasks_error {taskAt : String → RunId → Option TaskRecord} {keys : List String}
    {e : PyExc} (h : compareTasks pf thresholds baselineId later taskAt keys = .error e) :
    ∃ key ∈ keys, exclusions pf (resultAt (taskAt key)) (baselineId :: later) = .error e := by
  induction keys with
  | nil => cases h
  | cons key keys ih =>
    rcases Except.bind_error h with h | ⟨c, -, h⟩
    · exact ⟨key, List.mem_cons_self, compareTask_error h⟩
    · rcases Except.bind_error h with h | ⟨cs, -, h⟩
      · obtain ⟨key', hkey', herr⟩ := ih h
        exact ⟨key', List.mem_cons_of_mem _ hkey', herr⟩
      · cases h

end Task

end Comparator
end FineTuneHarness
