import FineTuneHarness.Evaluation.ComparatorSpec
import FineTuneHarness.Evaluation.Revalidation

/-!
# Which results are accepted

`Accepted` says what the ten checks of `validate_result` ask for, one field each, over numbers as
Python compares them. `float()` takes no integer from 2^1024 on, so a verdict also needs every
top-level integer to be convertible.
-/
namespace FineTuneHarness

/-- The two statuses of a result that may be exported. -/
def ResultStatus.succeeded (s : ResultStatus) : Bool :=
  s ∈ [.succeededValidated, .succeededWithWarnings]

theorem ResultStatus.rejected_of_succeeded {s : ResultStatus} (h : s.succeeded = true) :
    s.rejected = false := by
  cases s with
  | succeededValidated | succeededWithWarnings => decide
  | failedValidation | degenerateResult | failedRuntime => cases h

namespace Validator

variable {pf : Platform} {d d' : Dict} {m : PyVal}

/-- The number under a key, if there is one. -/
def numberAt (d : Dict) (k : String) : Option PyFloat := (d.get? k).bind number?

/-- A string, `None` or absent. -/
def IsName (v : PyVal) : Prop := v = .none ∨ ∃ s, v = .str s

/-- The text of a truthy name. -/
def nonempty? : PyVal → Option String
  | .str s => if s = "" then none else some s
  | _ => none

/-- The first truthy one of the argument, `result["method"]` and `result["technique"]`. -/
def methodName (m : PyVal) (d : Dict) : Option String :=
  [m, d.get "method", d.get "technique"].findSome? nonempty?

/-- That name is, but for its case, one of the adapter methods. -/
def AdapterNamed (m : PyVal) (d : Dict) : Prop :=
  ∃ s, methodName m d = some s ∧ ∃ a ∈ adapterMethods, a.toList = lower s

/-- A number is finite, and in the range its key asks for. -/
def InRange (kv : PyKey × PyVal) : Prop :=
  ∀ x, number? kv.2 = some x → ∃ q, x = .finite q ∧
    (memberOf boundedMetrics kv.1 = true → 0 ≤ q ∧ q ≤ 1) ∧
    (memberOf nonNegativeMetrics kv.1 = true → 0 ≤ q)

/-- No integer is too large for `float()`. -/
def Convertible (d : Dict) : Prop := ∀ kv ∈ d, ∀ i, kv.2 = .int i → i.natAbs < PyVal.floatLimit

/-- What the checks ask of a result. -/
structure Accepted (m : PyVal) (d : Dict) : Prop where
  uncaught : (d.get "caught_exception").truth = .ok false
  inRange : ∀ kv ∈ d, InRange kv
  evaluated : ∀ x, numberAt d "eval_examples" = some x → floatLt (.finite 0) x = true
  predictions : d.get? "predictions_non_empty" ≠ some (.bool false)
  adapter : d.get? "adapter_loaded" ≠ some (.bool false)
  total : ∀ p q, numberAt d "trainable_params" = some p → numberAt d "total_params" = some q →
    floatLt q p = false
  trainable : AdapterNamed m d → numberAt d "trainable_params" ≠ some (.finite 0)
  zeros : (∃ k ∈ boundedMetrics, (numberAt d k).isSome = true) →
    (∀ k ∈ boundedMetrics, ∀ x, numberAt d k = some x → x = .finite 0) →
    (d.get "all_zeros_expected").truth = .ok true

/-! ## Numbers and `float()` -/

theorem toFloat?_of_fits {v : PyVal} (h : ∀ i, v = .int i → i.natAbs < PyVal.floatLimit) :
    v.toFloat? = (number? v).map .ok := by
  cases v with
  | int i =>
    rw [PyVal.toFloat?, if_pos (h i rfl)]
    rfl
  | _ => rfl

theorem fits_of_toFloat? {v : PyVal} (h : ∀ f, v.toFloat? = some f → ∃ x, f = .ok x) :
    ∀ i, v = .int i → i.natAbs < PyVal.floatLimit := by
  rintro i rfl
  by_contra hlarge
  obtain ⟨x, hx⟩ := h _ (show PyVal.toFloat? (.int i) = _ by rw [PyVal.toFloat?, if_neg hlarge])
  cases hx

theorem Convertible.get? (h : Convertible d) {k : String} {v : PyVal} (hv : d.get? k = some v) :
    v.toFloat? = (number? v).map .ok := by
  apply toFloat?_of_fits
  rintro i rfl
  exact h _ (Dict.mem_of_get? hv) i rfl

theorem Convertible.floatsOf (h : Convertible d) (ks : List String) :
    floatsOf d ks = .ok (ks.filterMap (numberAt d)) := by
  induction ks with
  | nil => rfl
  | cons k ks ih =>
    rw [Validator.floatsOf, ih]
    cases hg : d.get? k with
    | none =>
      have hn : numberAt d k = none := by rw [numberAt, hg]; rfl
      rw [List.filterMap_cons_none hn]
      rfl
    | some v =>
      rw [Option.bind_some, h.get? hg]
      cases hx : number? v with
      | none =>
        have hn : numberAt d k = none := by rw [numberAt, hg]; exact hx
        rw [List.filterMap_cons_none hn]
        rfl
      | some x =>
        have hn : numberAt d k = some x := by rw [numberAt, hg]; exact hx
        rw [List.filterMap_cons_some hn]
        rfl

/-! ## The checks, one by one -/

theorem metricError_nil {k : PyKey} {x : PyFloat} :
    metricError pf k x = [] ↔ ∃ q, x = .finite q ∧
      (memberOf boundedMetrics k = true → 0 ≤ q ∧ q ≤ 1) ∧
      (memberOf nonNegativeMetrics k = true → 0 ≤ q) := by
  cases x with
  | nan => simp [metricError]
  | inf n => simp [metricError]
  | finite q =>
    simp only [metricError, PyFloat.finite.injEq, exists_eq_left']
    split
    next hout =>
      rw [Bool.and_eq_true, Bool.not_eq_true'] at hout
      refine iff_of_false (by simp) fun h => ?_
      have hin := h.1 hout.1
      simp [hin] at hout
    next hin =>
      split
      next hneg =>
        rw [Bool.and_eq_true, decide_eq_true_eq] at hneg
        refine iff_of_false (by simp) fun h => ?_
        exact absurd (h.2 hneg.1) (not_le.mpr hneg.2)
      next hpos =>
        refine iff_of_true rfl ⟨fun hb => ?_, fun hn => ?_⟩
        · rw [hb] at hin
          simpa using hin
        · rw [hn] at hpos
          simpa using hpos

/-- **The metric loop** finds nothing wrong. -/
theorem metricErrors_nil_iff :
    metricErrors pf d = .ok [] ↔ Convertible d ∧ ∀ kv ∈ d, InRange kv := by
  constructor
  · intro h
    have hfits : Convertible d := fun kv hkv =>
      fits_of_toFloat? (Comparator.toFloat_ok_of_metricErrors h kv hkv)
    refine ⟨hfits, fun kv hkv x hx => ?_⟩
    have hfloat : kv.2.toFloat? = some (.ok x) := by
      rw [toFloat?_of_fits (hfits kv hkv), hx]
      rfl
    obtain ⟨y, hy, hnil⟩ := metricErrors_nil.mp h kv hkv _ hfloat
    obtain rfl := Except.ok.inj hy
    exact metricError_nil.mp hnil
  · rintro ⟨hfits, hrange⟩
    rw [metricErrors_nil]
    intro kv hkv f hf
    rw [toFloat?_of_fits (hfits kv hkv)] at hf
    obtain ⟨x, hx, rfl⟩ := Option.map_eq_some_iff.mp hf
    exact ⟨x, rfl, metricError_nil.mpr (hrange kv hkv x hx)⟩

theorem not_nan_of_inRange (h : ∀ kv ∈ d, InRange kv) {k : String} {x : PyFloat}
    (hx : numberAt d k = some x) : x ≠ .nan := by
  obtain ⟨v, hv, hn⟩ := Option.bind_eq_some_iff.mp hx
  obtain ⟨q, rfl, -⟩ := h _ (Dict.mem_of_get? hv) x hn
  exact PyFloat.noConfusion

theorem evalExamplesError_nil (hrange : ∀ kv ∈ d, InRange kv) :
    evalExamplesError pf d = [] ↔
      ∀ x, numberAt d "eval_examples" = some x → floatLt (.finite 0) x = true := by
  unfold evalExamplesError
  cases hg : d.get? "eval_examples" with
  | none => simp [numberAt, hg]
  | some n =>
    have hat : numberAt d "eval_examples" = number? n := by rw [numberAt, hg]; rfl
    rw [hat]
    cases hx : number? n with
    | none => simp [isNumber, hx]
    | some x =>
      have hne : x ≠ .nan := not_nan_of_inRange hrange (hat.trans hx)
      simp [isNumber, hx, hne]

theorem missingReasons_nil : missingReasons d = [] ↔
    d.get? "predictions_non_empty" ≠ some (.bool false) ∧
      d.get? "adapter_loaded" ≠ some (.bool false) := by
  have hfalse : ∀ v : Option PyVal, isFalse v = true ↔ v = some (.bool false) := by
    intro v
    unfold isFalse
    split
    next => simp
    next hne => simpa using hne
  rw [missingReasons, List.append_eq_nil_iff, reason_nil, reason_nil, hfalse, hfalse]

theorem totalReasons_nil : totalReasons pf d = [] ↔
    ∀ p q, numberAt d "trainable_params" = some p → numberAt d "total_params" = some q →
      floatLt q p = false := by
  unfold totalReasons numberAt
  cases d.get? "trainable_params" with
  | none => simp
  | some tp =>
    cases d.get? "total_params" with
    | none => simp
    | some tot =>
      show (if _ then [_] else []) = [] ↔ _
      rw [reason_nil]
      simp only [isNumber, Option.bind_some]
      cases number? tp <;> cases number? tot <;> simp

theorem zeroTrainable_iff :
    zeroTrainable d = true ↔ numberAt d "trainable_params" = some (.finite 0) := by
  unfold zeroTrainable numberAt
  cases d.get? "trainable_params" with
  | none => simp
  | some tp =>
    simp only [isNumber, Option.any_some, Option.bind_some]
    cases number? tp <;> simp

theorem zeroReasons_nil (h : Convertible d) : zeroReasons d = .ok [] ↔
    ((∃ k ∈ boundedMetrics, (numberAt d k).isSome = true) →
      (∀ k ∈ boundedMetrics, ∀ x, numberAt d k = some x → x = .finite 0) →
      (d.get "all_zeros_expected").truth = .ok true) := by
  unfold zeroReasons
  rw [h.floatsOf]
  show (if _ then _ else _) = _ ↔ _
  split
  next hz =>
    rw [Bool.and_eq_true, Bool.not_eq_true', List.isEmpty_eq_false_iff, List.all_eq_true] at hz
    have hsome : ∃ k ∈ boundedMetrics, (numberAt d k).isSome = true := by
      obtain ⟨x, hx⟩ := List.exists_mem_of_ne_nil _ hz.1
      obtain ⟨k, hk, hkx⟩ := List.mem_filterMap.mp hx
      exact ⟨k, hk, by rw [hkx]; rfl⟩
    have hall : ∀ k ∈ boundedMetrics, ∀ x, numberAt d k = some x → x = .finite 0 := by
      intro k hk x hx
      exact of_decide_eq_true (hz.2 x (List.mem_filterMap.mpr ⟨k, hk, hx⟩))
    rw [forall_prop_of_true hsome, forall_prop_of_true hall]
    cases (d.get "all_zeros_expected").truth with
    | error e => exact iff_of_false nofun nofun
    | ok b => cases b <;> simp [bind, Except.bind, pure, Except.pure]
  next hz =>
    refine iff_of_true rfl fun hsome hall => absurd ?_ hz
    rw [Bool.and_eq_true, Bool.not_eq_true', List.isEmpty_eq_false_iff, List.all_eq_true]
    obtain ⟨k, hk, hks⟩ := hsome
    obtain ⟨x, hx⟩ := Option.isSome_iff_exists.mp hks
    refine ⟨List.ne_nil_of_mem (List.mem_filterMap.mpr ⟨k, hk, hx⟩), fun y hy => ?_⟩
    obtain ⟨k', hk', hy⟩ := List.mem_filterMap.mp hy
    exact decide_eq_true (hall k' hk' y hy)

/-! ## The method the checks go by -/

theorem pyOr_name {a b : PyVal} (ha : IsName a) (hb : IsName b) :
    ∃ v, pyOr a b = .ok v ∧ IsName v ∧ nonempty? v = (nonempty? a).or (nonempty? b) := by
  rcases ha with rfl | ⟨s, rfl⟩
  · exact ⟨b, rfl, hb, rfl⟩
  · by_cases hs : s = ""
    · subst hs
      exact ⟨b, rfl, hb, rfl⟩
    · refine ⟨.str s, ?_, .inr ⟨s, rfl⟩, by simp [nonempty?, hs]⟩
      simp [pyOr, PyVal.truth, hs, bind, Except.bind, pure, Except.pure]

theorem isAdapterMethod_name {v : PyVal} (hv : IsName v) :
    ∃ adapter, isAdapterMethod v = .ok adapter ∧
      (adapter = true ↔ ∃ s, nonempty? v = some s ∧ ∃ a ∈ adapterMethods, a.toList = lower s) := by
  rcases hv with rfl | ⟨s, rfl⟩
  · exact ⟨false, rfl, by simp [nonempty?]⟩
  · refine ⟨_, rfl, ?_⟩
    by_cases hs : s = ""
    · subst hs
      simp only [nonempty?, if_true, reduceCtorEq, false_and, exists_false, iff_false]
      decide
    · simp [nonempty?, hs]

theorem effectiveMethod_name (hm : IsName m) (hmethod : IsName (d.get "method"))
    (htechnique : IsName (d.get "technique")) :
    ∃ eff adapter, effectiveMethod m d = .ok eff ∧ isAdapterMethod eff = .ok adapter ∧
      (adapter = true ↔ AdapterNamed m d) := by
  obtain ⟨v, hv, hname, hfirst⟩ := pyOr_name hm hmethod
  obtain ⟨eff, heff, heffname, hsecond⟩ := pyOr_name hname htechnique
  obtain ⟨adapter, hadapter, hiff⟩ := isAdapterMethod_name heffname
  refine ⟨eff, adapter, ?_, hadapter, ?_⟩
  · rw [effectiveMethod, hv]
    exact heff
  · have hfind : methodName m d = nonempty? eff := by
      rw [hsecond, hfirst, methodName]
      simp only [List.findSome?]
      cases nonempty? m <;> cases nonempty? (d.get "method") <;>
        cases nonempty? (d.get "technique") <;> rfl
    rw [hiff, AdapterNamed, hfind]

/-! ## The verdict -/

theorem poorPerformance_ok (h : Convertible d) : ∃ poor, poorPerformance d = .ok poor := by
  unfold poorPerformance
  rw [h.floatsOf]
  dsimp only [bind, Except.bind]
  split
  · exact ⟨_, rfl⟩
  · exact ⟨_, rfl⟩

/-- A result that nothing is found wrong with. -/
theorem validateDict_clean {eff : PyVal} {poor : Option Bool}
    (hc : (d.get "caught_exception").truth = .ok false) (heff : effectiveMethod m d = .ok eff)
    (hmetrics : metricErrors pf d = .ok []) (heval : evalExamplesError pf d = [])
    (hreasons : degeneracyReasons pf eff d = .ok []) (hpoor : poorPerformance d = .ok poor) :
    ∃ o, validateDict pf d m = .ok o ∧ o.status.succeeded = true := by
  have hcaught : caughtError pf false d = [] := rfl
  unfold validateDict
  simp only [hc, heff, hmetrics, heval, hreasons, hpoor, hcaught, bind, Except.bind, pure,
    Except.pure]
  by_cases hw : (!(warningsOf d).isEmpty) = true
  · rw [if_pos hw]
    exact ⟨_, rfl, rfl⟩
  · rw [if_neg hw]
    exact ⟨_, rfl, rfl⟩

/-- **Exact acceptance.** -/
theorem succeeded_iff (hm : IsName m) (hmethod : IsName (d.get "method"))
    (htechnique : IsName (d.get "technique")) :
    (∃ o, validateDict pf d m = .ok o ∧ o.status.succeeded = true) ↔
      Accepted m d ∧ Convertible d := by
  obtain ⟨eff, adapter, heff, hadapter, hname⟩ := effectiveMethod_name hm hmethod htechnique
  have hunder : AdapterUnder m d ↔ AdapterNamed m d := by
    rw [AdapterUnder, heff, ← hname]
    show isAdapterMethod eff = _ ↔ _
    rw [hadapter, Except.ok.injEq]
  constructor
  · rintro ⟨o, ho, hsucceeded⟩
    have hkept : ¬ o.status.rejected = true := by
      rw [ResultStatus.rejected_of_succeeded hsucceeded]
      exact Bool.false_ne_true
    rw [validateDict_rejected ho, Flawed] at hkept
    simp only [not_or, not_not] at hkept
    obtain ⟨⟨hcaught, hmetrics, heval, hreasons⟩, hzero⟩ := hkept
    obtain ⟨caught, hc, -⟩ := Except.bind_ok ho
    obtain ⟨hfits, hrange⟩ := metricErrors_nil_iff.mp hmetrics
    obtain ⟨hmissing, htotal, hzeros⟩ := degeneracyReasons_nil.mp hreasons
    obtain ⟨hpredictions, hloaded⟩ := missingReasons_nil.mp hmissing
    refine ⟨?_, hfits⟩
    constructor
    · cases caught with
      | false => exact hc
      | true => exact absurd hc hcaught
    · exact hrange
    · exact (evalExamplesError_nil hrange).mp heval
    · exact hpredictions
    · exact hloaded
    · exact totalReasons_nil.mp htotal
    · intro hnamed hnone
      exact hzero ⟨zeroTrainable_iff.mpr hnone, hunder.mpr hnamed⟩
    · exact (zeroReasons_nil hfits).mp hzeros
  · rintro ⟨h, hfits⟩
    obtain ⟨poor, hpoor⟩ := poorPerformance_ok hfits
    have hmissing := missingReasons_nil.mpr ⟨h.predictions, h.adapter⟩
    have htotal : totalReasons pf d = [] := totalReasons_nil.mpr h.total
    have hzeros := (zeroReasons_nil hfits).mpr h.zeros
    have htrainable : trainableReasons pf adapter eff d = [] := by
      rw [trainableReasons, reason_nil, Bool.and_eq_true, zeroTrainable_iff, hname]
      exact fun hboth => h.trainable hboth.1 hboth.2
    have hreasons : degeneracyReasons pf eff d = .ok [] := by
      rw [degeneracyReasons_eq, hadapter, hzeros]
      show Except.ok (missingReasons d ++ trainableReasons pf adapter eff d ++ totalReasons pf d ++
        []) = _
      rw [hmissing, htrainable, htotal]
      rfl
    exact validateDict_clean h.uncaught heff (metricErrors_nil_iff.mpr ⟨hfits, h.inRange⟩)
      ((evalExamplesError_nil h.inRange).mpr h.evaluated) hreasons hpoor

/-! ## Two scores, one verdict -/

/-- A number between 0 and 1. -/
def IsScore (v : PyVal) : Prop := ∃ q, number? v = some (.finite q) ∧ 0 ≤ q ∧ q ≤ 1

/-- The two results differ only in the scores they have under bounded metric keys. -/
def Rescored (d d' : Dict) : Prop :=
  List.Forall₂ (fun kv kv' => kv'.1 = kv.1 ∧ (kv'.2 = kv.2 ∨
    memberOf boundedMetrics kv.1 = true ∧ IsScore kv.2 ∧ IsScore kv'.2)) d d'

/-- Some bounded metric is a number other than zero. -/
def Nonzero (d : Dict) : Prop := ∃ k ∈ boundedMetrics, ∃ q, q ≠ 0 ∧ numberAt d k = some (.finite q)

theorem IsScore.toFloat? {v : PyVal} (h : IsScore v) : ∃ q, v.toFloat? = some (.ok (.finite q)) ∧
    0 ≤ q ∧ q ≤ 1 := by
  obtain ⟨q, hq, h0, h1⟩ := h
  refine ⟨q, ?_, h0, h1⟩
  rw [toFloat?_of_fits, hq]
  · rfl
  · rintro i rfl
    obtain rfl : (i : ℚ) = q := by simpa [number?] using hq
    have hi0 : 0 ≤ i := by exact_mod_cast h0
    have hi1 : i ≤ 1 := by exact_mod_cast h1
    have hsmall : i.natAbs ≤ 1 := by omega
    exact lt_of_le_of_lt hsmall (by decide +kernel)

theorem metricError_score {k : PyKey} {q : ℚ} (h0 : 0 ≤ q) (h1 : q ≤ 1) :
    metricError pf k (.finite q) = [] :=
  metricError_nil.mpr ⟨q, rfl, fun _ => ⟨h0, h1⟩, fun _ => h0⟩

namespace Rescored

theorem get? (h : Rescored d d') {k : String} (hk : k ∉ boundedMetrics) : d'.get? k = d.get? k := by
  unfold Dict.get?
  induction h with
  | nil => rfl
  | @cons kv kv' d d' hkv _ ih =>
    by_cases hkey : kv.1 = .str k
    · have hval : kv'.2 = kv.2 := by
        rcases hkv.2 with hval | ⟨hbounded, -⟩
        · exact hval
        · rw [hkey, memberOf, decide_eq_true_eq] at hbounded
          exact absurd hbounded hk
      rw [List.find?_cons_of_pos (by simp [hkv.1, hkey]), List.find?_cons_of_pos (by simp [hkey])]
      simp [hval]
    · rw [List.find?_cons_of_neg (by simp [hkv.1, hkey]), List.find?_cons_of_neg (by simp [hkey])]
      exact ih

theorem get (h : Rescored d d') {k : String} (hk : k ∉ boundedMetrics) : d'.get k = d.get k := by
  rw [Dict.get, Dict.get, h.get? hk]

theorem metricErrors (h : Rescored d d') : metricErrors pf d' = metricErrors pf d := by
  induction h with
  | nil => rfl
  | @cons kv kv' d d' hkv _ ih =>
    obtain ⟨k, v⟩ := kv
    obtain ⟨k', v'⟩ := kv'
    obtain ⟨rfl, hval⟩ := hkv
    rw [Validator.metricErrors, Validator.metricErrors, ih]
    rcases hval with rfl | ⟨-, hv, hv'⟩
    · rfl
    · obtain ⟨q, hq, h0, h1⟩ := hv.toFloat?
      obtain ⟨q', hq', h0', h1'⟩ := hv'.toFloat?
      simp only [hq, hq', bind, Except.bind, metricError_score h0 h1, metricError_score h0' h1']

theorem effectiveMethod (h : Rescored d d') : effectiveMethod m d' = effectiveMethod m d := by
  rw [Validator.effectiveMethod, Validator.effectiveMethod, h.get (by decide), h.get (by decide)]

theorem evalExamplesError (h : Rescored d d') :
    evalExamplesError pf d' = evalExamplesError pf d := by
  rw [Validator.evalExamplesError, Validator.evalExamplesError, h.get? (by decide)]

theorem warningsOf (h : Rescored d d') : warningsOf d' = warningsOf d := by
  rw [Validator.warningsOf, Validator.warningsOf, h.get? (by decide)]

theorem caughtError (h : Rescored d d') (caught : Bool) :
    caughtError pf caught d' = caughtError pf caught d := by
  rw [Validator.caughtError, Validator.caughtError, h.get (by decide)]

theorem convertible (h : Rescored d d') (hd : Convertible d) : Convertible d' := by
  intro kv' hkv' i hi
  obtain ⟨n, hn, rfl⟩ := List.mem_iff_getElem.mp hkv'
  have hn' : n < d.length := h.length_eq ▸ hn
  have hpair := (List.forall₂_iff_get.mp h).2 n hn' hn
  simp only [List.get_eq_getElem] at hpair
  rcases hpair.2 with hval | ⟨-, -, hscore⟩
  · rw [hval] at hi
    exact hd _ (List.getElem_mem hn') i hi
  · rw [hi] at hscore
    obtain ⟨q, hq, h0, h1⟩ := hscore
    obtain rfl : (i : ℚ) = q := by simpa [number?] using hq
    have hi0 : 0 ≤ i := by exact_mod_cast h0
    have hi1 : i ≤ 1 := by exact_mod_cast h1
    have hsmall : i.natAbs ≤ 1 := by omega
    exact lt_of_le_of_lt hsmall (by decide +kernel)

end Rescored

theorem zeroReasons_nonzero (hfits : Convertible d) (h : Nonzero d) : zeroReasons d = .ok [] := by
  rw [zeroReasons_nil hfits]
  intro _ hall
  obtain ⟨k, hk, q, hq, hat⟩ := h
  have hzero : PyFloat.finite q = .finite 0 := hall k hk _ hat
  exact absurd (PyFloat.finite.inj hzero) hq

theorem Rescored.degeneracyReasons (h : Rescored d d') (hfits : Convertible d) (hn : Nonzero d)
    (hn' : Nonzero d') (eff : PyVal) :
    degeneracyReasons pf eff d' = degeneracyReasons pf eff d := by
  rw [degeneracyReasons_eq, degeneracyReasons_eq, zeroReasons_nonzero hfits hn,
    zeroReasons_nonzero (h.convertible hfits) hn']
  have hmissing : missingReasons d' = missingReasons d := by
    rw [missingReasons, missingReasons, h.get? (by decide), h.get? (by decide)]
  have htrainable : ∀ adapter, trainableReasons pf adapter eff d' =
      trainableReasons pf adapter eff d := by
    intro adapter
    rw [trainableReasons, trainableReasons, zeroTrainable, zeroTrainable, h.get? (by decide)]
  have htotal : totalReasons pf d' = totalReasons pf d := by
    rw [totalReasons, totalReasons, h.get? (by decide), h.get? (by decide)]
  rw [hmissing, htotal]
  simp only [htrainable]

/-- What a verdict says beside the informational flag for a poor score. -/
def Same (o o' : ValidationOutcome) : Prop :=
  o'.status = o.status ∧ o'.validationErrors = o.validationErrors ∧
    o'.validationWarnings = o.validationWarnings ∧ o'.metricValidated = o.metricValidated ∧
    o'.degeneracyFlag = o.degeneracyFlag

/-- **A low score is no error.** Two results that differ in their scores get the same verdict. -/
theorem validateDict_rescored (h : Rescored d d') (hn : Nonzero d) (hn' : Nonzero d')
    {o : ValidationOutcome} (ho : validateDict pf d m = .ok o) :
    ∃ o', validateDict pf d' m = .ok o' ∧ Same o o' := by
  obtain ⟨caught, hc, ho⟩ := Except.bind_ok ho
  obtain ⟨eff, heff, ho⟩ := Except.bind_ok ho
  obtain ⟨es, hes, ho⟩ := Except.bind_ok ho
  obtain ⟨rs, hrs, ho⟩ := Except.bind_ok ho
  obtain ⟨poor, -, ho⟩ := Except.bind_ok ho
  have hfits : Convertible d := fun kv hkv =>
    fits_of_toFloat? (Comparator.toFloat_ok_of_metricErrors hes kv hkv)
  obtain ⟨poor', hpoor'⟩ := poorPerformance_ok (h.convertible hfits)
  have hc' : (d'.get "caught_exception").truth = .ok caught := by rw [h.get (by decide), hc]
  have heff' : effectiveMethod m d' = .ok eff := by rw [h.effectiveMethod, heff]
  have hes' : metricErrors pf d' = .ok es := by rw [h.metricErrors, hes]
  have hrs' : degeneracyReasons pf eff d' = .ok rs := by
    rw [h.degeneracyReasons hfits hn hn', hrs]
  unfold validateDict
  simp only [hc', heff', hes', hrs', hpoor', h.caughtError, h.evalExamplesError, h.warningsOf, bind,
    Except.bind, pure, Except.pure]
  refine ⟨_, rfl, ?_⟩
  obtain rfl := Except.ok.inj ho
  exact ⟨rfl, rfl, rfl, rfl, rfl⟩

/-- **Which results are accepted.** With method names that are strings, a result gets one of the
two `SUCCEEDED` statuses exactly if it meets every check and each of its integers converts; and
two results that differ in their scores only, not all of them zero, get the same verdict. -/
theorem exact_acceptance (pf : Platform) (d : Dict) (m : PyVal) (hm : IsName m)
    (hmethod : IsName (d.get "method")) (htechnique : IsName (d.get "technique")) :
    ((∃ o, validateResult pf (.dict d) m = .ok o ∧ o.status.succeeded = true) ↔
      Accepted m d ∧ Convertible d) ∧
    ∀ d' o, Rescored d d' → Nonzero d → Nonzero d' → validateResult pf (.dict d) m = .ok o →
      ∃ o', validateResult pf (.dict d') m = .ok o' ∧ Same o o' := by
  constructor
  · exact succeeded_iff hm hmethod htechnique
  · intro d' o h hn hn' ho
    exact validateDict_rescored h hn hn' ho

/-- An accuracy of nine percent is accepted. -/
theorem exact_acceptance_low : Accepted .none [(.str "accuracy", .float (.finite (9 / 100)))] := by
  have h := exact_acceptance .bare [(.str "accuracy", .float (.finite (9 / 100)))] .none (.inl rfl)
    (.inl rfl) (.inl rfl)
  have hrun : (validateResult .bare (.dict [(.str "accuracy", .float (.finite (9 / 100)))])
      .none).toOption.any (·.status.succeeded) = true := by decide +kernel
  refine (h.1.mp ?_).1
  cases hv : validateResult .bare (.dict [(.str "accuracy", .float (.finite (9 / 100)))]) .none with
  | error e =>
    rw [hv] at hrun
    cases hrun
  | ok o =>
    rw [hv] at hrun
    exact ⟨o, rfl, hrun⟩

/-- Every check is met by a result whose one entry is the least integer that `float()` refuses,
but the validator raises. -/
theorem huge_integer_not_accepted :
    Accepted .none [(.str "steps", .int PyVal.floatLimit)] ∧
      ¬ ∃ o, validateResult .bare (.dict [(.str "steps", .int PyVal.floatLimit)]) .none = .ok o ∧
        o.status.succeeded = true := by
  constructor
  · constructor
    · rfl
    · intro kv hkv x hx
      obtain rfl := List.mem_singleton.mp hkv
      obtain rfl := Option.some.inj hx
      refine ⟨_, rfl, ?_, ?_⟩
      · intro h
        exact absurd h (by decide)
      · intro h
        exact absurd h (by decide)
    · intro x hx
      cases hx
    · exact nofun
    · exact nofun
    · intro p q hp
      cases hp
    · intro _ h
      cases h
    · rintro ⟨k, hk, hsome⟩
      have hnone : ∀ k ∈ boundedMetrics,
          numberAt [(.str "steps", .int PyVal.floatLimit)] k = none := by
        intro k hk
        have hne : "steps" ≠ k := by
          rintro rfl
          revert hk
          decide
        have hget : ∀ v : PyVal, numberAt [(.str "steps", v)] k = none := by
          intro v
          simp [numberAt, Dict.get?, hne]
        exact hget _
      rw [hnone k hk] at hsome
      cases hsome
  · rintro ⟨o, ho, hsucceeded⟩
    have h := (succeeded_iff (.inl rfl) (.inl rfl) (.inl rfl)).mp ⟨o, ho, hsucceeded⟩
    have hsmall : (PyVal.floatLimit : Int).natAbs < PyVal.floatLimit :=
      h.2 _ (List.mem_singleton_self _) _ rfl
    omega

end Validator
end FineTuneHarness
