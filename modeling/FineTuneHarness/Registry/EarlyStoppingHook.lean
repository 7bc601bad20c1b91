import FineTuneHarness.Evaluation.Comparator
import FineTuneHarness.Library.Record

/-!
# `EarlyStoppingHook`

Every method holds the hook's lock from its first look at the fields to its last write, so the
calls of any number of threads are a sequence. The kept best is a `Watch`: the hook simulates
one on the numbers it is shown, read with the sign that makes larger better.
-/
namespace FineTuneHarness

open Library (Watch record Misses EndsInMisses Stalled)

/-- `a - b`, exactly. -/
def PyVal.sub (a b : PyVal) : Except PyExc PyFloat :=
  match Validator.number? a, Validator.number? b with
  | some x, some y => .ok (Comparator.addFloat x (Comparator.negate y))
  | _, _ => .error (.typeError
      s!"unsupported operand type(s) for -: '{a.typeName}' and '{b.typeName}'")

/-- The default `min_delta` is the double nearest to 0.001. -/
structure EarlyStoppingHook where
  metric : String := "accuracy"
  patience : Int := 5
  minDelta : ℚ := 1152921504606847 / 2 ^ 60
  mode : String := "max"
  best : PyVal := .none
  counter : Nat := 0
  shouldStop : Bool := false

namespace EarlyStoppingHook

/-- `improved`; every mode but `"max"` is a `"min"`. -/
def improved (hook : EarlyStoppingHook) (value : PyVal) : Except PyExc Bool := do
  let gain ← if hook.mode = "max" then value.sub hook.best else hook.best.sub value
  return Validator.floatLt (.finite hook.minDelta) gain

def afterTaskSuccess (hook : EarlyStoppingHook) (result : Dict) : Except PyExc EarlyStoppingHook :=
  match result.get? hook.metric with
  | none => .ok hook
  | some value =>
    match hook.best with
    | .none => .ok { hook with best := value, counter := 0 }
    | _ => do
      if ← hook.improved value then return { hook with best := value, counter := 0 }
      else
        let counter := hook.counter + 1
        return { hook with counter, shouldStop := hook.shouldStop || decide (hook.patience ≤ counter) }

def reset (hook : EarlyStoppingHook) : EarlyStoppingHook :=
  { hook with best := .none, counter := 0, shouldStop := false }

/-- A hook that has just been made. -/
def Fresh (hook : EarlyStoppingHook) : Prop := hook.reset = hook

/-- A sequence of calls; the first exception ends it. -/
def feed : EarlyStoppingHook → List Dict → Except PyExc EarlyStoppingHook
  | hook, [] => .ok hook
  | hook, result :: results => do feed (← hook.afterTaskSuccess result) results

/-! ## Numbers -/

def rational? (v : PyVal) : Option ℚ :=
  match Validator.number? v with
  | some (.finite q) => some q
  | _ => none

/-- The metric of a result, where it has one that is a finite number. -/
def valueOf (hook : EarlyStoppingHook) (result : Dict) : Option ℚ :=
  (result.get? hook.metric).bind rational?

/-- The metric is missing, or a finite number. -/
def Numeric (hook : EarlyStoppingHook) (result : Dict) : Prop :=
  ∀ v, result.get? hook.metric = some v → (rational? v).isSome = true

/-- The numbers a sequence of results shows the hook. -/
def valuesOf (hook : EarlyStoppingHook) (results : List Dict) : List ℚ :=
  results.filterMap hook.valueOf

def bestValue (hook : EarlyStoppingHook) : Option ℚ := rational? hook.best

/-- By how much `v` is better than `b`. -/
def gain (hook : EarlyStoppingHook) (v b : ℚ) : ℚ := if hook.mode = "max" then v - b else b - v

/-- A number with the sign that makes larger better. -/
def signed (hook : EarlyStoppingHook) (q : ℚ) : ℚ := if hook.mode = "max" then q else -q

variable {hook hook' : EarlyStoppingHook}

theorem gain_eq (v b : ℚ) : hook.gain v b = hook.signed v - hook.signed b := by
  unfold gain signed
  split
  · rfl
  · exact (neg_sub_neg v b).symm

theorem sub_rational {a b : PyVal} {p q : ℚ} (ha : rational? a = some p) (hb : rational? b = some q) :
    a.sub b = .ok (.finite (p - q)) := by
  unfold rational? at ha hb
  split at ha
  next p' hp =>
    split at hb
    next q' hq =>
      obtain rfl := Option.some.inj ha
      obtain rfl := Option.some.inj hb
      rw [PyVal.sub, hp, hq]
      show Except.ok (PyFloat.finite (p' + -q')) = _
      rw [sub_eq_add_neg]
    next => cases hb
  next => cases ha

theorem improved_rational {value : PyVal} {v b : ℚ} (hv : rational? value = some v)
    (hb : hook.bestValue = some b) :
    hook.improved value = .ok (decide (hook.minDelta < hook.gain v b)) := by
  unfold improved gain
  by_cases hm : hook.mode = "max"
  · simp only [hm, if_true, sub_rational hv hb]
    rfl
  · simp only [hm, if_false, sub_rational hb hv]
    rfl

/-! ## What a call does -/

theorem afterTaskSuccess_missing {r : Dict} (h : r.get? hook.metric = none) :
    hook.afterTaskSuccess r = .ok hook := by
  rw [afterTaskSuccess, h]

theorem afterTaskSuccess_first {r : Dict} {value : PyVal} (h : r.get? hook.metric = some value)
    (hb : hook.best = .none) :
    hook.afterTaskSuccess r = .ok { hook with best := value, counter := 0 } := by
  simp only [afterTaskSuccess, h, hb]

theorem afterTaskSuccess_later {r : Dict} {value : PyVal} {v b : ℚ}
    (h : r.get? hook.metric = some value) (hv : rational? value = some v)
    (hb : hook.bestValue = some b) :
    hook.afterTaskSuccess r = .ok (
      if hook.minDelta < hook.gain v b then { hook with best := value, counter := 0 }
      else { hook with
        counter := hook.counter + 1
        shouldStop := hook.shouldStop || decide (hook.patience ≤ (hook.counter + 1 : Nat)) }) := by
  have hstep : hook.afterTaskSuccess r = (do
      if ← hook.improved value then return { hook with best := value, counter := 0 }
      else
        return { hook with
          counter := hook.counter + 1
          shouldStop := hook.shouldStop || decide (hook.patience ≤ (hook.counter + 1 : Nat)) }) := by
    simp only [afterTaskSuccess, h]
    split
    next hn =>
      rw [bestValue, hn] at hb
      cases hb
    next => rfl
  rw [hstep, improved_rational hv hb]
  by_cases hg : hook.minDelta < hook.gain v b
  · simp [hg, bind, Except.bind, pure, Except.pure]
  · simp [hg, bind, Except.bind, pure, Except.pure]

/-! ## The watch behind the hook -/

/-- The settings a call leaves alone. -/
structure Same (hook hook' : EarlyStoppingHook) : Prop where
  metric : hook'.metric = hook.metric
  patience : hook'.patience = hook.patience
  minDelta : hook'.minDelta = hook.minDelta
  mode : hook'.mode = hook.mode

/-- The hook and a watch of the signed numbers remember the same. -/
structure Tracks (hook : EarlyStoppingHook) (w : Watch ℚ) : Prop where
  none : w.best = none → hook.best = .none
  some : ∀ b, w.best = some b → ∃ q, hook.bestValue = some q ∧ hook.signed q = b
  counter : hook.counter = w.misses
  shouldStop : hook.shouldStop = w.tripped

theorem Same.refl (hook : EarlyStoppingHook) : Same hook hook := ⟨rfl, rfl, rfl, rfl⟩

theorem Same.trans {h₁ h₂ h₃ : EarlyStoppingHook} (h : Same h₁ h₂) (h' : Same h₂ h₃) : Same h₁ h₃ :=
  ⟨h'.metric.trans h.metric, h'.patience.trans h.patience, h'.minDelta.trans h.minDelta,
    h'.mode.trans h.mode⟩

theorem Same.valueOf (h : Same hook hook') : hook'.valueOf = hook.valueOf := by
  funext r
  rw [EarlyStoppingHook.valueOf, EarlyStoppingHook.valueOf, h.metric]

theorem Same.signed (h : Same hook hook') : hook'.signed = hook.signed := by
  funext q
  rw [EarlyStoppingHook.signed, EarlyStoppingHook.signed, h.mode]

theorem Same.numeric (h : Same hook hook') {r : Dict} (hr : hook.Numeric r) : hook'.Numeric r := by
  intro v hv
  rw [h.metric] at hv
  exact hr v hv

/-- A call keeps the settings, whatever it is shown. -/
theorem same_afterTaskSuccess {r : Dict} (h : hook.afterTaskSuccess r = .ok hook') :
    Same hook hook' := by
  unfold afterTaskSuccess at h
  split at h
  · obtain rfl := Except.ok.inj h
    exact .refl _
  · split at h
    · obtain rfl := Except.ok.inj h
      exact ⟨rfl, rfl, rfl, rfl⟩
    · obtain ⟨improved, -, h⟩ := Except.bind_ok h
      split at h
      · obtain rfl := Except.ok.inj h
        exact ⟨rfl, rfl, rfl, rfl⟩
      · obtain rfl := Except.ok.inj h
        exact ⟨rfl, rfl, rfl, rfl⟩

/-- `reset` leaves the settings only. -/
theorem Same.reset (h : Same hook hook') : hook'.reset = hook.reset := by
  cases hook
  cases hook'
  obtain ⟨h₁, h₂, h₃, h₄⟩ := h
  simp only at h₁ h₂ h₃ h₄
  simp only [EarlyStoppingHook.reset, h₁, h₂, h₃, h₄]

theorem tracks_of_fresh (h : hook.Fresh) : hook.Tracks {} := by
  have hbest : hook.best = .none := by rw [← h]; rfl
  have hcounter : hook.counter = 0 := by rw [← h]; rfl
  have hstop : hook.shouldStop = false := by rw [← h]; rfl
  constructor
  · intro _
    exact hbest
  · intro b hb
    cases hb
  · exact hcounter
  · exact hstop

/-- **One call**: a result without the metric changes nothing, another one is a value seen. -/
theorem afterTaskSuccess_tracks {w : Watch ℚ} {n : Nat} (hn : hook.patience = n)
    (ht : hook.Tracks w) {r : Dict} (hr : hook.Numeric r) :
    ∃ hook', hook.afterTaskSuccess r = .ok hook' ∧ Same hook hook' ∧
      hook'.Tracks ((hook.valueOf r).elim w fun v => w.see hook.minDelta n (hook.signed v)) := by
  cases hg : r.get? hook.metric with
  | none =>
    have hv : hook.valueOf r = none := by rw [valueOf, hg]; rfl
    rw [hv]
    exact ⟨hook, afterTaskSuccess_missing hg, .refl _, ht⟩
  | some value =>
    obtain ⟨v, hv⟩ := Option.isSome_iff_exists.mp (hr value hg)
    have hval : hook.valueOf r = some v := by rw [valueOf, hg]; exact hv
    rw [hval]
    show ∃ hook' : EarlyStoppingHook, _ ∧ _ ∧ hook'.Tracks (w.see hook.minDelta n (hook.signed v))
    unfold Watch.see
    split
    next hw =>
      refine ⟨_, afterTaskSuccess_first hg (ht.none hw), ⟨rfl, rfl, rfl, rfl⟩, ?_⟩
      constructor
      · intro h
        cases h
      · intro b hb
        obtain rfl := Option.some.inj hb
        exact ⟨v, hv, rfl⟩
      · rfl
      · exact ht.shouldStop
    next b hw =>
      obtain ⟨q, hq, rfl⟩ := ht.some b hw
      rw [← gain_eq]
      refine ⟨_, afterTaskSuccess_later hg hv hq, ?_⟩
      by_cases hgain : hook.minDelta < hook.gain v q
      · rw [if_pos hgain, if_pos hgain]
        refine ⟨⟨rfl, rfl, rfl, rfl⟩, ?_⟩
        constructor
        · intro h
          cases h
        · intro b hb
          obtain rfl := Option.some.inj hb
          exact ⟨v, hv, rfl⟩
        · rfl
        · exact ht.shouldStop
      · rw [if_neg hgain, if_neg hgain]
        refine ⟨⟨rfl, rfl, rfl, rfl⟩, ?_⟩
        constructor
        · intro h
          exact ht.none h
        · intro b hb
          exact ht.some b hb
        · show hook.counter + 1 = w.misses + 1
          rw [ht.counter]
        · show (hook.shouldStop || decide (hook.patience ≤ (hook.counter + 1 : Nat))) =
            (w.tripped || decide (n ≤ w.misses + 1))
          have hle : hook.patience ≤ ((hook.counter + 1 : Nat) : Int) ↔ n ≤ w.misses + 1 := by
            rw [hn, ht.counter]
            exact Int.ofNat_le
          rw [ht.shouldStop, decide_eq_decide.mpr hle]

/-- **A sequence of calls** does not raise, and the watch sees the numbers in it. -/
theorem feed_tracks {n : Nat} (results : List Dict) {hook : EarlyStoppingHook} {w : Watch ℚ}
    (hn : hook.patience = n) (ht : hook.Tracks w) (hr : ∀ r ∈ results, hook.Numeric r) :
    ∃ hook', hook.feed results = .ok hook' ∧ Same hook hook' ∧
      hook'.Tracks (((hook.valuesOf results).map hook.signed).foldl (Watch.see hook.minDelta n) w) := by
  induction results generalizing hook w with
  | nil => exact ⟨hook, rfl, .refl _, ht⟩
  | cons r results ih =>
    obtain ⟨h₁, hstep, hsame, ht₁⟩ := afterTaskSuccess_tracks hn ht (hr r (List.mem_cons_self ..))
    have hr₁ : ∀ r ∈ results, h₁.Numeric r := by
      intro r' hm
      exact hsame.numeric (hr r' (List.mem_cons_of_mem _ hm))
    obtain ⟨h₂, hfeed, hsame₂, ht₂⟩ := ih (hsame.patience.trans hn) ht₁ hr₁
    refine ⟨h₂, ?_, hsame.trans hsame₂, ?_⟩
    · rw [feed, hstep]
      exact hfeed
    · rw [hsame.signed, hsame.minDelta, valuesOf, hsame.valueOf, ← valuesOf] at ht₂
      cases hv : hook.valueOf r with
      | none =>
        rw [hv] at ht₂
        rw [valuesOf, List.filterMap_cons_none hv, ← valuesOf]
        exact ht₂
      | some v =>
        rw [hv] at ht₂
        rw [valuesOf, List.filterMap_cons_some hv, ← valuesOf]
        exact ht₂

end EarlyStoppingHook
end FineTuneHarness
