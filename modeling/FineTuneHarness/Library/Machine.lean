import Mathlib.Logic.Basic

/-!
# Guarded machines

A machine is an executable step function: `step s e` is `none` when the event `e`
is not enabled in `s`. `run` replays a list of events; `Steps C` are the runs all of
whose steps meet a condition `C`, so that `Steps (fun _ _ => True)` is reachability.
-/
namespace Library

structure Machine (σ ε : Type) where
  step : σ → ε → Option σ

namespace Machine

variable {σ ε : Type} (m : Machine σ ε)

/-- Replay a list of events, or `none` if one of them is not enabled. -/
def run : σ → List ε → Option σ
  | s, [] => some s
  | s, e :: es => (m.step s e).bind fun s' => run s' es

/-- `s'` is reached from `s` by steps that all meet `C`. -/
inductive Steps (C : σ → ε → Prop) (s : σ) : σ → Prop
  | refl : Steps C s s
  | tail {s' s'' : σ} (e : ε) : Steps C s s' → C s' e → m.step s' e = some s'' → Steps C s s''

/-- Any run at all. -/
abbrev Reaches (s s' : σ) : Prop := m.Steps (fun _ _ => True) s s'

variable {m} {C C' : σ → ε → Prop} {s s' s'' : σ}

theorem Steps.trans (h : m.Steps C s s') (h' : m.Steps C s' s'') : m.Steps C s s'' := by
  induction h' with
  | refl => exact h
  | tail e _ hC hs ih => exact .tail e ih hC hs

/-- **Invariant rule.** What one guarded step preserves, every guarded run preserves. -/
theorem Steps.invariant {I : σ → Prop} (h : m.Steps C s s') (h0 : I s)
    (hstep : ∀ s e s', I s → C s e → m.step s e = some s' → I s') : I s' := by
  induction h with
  | refl => exact h0
  | tail e _ hC hs ih => exact hstep _ _ _ ih hC hs

/-- Every step of the replay meets `C`. -/
def Along (m : Machine σ ε) (C : σ → ε → Prop) : σ → List ε → Prop
  | _, [] => True
  | s, e :: es => C s e ∧ ∀ s', m.step s e = some s' → Along m C s' es

instance decidableAlong [∀ s e, Decidable (C s e)] :
    (s : σ) → (es : List ε) → Decidable (m.Along C s es)
  | _, [] => .isTrue trivial
  | s, e :: es =>
    match hs : m.step s e with
    | none => decidable_of_iff (C s e) (by simp [Along, hs])
    | some s' =>
      have := decidableAlong s' es
      decidable_of_iff (C s e ∧ m.Along C s' es) (by simp [Along, hs])

theorem steps_of_run {es : List ε} (h : m.run s es = some s') (hC : m.Along C s es) :
    m.Steps C s s' := by
  induction es generalizing s with
  | nil =>
    obtain rfl := Option.some.inj h
    exact .refl
  | cons e es ih =>
    cases hs : m.step s e with
    | none => simp [run, hs] at h
    | some s₁ =>
      simp only [run, hs, Option.bind_some] at h
      exact Steps.trans (.tail e .refl hC.1 hs) (ih h (hC.2 s₁ hs))

theorem along_of_forall {es : List ε} (h : ∀ e ∈ es, ∀ s, C s e) (s : σ) : m.Along C s es := by
  induction es generalizing s with
  | nil => trivial
  | cons e es ih =>
    exact ⟨h e List.mem_cons_self s, fun s' _ => ih (fun e he => h e (List.mem_cons_of_mem _ he)) s'⟩

theorem along_true (s : σ) (es : List ε) : m.Along (fun _ _ => True) s es :=
  along_of_forall (fun _ _ _ => trivial) s

/-- A successful replay witnesses reachability. -/
theorem reaches_of_run {es : List ε} (h : m.run s es = some s') : m.Reaches s s' :=
  steps_of_run h (along_true s es)

/-- **Flag rule.** If a step raises `F` where it breaks `C`, and nowhere else, and `F` is never
taken down, then a replay ends with `F` if it began with it or some step broke `C`. -/
theorem flag_run {K F : σ → Prop} (hkeep : ∀ s e s', K s → m.step s e = some s' → K s')
    (hflag : ∀ s e s', K s → m.step s e = some s' → (F s' ↔ F s ∨ ¬ C s e)) {es : List ε}
    (h : m.run s es = some s') (hK : K s) : F s' ↔ F s ∨ ¬ m.Along C s es := by
  induction es generalizing s with
  | nil =>
    obtain rfl := Option.some.inj h
    exact ⟨.inl, fun h => h.resolve_right fun hn => hn trivial⟩
  | cons e es ih =>
    obtain ⟨s₁, hs, hrest⟩ := Option.bind_eq_some_iff.mp h
    have halong : m.Along C s (e :: es) ↔ C s e ∧ m.Along C s₁ es := by
      refine and_congr_right fun _ => ⟨fun h => h s₁ hs, fun h s₂ hs₂ => ?_⟩
      rwa [← Option.some.inj (hs.symm.trans hs₂)]
    rw [ih hrest (hkeep s e s₁ hK hs), hflag s e s₁ hK hs, halong, not_and_or, or_assoc]

/-- Every state the replay passes through satisfies `I`. -/
def Always (m : Machine σ ε) (I : σ → Prop) : σ → List ε → Prop
  | s, [] => I s
  | s, e :: es => I s ∧ ∀ s', m.step s e = some s' → Always m I s' es

theorem Always.last {I : σ → Prop} {es : List ε} (h : m.Always I s es) (hr : m.run s es = some s') :
    I s' := by
  induction es generalizing s with
  | nil =>
    obtain rfl := Option.some.inj hr
    exact h
  | cons e es ih =>
    obtain ⟨s₁, hs, hrest⟩ := Option.bind_eq_some_iff.mp hr
    exact ih (h.2 s₁ hs) hrest

/-- **Exactness rule.** If steps that meet `C` keep an invariant stronger than `I`, and every
other step breaks `I`, then the replays that keep `I` are those all of whose steps meet `C`. -/
theorem always_iff_along {K I : σ → Prop} (hI : ∀ s, K s → I s)
    (hkeep : ∀ s e s', K s → C s e → m.step s e = some s' → K s')
    (hbreak : ∀ s e, K s → ¬ C s e → ∃ s', m.step s e = some s' ∧ ¬ I s')
    {es : List ε} (h : K s) : m.Always I s es ↔ m.Along C s es := by
  induction es generalizing s with
  | nil => exact ⟨fun _ => trivial, fun _ => hI s h⟩
  | cons e es ih =>
    constructor
    · rintro ⟨-, hnext⟩
      have hC : C s e := by
        refine Classical.byContradiction fun hC => ?_
        obtain ⟨s', hs, hn⟩ := hbreak s e h hC
        have hs' := hnext s' hs
        cases es <;> first | exact hn hs' | exact hn hs'.1
      exact ⟨hC, fun s' hs => (ih (hkeep s e s' h hC hs)).mp (hnext s' hs)⟩
    · rintro ⟨hC, hnext⟩
      exact ⟨hI s h, fun s' hs => (ih (hkeep s e s' h hC hs)).mpr (hnext s' hs)⟩

end Machine
end Library
