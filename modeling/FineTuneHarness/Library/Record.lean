import Mathlib.Algebra.Order.Group.Defs
import Mathlib.Algebra.Order.Group.Basic
import Mathlib.Data.List.Infix

/-!
# Records with a tolerance

A sequence of values is watched for a record. The record moves only where a value clears it by
more than a tolerance, so small gains do not count. A value that does not clear the record of
the values before it is a miss, and a sequence is stalled once enough misses follow each other.
-/
namespace Library

section Record

variable {α : Type} [AddCommGroup α] [LinearOrder α] {δ : α}

/-- The record after one more value. -/
def advance (δ : α) : Option α → α → Option α
  | none, v => some v
  | some b, v => if δ < v - b then some v else some b

theorem advance_some (b v : α) :
    advance δ (some b) v = if δ < v - b then some v else some b := rfl

/-- The record a sequence leaves. -/
def record (δ : α) (vs : List α) : Option α := vs.foldl (advance δ) none

@[simp] theorem record_nil : record δ [] = none := rfl

@[simp] theorem record_concat (vs : List α) (v : α) :
    record δ (vs ++ [v]) = advance δ (record δ vs) v := by
  simp [record]

theorem record_eq_none {vs : List α} : record δ vs = none ↔ vs = [] := by
  induction vs using List.reverseRecOn with
  | nil => simp
  | append_singleton vs v _ =>
    rw [record_concat]
    cases record δ vs with
    | none => simp [advance]
    | some b => simp [advance]; split <;> simp

/-- The record is one of the values. -/
theorem record_mem {vs : List α} {b : α} (h : record δ vs = some b) : b ∈ vs := by
  induction vs using List.reverseRecOn generalizing b with
  | nil => cases h
  | append_singleton vs v ih =>
    rw [record_concat] at h
    cases hr : record δ vs with
    | none =>
      rw [hr] at h
      obtain rfl := Option.some.inj h
      simp
    | some c =>
      rw [hr, advance_some] at h
      split at h
      · obtain rfl := Option.some.inj h
        simp
      · obtain rfl := Option.some.inj h
        exact List.mem_append_left _ (ih hr)

/-- One more value does not lower the record. -/
theorem le_advance [IsOrderedAddMonoid α] (hδ : 0 ≤ δ) {r : Option α} {b c v : α} (hb : r = some b)
    (hc : advance δ r v = some c) : b ≤ c := by
  rw [hb, advance_some] at hc
  split at hc
  next hlt =>
    obtain rfl := Option.some.inj hc
    have hpos : 0 < v - b := lt_of_le_of_lt hδ hlt
    exact (sub_pos.mp hpos).le
  next =>
    obtain rfl := Option.some.inj hc
    exact le_refl b

/-- A record is never lowered by what follows. -/
theorem record_mono [IsOrderedAddMonoid α] (hδ : 0 ≤ δ) {vs ws : List α} {b c : α} (hb : record δ vs = some b)
    (hc : record δ (vs ++ ws) = some c) : b ≤ c := by
  induction ws using List.reverseRecOn generalizing c with
  | nil =>
    rw [List.append_nil, hb] at hc
    exact (Option.some.inj hc).le
  | append_singleton ws w ih =>
    rw [← List.append_assoc, record_concat] at hc
    obtain ⟨d, hd⟩ : ∃ d, record δ (vs ++ ws) = some d := by
      rw [← Option.ne_none_iff_exists']
      intro hn
      obtain ⟨rfl, -⟩ := List.append_eq_nil_iff.mp (record_eq_none.mp hn)
      cases hb
    exact (ih hd).trans (le_advance hδ hd hc)

/-- No value clears the record it leaves by more than the tolerance. -/
theorem sub_record_le [IsOrderedAddMonoid α] (hδ : 0 ≤ δ) {vs : List α} {b v : α} (hb : record δ vs = some b)
    (hv : v ∈ vs) : v - b ≤ δ := by
  induction vs using List.reverseRecOn generalizing b with
  | nil => cases hv
  | append_singleton vs w ih =>
    rw [record_concat] at hb
    rcases List.mem_append.mp hv with hv | hv
    · obtain ⟨c, hc⟩ : ∃ c, record δ vs = some c := by
        rw [← Option.ne_none_iff_exists']
        intro hn
        rw [record_eq_none.mp hn] at hv
        cases hv
      have hle : c ≤ b := le_advance hδ hc hb
      exact (sub_le_sub_left hle v).trans (ih hc hv)
    · obtain rfl := List.mem_singleton.mp hv
      cases hr : record δ vs with
      | none =>
        rw [hr] at hb
        obtain rfl := Option.some.inj hb
        simpa using hδ
      | some c =>
        rw [hr, advance_some] at hb
        split at hb
        next =>
          obtain rfl := Option.some.inj hb
          simpa using hδ
        next hle =>
          obtain rfl := Option.some.inj hb
          exact not_lt.mp hle

/-! ## Misses -/

/-- A value after `vs` that does not clear their record. -/
def Misses (δ : α) (vs : List α) (v : α) : Prop := ∃ b, record δ vs = some b ∧ v - b ≤ δ

/-- The sequence ends in `n` misses. -/
def EndsInMisses (δ : α) (n : Nat) (vs : List α) : Prop :=
  ∃ pre block, vs = pre ++ block ∧ block.length = n ∧
    ∀ xs v ys, block = xs ++ v :: ys → Misses δ (pre ++ xs) v

/-- At some point `n` misses in a row had been seen. -/
def Stalled (δ : α) (n : Nat) (vs : List α) : Prop := ∃ ws, ws <+: vs ∧ EndsInMisses δ n ws

theorem endsInMisses_zero (vs : List α) : EndsInMisses δ 0 vs := by
  refine ⟨vs, [], (List.append_nil vs).symm, rfl, ?_⟩
  intro xs v ys h
  simp at h

theorem not_endsInMisses_nil {n : Nat} : ¬ EndsInMisses δ (n + 1) ([] : List α) := by
  rintro ⟨pre, block, h, hlen, -⟩
  obtain ⟨-, rfl⟩ := List.append_eq_nil_iff.mp h.symm
  cases hlen

/-- One more miss at the end. -/
theorem endsInMisses_concat {n : Nat} {vs : List α} {v : α} :
    EndsInMisses δ (n + 1) (vs ++ [v]) ↔ EndsInMisses δ n vs ∧ Misses δ vs v := by
  constructor
  · rintro ⟨pre, block, h, hlen, hmiss⟩
    obtain ⟨block, w, rfl⟩ : ∃ b w, block = b ++ [w] := by
      rcases List.eq_nil_or_concat block with rfl | ⟨b, w, rfl⟩
      · cases hlen
      · exact ⟨b, w, List.concat_eq_append⟩
    rw [← List.append_assoc] at h
    obtain ⟨rfl, hw⟩ := List.append_inj' h rfl
    obtain rfl : v = w := by simpa using hw
    refine ⟨⟨pre, block, rfl, by simpa using hlen, ?_⟩, hmiss block v [] rfl⟩
    intro xs u ys hb
    apply hmiss xs u (ys ++ [v])
    rw [hb]
    simp
  · rintro ⟨⟨pre, block, rfl, hlen, hmiss⟩, hv⟩
    refine ⟨pre, block ++ [v], by simp, by simp [hlen], ?_⟩
    intro xs u ys hb
    rcases List.eq_nil_or_concat ys with rfl | ⟨zs, z, rfl⟩
    · obtain ⟨rfl, hu⟩ := List.append_inj' hb rfl
      obtain rfl : v = u := by simpa using hu
      exact hv
    · have hb' : block ++ [v] = (xs ++ u :: zs) ++ [z] := by simpa using hb
      obtain ⟨rfl, -⟩ := List.append_inj' hb' rfl
      exact hmiss xs u zs rfl

theorem stalled_of_prefix {n : Nat} {vs ws : List α} (h : Stalled δ n vs) (hp : vs <+: ws) :
    Stalled δ n ws := by
  obtain ⟨us, hus, hmiss⟩ := h
  exact ⟨us, hus.trans hp, hmiss⟩

/-- Stalling is noticed at the value that completes it. -/
theorem stalled_concat {n : Nat} {vs : List α} {v : α} :
    Stalled δ n (vs ++ [v]) ↔ Stalled δ n vs ∨ EndsInMisses δ n (vs ++ [v]) := by
  constructor
  · rintro ⟨ws, hws, hmiss⟩
    rcases List.prefix_concat_iff.mp hws with rfl | hws
    · exact .inr hmiss
    · exact .inl ⟨ws, hws, hmiss⟩
  · rintro (h | h)
    · exact stalled_of_prefix h (List.prefix_append _ _)
    · exact ⟨_, List.prefix_rfl, h⟩

/-! ## Watching for a stall -/

/-- What a watcher remembers of the values so far. -/
structure Watch (α : Type) where
  best : Option α := none
  misses : Nat := 0
  tripped : Bool := false

/-- One more value; `n` misses in a row trip the watch for good. -/
def Watch.see (δ : α) (n : Nat) (w : Watch α) (v : α) : Watch α :=
  match w.best with
  | none => { w with best := some v, misses := 0 }
  | some b =>
    if δ < v - b then { w with best := some v, misses := 0 }
    else { w with misses := w.misses + 1, tripped := w.tripped || decide (n ≤ w.misses + 1) }

/-- What a watch says of the values it has seen. -/
structure Watch.Of (δ : α) (n : Nat) (vs : List α) (w : Watch α) : Prop where
  best : w.best = record δ vs
  misses : ∀ m, EndsInMisses δ m vs ↔ m ≤ w.misses
  tripped : w.tripped = true ↔ Stalled δ n vs

theorem Watch.of_nil {n : Nat} (hn : 0 < n) : Watch.Of δ n [] ({} : Watch α) where
  best := rfl
  misses m := by
    cases m with
    | zero => simpa using endsInMisses_zero []
    | succ m => simpa using not_endsInMisses_nil
  tripped := by
    constructor
    · intro h
      cases h
    · rintro ⟨ws, hws, hmiss⟩
      obtain rfl := List.prefix_nil.mp hws
      obtain ⟨m, rfl⟩ : ∃ m, n = m + 1 := ⟨n - 1, by omega⟩
      exact absurd hmiss not_endsInMisses_nil

/-- A value that sets a record ends every row of misses. -/
theorem Watch.Of.hit {n : Nat} {vs : List α} {w : Watch α} {v : α} (hn : 0 < n) (h : w.Of δ n vs)
    (hv : ¬ Misses δ vs v) (hb : record δ (vs ++ [v]) = some v) :
    Watch.Of δ n (vs ++ [v]) { w with best := some v, misses := 0 } := by
  have hnot : ∀ m, ¬ EndsInMisses δ (m + 1) (vs ++ [v]) := by
    intro m hm
    exact hv (endsInMisses_concat.mp hm).2
  constructor
  · exact hb.symm
  · intro m
    cases m with
    | zero => simpa using endsInMisses_zero _
    | succ m => simpa using hnot m
  · rw [stalled_concat]
    obtain ⟨m, rfl⟩ : ∃ m, n = m + 1 := ⟨n - 1, by omega⟩
    simpa [hnot m] using h.tripped

theorem Watch.Of.see {n : Nat} {vs : List α} {w : Watch α} (hn : 0 < n) (h : w.Of δ n vs) (v : α) :
    (w.see δ n v).Of δ n (vs ++ [v]) := by
  unfold Watch.see
  have hbest := h.best
  split
  next hw =>
    rw [hw] at hbest
    apply h.hit hn
    · rintro ⟨b, hb, -⟩
      rw [← hbest] at hb
      cases hb
    · rw [record_concat, ← hbest]
      rfl
  next b hw =>
    rw [hw] at hbest
    split
    next hlt =>
      apply h.hit hn
      · rintro ⟨c, hc, hle⟩
        rw [← hbest] at hc
        obtain rfl := Option.some.inj hc
        exact absurd hlt (not_lt.mpr hle)
      · rw [record_concat, ← hbest, advance_some, if_pos hlt]
    next hle =>
      have hmiss : Misses δ vs v := ⟨b, hbest.symm, not_lt.mp hle⟩
      have hrow : ∀ m, EndsInMisses δ m (vs ++ [v]) ↔ m ≤ w.misses + 1 := by
        intro m
        cases m with
        | zero => simpa using endsInMisses_zero _
        | succ m =>
          rw [endsInMisses_concat, h.misses]
          exact ⟨fun hm => by omega, fun hm => ⟨by omega, hmiss⟩⟩
      constructor
      · show w.best = _
        rw [record_concat, ← hbest, advance_some, if_neg hle, hw]
      · exact hrow
      · show (w.tripped || decide (n ≤ w.misses + 1)) = true ↔ _
        rw [stalled_concat, hrow, Bool.or_eq_true, h.tripped, decide_eq_true_eq]

/-- **A watch of a whole sequence** keeps its record and is tripped exactly where it stalled. -/
theorem Watch.of_foldl {n : Nat} (hn : 0 < n) (vs : List α) :
    Watch.Of δ n vs (vs.foldl (Watch.see δ n) {}) := by
  induction vs using List.reverseRecOn with
  | nil => exact Watch.of_nil hn
  | append_singleton vs v ih =>
    rw [List.foldl_concat]
    exact ih.see hn v

end Record

end Library
