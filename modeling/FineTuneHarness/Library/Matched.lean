import FineTuneHarness.Library.Program
import FineTuneHarness.Library.Table
import Mathlib.Data.List.Forall2

/-!
# Tables matched row by row

Two tables whose rows correspond one to one in the same order, under a relation that fixes the
key: the rows of one are another way to write the rows of the other. What a relation respects on
two rows, the operations on tables respect on two tables, and a program cannot tell apart two
machines whose states are related and whose answers agree.
-/
namespace Library

section Lists

variable {α β γ : Type} {R : α → β → Prop} {as : List α} {bs : List β}

theorem forall₂_filter {p : α → Bool} {q : β → Bool} (h : List.Forall₂ R as bs)
    (hpq : ∀ a b, R a b → p a = q b) : List.Forall₂ R (as.filter p) (bs.filter q) :=
  List.rel_filter (fun a b hab => Bool.eq_iff_iff.mp (hpq a b hab)) h

theorem forall₂_find? {p : α → Bool} {q : β → Bool} (h : List.Forall₂ R as bs)
    (hpq : ∀ a b, R a b → p a = q b) : Option.Rel R (as.find? p) (bs.find? q) := by
  induction h with
  | nil => exact .none
  | @cons a b as bs hab _ ih =>
    cases hp : p a with
    | true =>
      rw [List.find?_cons_of_pos hp, List.find?_cons_of_pos (hpq a b hab ▸ hp)]
      exact .some hab
    | false =>
      rw [List.find?_cons_of_neg (by simp [hp]), List.find?_cons_of_neg (by simp [← hpq a b hab, hp])]
      exact ih

theorem forall₂_head? (h : List.Forall₂ R as bs) : Option.Rel R as.head? bs.head? := by
  cases h with
  | nil => exact .none
  | cons hab _ => exact .some hab

theorem forall₂_isEmpty (h : List.Forall₂ R as bs) : as.isEmpty = bs.isEmpty := by
  cases h with
  | nil => rfl
  | cons _ _ => rfl

theorem forall₂_any {p : α → Bool} {q : β → Bool} (h : List.Forall₂ R as bs)
    (hpq : ∀ a b, R a b → p a = q b) : as.any p = bs.any q := by
  induction h with
  | nil => rfl
  | cons hab _ ih => rw [List.any_cons, List.any_cons, hpq _ _ hab, ih]

theorem forall₂_and {P : β → Prop} (h : List.Forall₂ R as bs) (hP : ∀ b ∈ bs, P b) :
    List.Forall₂ (fun a b => R a b ∧ P b) as bs := by
  induction h with
  | nil => exact .nil
  | cons hab _ ih =>
    exact .cons ⟨hab, hP _ List.mem_cons_self⟩ (ih fun b hb => hP b (.tail _ hb))

/-- What is read off two related rows alike is read off the lists alike. -/
theorem forall₂_map_eq {f : α → γ} {g : β → γ} (h : List.Forall₂ R as bs)
    (hfg : ∀ a b, R a b → f a = g b) : as.map f = bs.map g := by
  induction h with
  | nil => rfl
  | cons hab _ ih => rw [List.map_cons, List.map_cons, hfg _ _ hab, ih]

/-- An update of rows that are chosen alike. -/
theorem forall₂_update {p : α → Bool} {q : β → Bool} {f : α → α} {g : β → β}
    (h : List.Forall₂ R as bs) (hpq : ∀ a b, R a b → p a = q b)
    (hfg : ∀ a b, R a b → q b = true → R (f a) (g b)) :
    List.Forall₂ R (as.map fun a => if p a then f a else a) (bs.map fun b => if q b then g b else b) := by
  refine List.rel_map (R := R) ?_ h
  intro a b hab
  dsimp only
  rw [hpq a b hab]
  by_cases hq : q b = true
  · rw [if_pos hq, if_pos hq]
    exact hfg a b hab hq
  · rw [if_neg hq, if_neg hq]
    exact hab

/-- Sorting by an order that the relation respects. -/
theorem forall₂_insertionSort {r : α → α → Prop} {s : β → β → Prop} [DecidableRel r]
    [DecidableRel s] (h : List.Forall₂ R as bs)
    (hrs : ∀ a b a' b', R a b → R a' b' → (r a a' ↔ s b b')) :
    List.Forall₂ R (as.insertionSort r) (bs.insertionSort s) := by
  have hinsert : ∀ {a b} {xs : List α} {ys : List β}, R a b → List.Forall₂ R xs ys →
      List.Forall₂ R (xs.orderedInsert r a) (ys.orderedInsert s b) := by
    intro a b xs ys hab hxs
    induction hxs with
    | nil => exact .cons hab .nil
    | @cons x y xs ys hxy hrest ih =>
      rw [List.orderedInsert, List.orderedInsert]
      by_cases hle : r a x
      · rw [if_pos hle, if_pos ((hrs a b x y hab hxy).mp hle)]
        exact .cons hab (.cons hxy hrest)
      · rw [if_neg hle, if_neg fun hs => hle ((hrs a b x y hab hxy).mpr hs)]
        exact .cons hxy ih
  induction h with
  | nil => exact .nil
  | cons hab _ ih => exact hinsert hab ih

end Lists

/-! ## Tables -/

section Tables

variable {α β κ : Type} {keyA : α → κ} {keyB : β → κ}

/-- The rows of two tables, related in order. -/
def Matched (R : α → β → Prop) (t : Table α κ keyA) (u : Table β κ keyB) : Prop :=
  List.Forall₂ R t.rows u.rows

namespace Matched

variable {R : α → β → Prop} {t : Table α κ keyA} {u : Table β κ keyB}

theorem empty : Matched R (Table.empty : Table α κ keyA) (Table.empty : Table β κ keyB) := .nil

variable (hkey : ∀ a b, R a b → keyA a = keyB b)
include hkey

theorem keys (h : Matched R t u) : t.rows.map keyA = u.rows.map keyB := forall₂_map_eq h hkey

omit hkey in
theorem insert (h : Matched R t u) {a : α} {b : β} (hab : R a b) (ha : keyA a ∉ t.rows.map keyA)
    (hb : keyB b ∉ u.rows.map keyB) : Matched R (t.insert a ha) (u.insert b hb) :=
  List.rel_append h (.cons hab .nil)

variable [DecidableEq κ]

theorem find? (h : Matched R t u) (k : κ) : Option.Rel R (t.find? k) (u.find? k) :=
  forall₂_find? h fun a b hab => by rw [hkey a b hab]

theorem find?_eq_none (h : Matched R t u) (k : κ) : t.find? k = none ↔ u.find? k = none := by
  have hrel := find? hkey h k
  generalize t.find? k = x at hrel ⊢
  generalize u.find? k = y at hrel ⊢
  cases hrel with
  | none => exact iff_of_true rfl rfl
  | some _ => exact iff_of_false nofun nofun

omit hkey [DecidableEq κ] in
theorem countWhere (h : Matched R t u) {p : α → Bool} {q : β → Bool}
    (hpq : ∀ a b, R a b → p a = q b) : t.countWhere p = u.countWhere q :=
  (forall₂_filter h hpq).length_eq

omit hkey [DecidableEq κ] in
theorem updateWhere (h : Matched R t u) {p : α → Bool} {q : β → Bool} {f : α → α} {g : β → β}
    (hf : ∀ a, keyA (f a) = keyA a) (hg : ∀ b, keyB (g b) = keyB b)
    (hpq : ∀ a b, R a b → p a = q b) (hfg : ∀ a b, R a b → q b = true → R (f a) (g b)) :
    Matched R (t.updateWhere p f hf) (u.updateWhere q g hg) :=
  forall₂_update h hpq hfg

end Matched

end Tables

/-! ## Programs -/

section Simulation

variable {Op : Type} {Res : Op → Type} {ε α σ τ : Type} {exec : (op : Op) → σ → Res op × σ}
  {exec' : (op : Op) → τ → Res op × τ} {R : σ → τ → Prop} {N : Op → σ → Prop}

/-- **Two machines that answer alike** to the requests a program makes, where it makes them, and
stay related are alike to the program. -/
theorem Program.run_simulates {p : Program Op Res ε α} {s : σ} {t : τ}
    (hp : ∀ x ∈ p.trace exec s, N x.1 x.2)
    (hstep : ∀ op s t, N op s → R s t →
      (exec op s).1 = (exec' op t).1 ∧ R (exec op s).2 (exec' op t).2) (h : R s t) :
    (p.run exec s).1 = (p.run exec' t).1 ∧ R (p.run exec s).2 (p.run exec' t).2 := by
  induction p generalizing s t with
  | ret a => exact ⟨rfl, h⟩
  | raise e => exact ⟨rfl, h⟩
  | call op next ih =>
    obtain ⟨hreply, hrel⟩ := hstep op s t (hp _ List.mem_cons_self) h
    rw [Program.run_call, Program.run_call, ← hreply]
    exact ih _ (fun x hx => hp x (List.mem_cons_of_mem _ hx)) hrel

/-- Requests that a program makes in no state are made in no run. -/
theorem Program.trace_only {p : Program Op Res ε α} {N : Op → Prop} (hp : p.Only N) {s : σ} :
    ∀ x ∈ p.trace exec s, N x.1 := by
  induction p generalizing s with
  | ret a => nofun
  | raise e => nofun
  | call op next ih =>
    intro x hx
    rcases List.mem_cons.mp hx with rfl | hx
    · exact hp.1
    · exact ih _ (hp.2 _ () trivial) x hx

end Simulation

end Library
