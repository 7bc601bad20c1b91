import FineTuneHarness.Library.JsonText
import Mathlib.Data.List.Perm.Basic
import Mathlib.Data.List.Sort

/-!
# JSON values up to the order of members

An object is a set of members: `Same` values differ in the order of members only, at any depth.
`sorted` puts the members of every object in the order of their names, as `sort_keys` does. Values
without repeated names are the same exactly if they are equal once they are sorted.
-/
namespace Library

namespace JsonText

section Order

variable {F : Type}

mutual

/-- The same value up to the order of members. -/
inductive Same : Value F → Value F → Prop
  | refl (v : Value F) : Same v v
  | arr {xs ys : List (Value F)} : SameItems xs ys → Same (.arr xs) (.arr ys)
  | obj {ms ms' ns : List (String × Value F)} :
    ms.Perm ms' → SameMembers ms' ns → Same (.obj ms) (.obj ns)

inductive SameItems : List (Value F) → List (Value F) → Prop
  | nil : SameItems [] []
  | cons {x y : Value F} {xs ys : List (Value F)} :
    Same x y → SameItems xs ys → SameItems (x :: xs) (y :: ys)

inductive SameMembers : List (String × Value F) → List (String × Value F) → Prop
  | nil : SameMembers [] []
  | cons {k : String} {x y : Value F} {ms ns : List (String × Value F)} :
    Same x y → SameMembers ms ns → SameMembers ((k, x) :: ms) ((k, y) :: ns)

end

/-- Members in the order of their names. -/
def sortNames (ms : List (String × Value F)) : List (String × Value F) :=
  ms.insertionSort fun a b => a.1 ≤ b.1

mutual

/-- The value as `sort_keys` writes it. -/
def Value.sorted : Value F → Value F
  | .arr xs => .arr (sortedItems xs)
  | .obj ms => .obj (sortNames (sortedMembers ms))
  | v => v

def sortedItems : List (Value F) → List (Value F)
  | [] => []
  | x :: xs => x.sorted :: sortedItems xs

def sortedMembers : List (String × Value F) → List (String × Value F)
  | [] => []
  | (k, x) :: ms => (k, x.sorted) :: sortedMembers ms

end

mutual

/-- No object has two members of one name. -/
def Value.distinct : Value F → Bool
  | .arr xs => itemsDistinct xs
  | .obj ms => (ms.map (·.1)).Nodup && membersDistinct ms
  | _ => true

def itemsDistinct : List (Value F) → Bool
  | [] => true
  | x :: xs => x.distinct && itemsDistinct xs

def membersDistinct : List (String × Value F) → Bool
  | [] => true
  | (_, x) :: ms => x.distinct && membersDistinct ms

end

theorem itemsDistinct_iff {xs : List (Value F)} :
    itemsDistinct xs = true ↔ ∀ x ∈ xs, x.distinct = true := by
  induction xs with
  | nil => simp [itemsDistinct]
  | cons x xs ih => simp [itemsDistinct, ih]

theorem membersDistinct_iff {ms : List (String × Value F)} :
    membersDistinct ms = true ↔ ∀ m ∈ ms, m.2.distinct = true := by
  induction ms with
  | nil => simp [membersDistinct]
  | cons m ms ih =>
    rw [membersDistinct, Bool.and_eq_true, ih, List.forall_mem_cons]

theorem sortedMembers_eq (ms : List (String × Value F)) :
    sortedMembers ms = ms.map fun m => (m.1, m.2.sorted) := by
  induction ms with
  | nil => rfl
  | cons m ms ih => rw [sortedMembers, ih, List.map_cons]

/-! ## Same values sort alike -/

/-- Members of distinct names are sorted in one way. -/
theorem sortNames_eq_of_perm {ms ns : List (String × Value F)} (h : ms.Perm ns)
    (hnames : (ms.map (·.1)).Nodup) : sortNames ms = sortNames ns := by
  have : Std.Total fun a b : String × Value F => a.1 ≤ b.1 := ⟨fun a b => String.le_total a.1 b.1⟩
  have : IsTrans (String × Value F) fun a b => a.1 ≤ b.1 := ⟨fun _ _ _ => String.le_trans⟩
  have hsorted := List.pairwise_insertionSort fun a b : String × Value F => a.1 ≤ b.1
  have hperm : (sortNames ms).Perm (sortNames ns) :=
    (List.perm_insertionSort _ _).trans (h.trans (List.perm_insertionSort _ _).symm)
  have hone : ∀ a b, a ∈ sortNames ms → b ∈ sortNames ns → a.1 ≤ b.1 → b.1 ≤ a.1 → a = b := by
    intro a b ha hb hab hba
    have ha : a ∈ ms := (List.mem_insertionSort _).mp ha
    have hb : b ∈ ms := h.mem_iff.mpr ((List.mem_insertionSort _).mp hb)
    exact List.inj_on_of_nodup_map hnames ha hb (String.le_antisymm hab hba)
  exact hperm.eq_of_pairwise hone (hsorted ms) (hsorted ns)

theorem sortedMembers_names (ms : List (String × Value F)) :
    (sortedMembers ms).map (·.1) = ms.map (·.1) := by
  rw [sortedMembers_eq, List.map_map]
  rfl

mutual

theorem Same.sorted_eq {v w : Value F} (h : Same v w) (hv : v.distinct = true) :
    v.sorted = w.sorted := by
  cases h with
  | refl => rfl
  | arr h =>
    rw [Value.distinct, itemsDistinct_iff] at hv
    rw [Value.sorted, Value.sorted, h.sorted_eq hv]
  | @obj ms ms' ns hperm h =>
    rw [Value.distinct, Bool.and_eq_true, decide_eq_true_eq, membersDistinct_iff] at hv
    have hms' : sortedMembers ms' = sortedMembers ns :=
      h.sorted_eq fun m hm => hv.2 m (hperm.mem_iff.mpr hm)
    have hsort : sortNames (sortedMembers ms) = sortNames (sortedMembers ms') := by
      apply sortNames_eq_of_perm
      · rw [sortedMembers_eq, sortedMembers_eq]
        exact hperm.map _
      · rw [sortedMembers_names]
        exact hv.1
    rw [Value.sorted, Value.sorted, hsort, hms']

theorem SameItems.sorted_eq {xs ys : List (Value F)} (h : SameItems xs ys)
    (hxs : ∀ x ∈ xs, x.distinct = true) : sortedItems xs = sortedItems ys := by
  cases h with
  | nil => rfl
  | cons h hs =>
    rw [sortedItems, sortedItems, h.sorted_eq (hxs _ List.mem_cons_self),
      hs.sorted_eq fun y hy => hxs y (.tail _ hy)]

theorem SameMembers.sorted_eq {ms ns : List (String × Value F)} (h : SameMembers ms ns)
    (hms : ∀ m ∈ ms, m.2.distinct = true) : sortedMembers ms = sortedMembers ns := by
  cases h with
  | nil => rfl
  | cons h hs =>
    rw [sortedMembers, sortedMembers, h.sorted_eq (hms _ List.mem_cons_self),
      hs.sorted_eq fun m hm => hms m (.tail _ hm)]

end

/-! ## Values that sort alike are the same -/

theorem sameItems_of_sorted {xs ys : List (Value F)}
    (hsame : ∀ x ∈ xs, ∀ y : Value F, x.sorted = y.sorted → Same x y)
    (h : sortedItems xs = sortedItems ys) : SameItems xs ys := by
  induction xs generalizing ys with
  | nil =>
    cases ys with
    | nil => exact .nil
    | cons y ys => cases h
  | cons x xs ih =>
    cases ys with
    | nil => cases h
    | cons y ys =>
      obtain ⟨hxy, hrest⟩ := List.cons.inj h
      exact .cons (hsame x List.mem_cons_self y hxy)
        (ih (fun z hz => hsame z (.tail x hz)) hrest)

theorem sameMembers_of_sorted {ms ns : List (String × Value F)}
    (hsame : ∀ m ∈ ms, ∀ y : Value F, m.2.sorted = y.sorted → Same m.2 y)
    (h : sortedMembers ms = sortedMembers ns) : SameMembers ms ns := by
  induction ms generalizing ns with
  | nil =>
    cases ns with
    | nil => exact .nil
    | cons n ns => cases h
  | cons m ms ih =>
    cases ns with
    | nil => cases h
    | cons n ns =>
      obtain ⟨k, x⟩ := m
      obtain ⟨k', y⟩ := n
      obtain ⟨hhead, hrest⟩ := List.cons.inj h
      obtain ⟨rfl, hxy⟩ := Prod.mk.inj hhead
      exact .cons (hsame (k, x) List.mem_cons_self y hxy)
        (ih (fun m hm => hsame m (.tail _ hm)) hrest)

theorem exists_perm_of_map {α β : Type} {f : α → β} {xs : List α} {ys : List β}
    (h : ys.Perm (xs.map f)) : ∃ zs : List α, ys = zs.map f ∧ zs.Perm xs := by
  have hcomp := congrFun (congrFun (List.eq_map_comp_perm f) ys) xs
  exact hcomp.mpr h

theorem same_of_sorted (v : Value F) : ∀ w : Value F, v.sorted = w.sorted → Same v w := by
  induction v using Value.induct with
  | null | bool | int | float | str =>
    intro w h
    cases w <;> cases h
    exact .refl _
  | arr xs ih =>
    intro w h
    cases w with
    | arr ys =>
      rw [Value.sorted, Value.sorted] at h
      exact .arr (sameItems_of_sorted ih (Value.arr.inj h))
    | _ => cases h
  | obj ms ih =>
    intro w h
    cases w with
    | obj ns =>
      rw [Value.sorted, Value.sorted] at h
      have hsort : sortNames (sortedMembers ms) = sortNames (sortedMembers ns) := Value.obj.inj h
      have hperm : (sortNames (sortedMembers ms)).Perm (sortedMembers ms) :=
        List.perm_insertionSort _ _
      have hperm' : (sortNames (sortedMembers ns)).Perm (sortedMembers ns) :=
        List.perm_insertionSort _ _
      rw [hsort] at hperm
      have hperm := hperm'.symm.trans hperm
      rw [sortedMembers_eq, sortedMembers_eq] at hperm
      obtain ⟨ms', heq, hms'⟩ := exists_perm_of_map hperm
      apply Same.obj hms'.symm
      apply sameMembers_of_sorted fun m hm => ih m (hms'.mem_iff.mp hm)
      rw [sortedMembers_eq, sortedMembers_eq]
      exact heq.symm
    | _ => cases h

/-- **Sorting decides sameness**, for values without repeated names. -/
theorem sorted_eq_iff {v w : Value F} (hv : v.distinct = true) : v.sorted = w.sorted ↔ Same v w := by
  constructor
  · intro h
    exact same_of_sorted v w h
  · intro h
    exact h.sorted_eq hv

/-- Sorting neither adds floats nor drops any. -/
theorem mem_floats_sorted {f : F} (v : Value F) : f ∈ v.sorted.floats ↔ f ∈ v.floats := by
  induction v using Value.induct with
  | null | bool | int | float | str => exact Iff.rfl
  | arr xs ih =>
    have hitems : f ∈ itemFloats (sortedItems xs) ↔ f ∈ itemFloats xs := by
      induction xs with
      | nil => exact Iff.rfl
      | cons x xs ihx =>
        rw [sortedItems, itemFloats, itemFloats, List.mem_append, List.mem_append,
          ih x List.mem_cons_self, ihx fun y hy => ih y (.tail x hy)]
    exact hitems
  | obj ms ih =>
    rw [Value.sorted, Value.floats, Value.floats, mem_memberFloats, mem_memberFloats]
    have hsort : ∀ m, m ∈ sortNames (sortedMembers ms) ↔ ∃ n ∈ ms, (n.1, n.2.sorted) = m := by
      intro m
      rw [sortNames, List.mem_insertionSort, sortedMembers_eq, List.mem_map]
    constructor
    · intro h
      obtain ⟨m, hm, hf⟩ := h
      obtain ⟨n, hn, rfl⟩ := (hsort m).mp hm
      exact ⟨n, hn, (ih n hn).mp hf⟩
    · intro h
      obtain ⟨n, hn, hf⟩ := h
      exact ⟨_, (hsort _).mpr ⟨n, hn, rfl⟩, (ih n hn).mpr hf⟩

end Order

end JsonText

end Library
