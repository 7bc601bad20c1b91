import FineTuneHarness.Evaluation.Comparator

/-!
# `==` does not depend on the side

Two dictionaries are equal where every entry of one has its match in the other and there are
as many. No key of a dictionary occurs twice, so the matches use up the other side.
-/
namespace FineTuneHarness

/-- Where every `x` has a partner among the `ys`, no two of them the same one, and there are no
more `ys` than `xs`, every `y` has a partner. -/
theorem partners_both_ways {α β : Type} {R : α → β → Prop} {xs : List α} {ys : List β}
    (hpartner : ∀ x ∈ xs, ∃ y ∈ ys, R x y) (hlen : ys.length ≤ xs.length)
    (hown : xs.Pairwise fun x x' => ∀ y, R x y → ¬ R x' y) : ∀ y ∈ ys, ∃ x ∈ xs, R x y := by
  induction xs generalizing ys with
  | nil =>
    intro y hy
    rw [List.length_eq_zero_iff.mp (Nat.le_zero.mp hlen)] at hy
    cases hy
  | cons x xs ih =>
    obtain ⟨hx, hown⟩ := List.pairwise_cons.mp hown
    obtain ⟨y, hy, hxy⟩ := hpartner x List.mem_cons_self
    obtain ⟨before, after, rfl⟩ := List.append_of_mem hy
    -- the partner of `x` is nobody else's
    have hrest : ∀ x' ∈ xs, ∃ y' ∈ before ++ after, R x' y' := by
      intro x' hx'
      obtain ⟨y', hy', hxy'⟩ := hpartner x' (List.mem_cons_of_mem _ hx')
      refine ⟨y', ?_, hxy'⟩
      have hne : y' ≠ y := by
        rintro rfl
        exact hx x' hx' y' hxy hxy'
      simp only [List.mem_append, List.mem_cons] at hy' ⊢
      rcases hy' with h | h | h
      · exact .inl h
      · exact absurd h hne
      · exact .inr h
    have hlen' : (before ++ after).length ≤ xs.length := by
      simp only [List.length_append, List.length_cons] at hlen ⊢
      omega
    intro z hz
    by_cases hzy : z = y
    · exact ⟨x, List.mem_cons_self, hzy ▸ hxy⟩
    · have hz' : z ∈ before ++ after := by
        simp only [List.mem_append, List.mem_cons] at hz ⊢
        rcases hz with h | h | h
        · exact .inl h
        · exact absurd h hzy
        · exact .inr h
      obtain ⟨x', hx', hxz⟩ := ih hrest hlen' hown z hz'
      exact ⟨x', List.mem_cons_of_mem _ hx', hxz⟩

/-! ## Keys -/

namespace PyKey

/-- What a key is equal by; nothing for a key that is equal to none. -/
def canonical? : PyKey → Option PyKey
  | .str s => some (.str s)
  | .none => some .none
  | k => (k.number?.filter (· ≠ .nan)).map .float

theorem eq_iff {k k' : PyKey} :
    k.eq k' = true ↔ ∃ c, k.canonical? = some c ∧ k'.canonical? = some c := by
  cases k <;> cases k' <;> simp [eq, canonical?, number?]
  all_goals grind

theorem eq_symm (k k' : PyKey) : k.eq k' = k'.eq k := by
  apply Bool.eq_iff_iff.mpr
  rw [eq_iff, eq_iff]
  exact exists_congr fun c => And.comm

theorem eq_trans {k k' k'' : PyKey} (h : k.eq k' = true) (h' : k'.eq k'' = true) :
    k.eq k'' = true := by
  obtain ⟨c, hk, hk'⟩ := eq_iff.mp h
  obtain ⟨c', hc, hk''⟩ := eq_iff.mp h'
  rw [hk'] at hc
  obtain rfl := Option.some.inj hc
  exact eq_iff.mpr ⟨c, hk, hk''⟩

/-- A string is equal to itself alone. -/
theorem eq_str (s : String) (k : PyKey) : (PyKey.str s).eq k = decide (k = .str s) := by
  cases k with
  | str s' => simp [PyKey.eq, Eq.comm]
  | _ => rfl

end PyKey

/-! ## Values -/

mutual

/-- No dictionary in the value has a key twice. -/
def PyVal.wellKeyed : PyVal → Bool
  | .list xs => wellKeyedList xs
  | .dict d => wellKeyedItems d
  | _ => true

def wellKeyedList : List PyVal → Bool
  | [] => true
  | x :: xs => x.wellKeyed && wellKeyedList xs

def wellKeyedItems : List (PyKey × PyVal) → Bool
  | [] => true
  | (k, v) :: rest => rest.all (fun kv => !k.eq kv.1) && v.wellKeyed && wellKeyedItems rest

end

section Items

variable {d d' : Dict}

theorem keys_of_wellKeyed (h : wellKeyedItems d = true) :
    d.Pairwise fun p q => p.1.eq q.1 = false := by
  induction d with
  | nil => exact .nil
  | cons kv d ih =>
    obtain ⟨k, v⟩ := kv
    simp only [wellKeyedItems, Bool.and_eq_true, List.all_eq_true, Bool.not_eq_true'] at h
    exact .cons (fun q hq => h.1.1 q hq) (ih h.2)

theorem values_of_wellKeyed (h : wellKeyedItems d = true) : ∀ p ∈ d, p.2.wellKeyed = true := by
  induction d with
  | nil => simp
  | cons kv d ih =>
    obtain ⟨k, v⟩ := kv
    simp only [wellKeyedItems, Bool.and_eq_true] at h
    intro p hp
    rcases List.mem_cons.mp hp with rfl | hp
    · exact h.1.2
    · exact ih h.2 p hp

/-- Each key belongs to one entry at most. -/
theorem find_of_eq {β : Type} {l : List (PyKey × β)}
    (h : l.Pairwise fun p q => p.1.eq q.1 = false) {p : PyKey × β} (hp : p ∈ l) {k : PyKey}
    (hk : k.eq p.1 = true) : l.find? (fun q => k.eq q.1) = some p := by
  induction l with
  | nil => cases hp
  | cons q l ih =>
    obtain ⟨hq, h⟩ := List.pairwise_cons.mp h
    rcases List.mem_cons.mp hp with rfl | hp
    · exact List.find?_cons_of_pos hk
    · have hno : k.eq q.1 = false := by
        by_contra hyes
        have hqk : q.1.eq k = true := by
          rw [PyKey.eq_symm]
          exact Bool.not_eq_false _ ▸ hyes
        have hsame := PyKey.eq_trans hqk hk
        rw [hq p hp] at hsame
        cases hsame
      rw [List.find?_cons_of_neg (by rw [hno]; exact Bool.false_ne_true)]
      exact ih h hp

theorem eqItems_iff (d d' : Dict) : eqItems d d' = true ↔
    ∀ p ∈ d, ∃ q, d'.find? (fun q => p.1.eq q.1) = some q ∧ p.2.eq q.2 = true := by
  induction d with
  | nil => simp [eqItems]
  | cons kv d ih =>
    obtain ⟨k, v⟩ := kv
    rw [eqItems, Bool.and_eq_true, ih, List.forall_mem_cons]
    apply and_congr_left
    intro _
    dsimp only
    split
    next q hq =>
      rw [hq]
      simp
    next hq =>
      rw [hq]
      simp

/-- Equality of dictionaries, given that of the values on the left turned round. -/
theorem eqItems_turned (hd : wellKeyedItems d = true) (hd' : wellKeyedItems d' = true)
    (hlen : d.length = d'.length)
    (hvalues : ∀ p ∈ d, ∀ w : PyVal, w.wellKeyed = true → p.2.eq w = true → w.eq p.2 = true)
    (h : eqItems d d' = true) : eqItems d' d = true := by
  have hmatch : ∀ p ∈ d, ∃ q ∈ d', p.1.eq q.1 = true ∧ p.2.eq q.2 = true := by
    intro p hp
    obtain ⟨q, hfind, hv⟩ := (eqItems_iff _ _).mp h p hp
    have hk : p.1.eq q.1 = true := by simpa using List.find?_some hfind
    exact ⟨q, List.mem_of_find?_eq_some hfind, hk, hv⟩
  have hown : d.Pairwise fun p p' => ∀ q : PyKey × PyVal,
      p.1.eq q.1 = true ∧ p.2.eq q.2 = true → ¬ (p'.1.eq q.1 = true ∧ p'.2.eq q.2 = true) := by
    apply (keys_of_wellKeyed hd).imp
    intro p p' hne q hp hp'
    have hback : q.1.eq p'.1 = true := by
      rw [PyKey.eq_symm]
      exact hp'.1
    have hsame := PyKey.eq_trans hp.1 hback
    rw [hne] at hsame
    cases hsame
  apply (eqItems_iff _ _).mpr
  intro q hq
  obtain ⟨p, hp, hk, hv⟩ := partners_both_ways hmatch (le_of_eq hlen.symm) hown q hq
  refine ⟨p, find_of_eq (keys_of_wellKeyed hd) hp ?_, ?_⟩
  · rw [PyKey.eq_symm]
    exact hk
  · exact hvalues p hp q.2 (values_of_wellKeyed hd' q hq) hv

end Items

mutual

theorem PyVal.eq_turned (v w : PyVal) (hv : v.wellKeyed = true) (hw : w.wellKeyed = true)
    (h : v.eq w = true) : w.eq v = true := by
  cases v with
  | list xs =>
    cases w with
    | list ys => exact eqList_turned xs ys hv hw h
    | _ => cases h
  | dict d =>
    cases w with
    | dict d' =>
      rw [PyVal.eq, Bool.and_eq_true, decide_eq_true_eq] at h ⊢
      exact ⟨h.1.symm, eqItems_turned hv hw h.1 (items_turned d hv) h.2⟩
    | _ => cases h
  | _ =>
    cases w <;> simp [PyVal.eq, Validator.number?] at h ⊢ <;> grind

theorem eqList_turned (xs ys : List PyVal) (hx : wellKeyedList xs = true)
    (hy : wellKeyedList ys = true) (h : eqList xs ys = true) : eqList ys xs = true := by
  cases xs with
  | nil =>
    cases ys with
    | nil => rfl
    | cons y ys => cases h
  | cons x xs =>
    cases ys with
    | nil => cases h
    | cons y ys =>
      rw [wellKeyedList, Bool.and_eq_true] at hx hy
      rw [eqList, Bool.and_eq_true] at h ⊢
      exact ⟨x.eq_turned y hx.1 hy.1 h.1, eqList_turned xs ys hx.2 hy.2 h.2⟩

theorem items_turned (d : List (PyKey × PyVal)) (hd : wellKeyedItems d = true) :
    ∀ p ∈ d, ∀ w : PyVal, w.wellKeyed = true → p.2.eq w = true → w.eq p.2 = true := by
  cases d with
  | nil => simp
  | cons kv d =>
    obtain ⟨k, v⟩ := kv
    simp only [wellKeyedItems, Bool.and_eq_true] at hd
    intro p hp w hw h
    rcases List.mem_cons.mp hp with rfl | hp
    · exact v.eq_turned w hd.1.2 hw h
    · exact items_turned d hd.2 p hp w hw h

end

theorem PyVal.eq_symm {v w : PyVal} (hv : v.wellKeyed = true) (hw : w.wellKeyed = true) :
    v.eq w = w.eq v :=
  Bool.eq_iff_iff.mpr ⟨v.eq_turned w hv hw, w.eq_turned v hw hv⟩

end FineTuneHarness
