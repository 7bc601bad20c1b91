import Mathlib.Data.List.Basic
import Mathlib.Data.List.Nodup
import Mathlib.Data.List.Sort

/-!
# Keyed tables

A list of rows in insertion order in which no two rows have the same key: a table with
a primary key, or a dictionary in insertion order. The key constraint is a field, so a
table with a duplicate key cannot be built.
-/
namespace Library

structure Table (α κ : Type) (key : α → κ) where
  rows : List α
  nodup : (rows.map key).Nodup

namespace Table

variable {α κ : Type} {key : α → κ}

theorem ext' {t t' : Table α κ key} (h : t.rows = t'.rows) : t = t' := by
  cases t; cases t'; simp only at h; subst h; rfl

def empty : Table α κ key := ⟨[], List.nodup_nil⟩

variable [DecidableEq κ]

def find? (t : Table α κ key) (k : κ) : Option α := t.rows.find? fun a => key a = k

theorem find?_eq_some_iff {t : Table α κ key} {k : κ} {a : α} :
    t.find? k = some a ↔ a ∈ t.rows ∧ key a = k := by
  constructor
  · intro h
    exact ⟨List.mem_of_find?_eq_some h, by simpa using List.find?_some h⟩
  · rintro ⟨hm, rfl⟩
    cases hf : t.find? (key a) with
    | none =>
      have := List.find?_eq_none.mp hf a hm
      simp at this
    | some b =>
      have hb : key b = key a := by simpa using List.find?_some hf
      have hbm : b ∈ t.rows := List.mem_of_find?_eq_some hf
      rw [List.inj_on_of_nodup_map t.nodup hbm hm hb]

theorem find?_eq_none_iff {t : Table α κ key} {k : κ} :
    t.find? k = none ↔ ∀ a ∈ t.rows, key a ≠ k := by
  simp [find?, List.find?_eq_none]

/-- Append a row whose key is new. -/
def insert (t : Table α κ key) (a : α) (h : key a ∉ t.rows.map key) : Table α κ key where
  rows := t.rows ++ [a]
  nodup := by
    rw [List.map_append, List.map_singleton]
    exact t.nodup.append (List.nodup_singleton _) (by simpa using h)

/-- `UPDATE … SET f WHERE p`: keys are never changed by an update. -/
def updateWhere (t : Table α κ key) (p : α → Bool) (f : α → α)
    (hf : ∀ a, key (f a) = key a) : Table α κ key where
  rows := t.rows.map fun a => if p a then f a else a
  nodup := by
    have h : (key ∘ fun a => if p a then f a else a) = key := by
      funext a
      simp only [Function.comp]
      split
      · exact hf a
      · rfl
    rw [List.map_map, h]
    exact t.nodup

/-- Replace the row with key `k`, if there is one. -/
def modify (t : Table α κ key) (k : κ) (f : α → α) (hf : ∀ a, key (f a) = key a) :
    Table α κ key :=
  t.updateWhere (fun a => key a = k) f hf

/-- `d[k] = v`: the row with the key of `a` is replaced in its place, or `a` is appended. -/
def put (t : Table α κ key) (a : α) : Table α κ key :=
  if h : key a ∈ t.rows.map key then
    t.updateWhere (fun b => key b = key a) (fun b => if key b = key a then a else b) fun b => by
      split
      next hb => exact hb.symm
      next => rfl
  else t.insert a h

/-- `d.pop(k, None)`. -/
def erase (t : Table α κ key) (k : κ) : Table α κ key where
  rows := t.rows.filter fun a => key a ≠ k
  nodup := t.nodup.sublist (List.filter_sublist.map key)

/-- The number of rows an `UPDATE … WHERE p` reports. -/
def countWhere (t : Table α κ key) (p : α → Bool) : Nat := (t.rows.filter p).length

variable {t : Table α κ key} {p : α → Bool} {f : α → α} {k k' : κ}

theorem find?_updateWhere (hf : ∀ a, key (f a) = key a) :
    (t.updateWhere p f hf).find? k = (t.find? k).map fun a => if p a then f a else a := by
  have hk : ∀ a, key (if p a then f a else a) = key a := by
    intro a; split
    · exact hf a
    · rfl
  simp only [find?, updateWhere, List.find?_map, Function.comp_def, hk]

theorem find?_modify (hf : ∀ a, key (f a) = key a) :
    (t.modify k f hf).find? k' = if k' = k then (t.find? k).map f else t.find? k' := by
  rw [modify, find?_updateWhere]
  cases h : t.find? k' with
  | none =>
    by_cases hk : k' = k
    · subst hk; simp [h]
    · simp [hk]
  | some a =>
    obtain ⟨-, rfl⟩ := find?_eq_some_iff.mp h
    by_cases hk : key a = k
    · subst hk; simp [h]
    · simp [hk]

@[simp] theorem find?_modify_self (hf : ∀ a, key (f a) = key a) :
    (t.modify k f hf).find? k = (t.find? k).map f := by
  rw [find?_modify, if_pos rfl]

theorem find?_modify_of_ne (hf : ∀ a, key (f a) = key a) (h : k' ≠ k) :
    (t.modify k f hf).find? k' = t.find? k' := by
  rw [find?_modify, if_neg h]

theorem find?_insert {a : α} (h : key a ∉ t.rows.map key) :
    (t.insert a h).find? k = if k = key a then some a else t.find? k := by
  simp only [find?, insert, List.find?_append]
  by_cases hk : k = key a
  · have hn : t.rows.find? (fun b => decide (key b = k)) = none := by
      rw [List.find?_eq_none]
      intro b hb hbk
      exact h (List.mem_map.mpr ⟨b, hb, by simpa [hk] using hbk⟩)
    rw [hn]
    simp [hk]
  · rw [if_neg hk]
    have : ¬ key a = k := fun e => hk e.symm
    simp [this]

/-- A key that the table has selects exactly one row. -/
theorem countWhere_key (h : t.find? k ≠ none) : t.countWhere (fun a => key a = k) = 1 := by
  obtain ⟨a, ha⟩ := Option.ne_none_iff_exists'.mp h
  obtain ⟨hm, hk⟩ := find?_eq_some_iff.mp ha
  have hall : ∀ b ∈ t.rows.filter (fun a => decide (key a = k)), b = a := by
    intro b hb
    simp only [List.mem_filter, decide_eq_true_eq] at hb
    exact List.inj_on_of_nodup_map t.nodup hb.1 hm (hb.2.trans hk.symm)
  have hnd : (t.rows.filter fun a => decide (key a = k)).Nodup :=
    (t.nodup.of_map key).filter _
  have hmem : a ∈ t.rows.filter fun a => decide (key a = k) := by simp [hm, hk]
  rw [countWhere]
  match hl : t.rows.filter fun a => decide (key a = k) with
  | [] => rw [hl] at hmem; simp at hmem
  | [b] => rfl
  | b :: c :: rest =>
    rw [hl] at hall hnd
    have hb := hall b (by simp)
    have hc := hall c (by simp)
    simp [hb, hc] at hnd

theorem countWhere_and_key {q : α → Bool} {a : α} (h : t.find? k = some a) :
    t.countWhere (fun b => key b = k ∧ q b) = if q a then 1 else 0 := by
  have hone := countWhere_key (t := t) (k := k) (by simp [h])
  obtain ⟨hm, hk⟩ := find?_eq_some_iff.mp h
  have hrows : t.rows.filter (fun b => decide (key b = k)) = [a] := by
    obtain ⟨b, hb⟩ := List.length_eq_one_iff.mp hone
    have : a ∈ t.rows.filter (fun b => decide (key b = k)) := by simp [hm, hk]
    rw [hb] at this ⊢
    rw [List.mem_singleton.mp this]
  have : t.rows.filter (fun b => decide (key b = k ∧ q b = true)) =
      (t.rows.filter fun b => decide (key b = k)).filter q := by
    rw [List.filter_filter]
    congr 1; funext b; simp [Bool.and_comm]
  rw [countWhere, this, hrows]
  by_cases hq : q a <;> simp [hq]

theorem countWhere_eq_zero (h : t.find? k = none) {q : α → Bool} :
    t.countWhere (fun b => key b = k ∧ q b) = 0 := by
  rw [countWhere, List.length_eq_zero_iff, List.filter_eq_nil_iff]
  intro b hb
  have := find?_eq_none_iff.mp h b hb
  simp [this]

omit [DecidableEq κ] in
/-- Updates that agree on the rows of the table are the same update. -/
theorem updateWhere_congr {q : α → Bool} {g : α → α} (hf : ∀ a, key (f a) = key a)
    (hg : ∀ a, key (g a) = key a)
    (h : ∀ a ∈ t.rows, (if p a then f a else a) = if q a then g a else a) :
    t.updateWhere p f hf = t.updateWhere q g hg :=
  ext' (List.map_congr_left h)

omit [DecidableEq κ] in
theorem updateWhere_eq_self (hf : ∀ a, key (f a) = key a) (h : ∀ a ∈ t.rows, p a = false) :
    t.updateWhere p f hf = t := by
  refine ext' (?_ : t.rows.map (fun a => if p a then f a else a) = t.rows)
  conv_rhs => rw [← List.map_id t.rows]
  exact List.map_congr_left fun a ha => by simp [h a ha]

theorem mem_modify {a : α} (hf : ∀ a, key (f a) = key a) :
    a ∈ (t.modify k f hf).rows ↔ ∃ b ∈ t.rows, (if key b = k then f b else b) = a := by
  simp [modify, updateWhere]

/-- The rows after the update of one: the row updated, and the others. -/
theorem mem_modify_iff {a b : α} (hf : ∀ a, key (f a) = key a) (h : t.find? k = some a) :
    b ∈ (t.modify k f hf).rows ↔ b = f a ∨ b ∈ t.rows ∧ key b ≠ k := by
  obtain ⟨ha, hk⟩ := find?_eq_some_iff.mp h
  rw [mem_modify]
  constructor
  · intro hb
    obtain ⟨c, hc, rfl⟩ := hb
    by_cases hck : key c = k
    · obtain rfl : c = a := Option.some.inj ((find?_eq_some_iff.mpr ⟨hc, hck⟩).symm.trans h)
      exact .inl (if_pos hck)
    · rw [if_neg hck]
      exact .inr ⟨hc, hck⟩
  · intro hb
    rcases hb with rfl | ⟨hb, hne⟩
    · exact ⟨a, ha, if_pos hk⟩
    · exact ⟨b, hb, if_neg hne⟩

/-- An update that leaves its row as it is. -/
theorem modify_eq_self (hf : ∀ a, key (f a) = key a) {a : α} (h : t.find? k = some a)
    (ha : f a = a) : t.modify k f hf = t := by
  refine ext' ((List.map_congr_left fun b hb => ?_).trans (List.map_id t.rows))
  split
  next hk =>
    obtain rfl : b = a := Option.some.inj
      ((find?_eq_some_iff.mpr ⟨hb, of_decide_eq_true hk⟩).symm.trans h)
    exact ha
  next => rfl

theorem map_key_modify (hf : ∀ a, key (f a) = key a) :
    (t.modify k f hf).rows.map key = t.rows.map key := by
  simp only [modify, updateWhere, List.map_map]
  refine List.map_congr_left fun a _ => ?_
  simp only [Function.comp]
  split
  · exact hf a
  · rfl

theorem mem_put {a b : α} : b ∈ (t.put a).rows ↔ b = a ∨ b ∈ t.rows ∧ key b ≠ key a := by
  unfold put
  split
  next h =>
    obtain ⟨c, hc, hk⟩ := List.mem_map.mp h
    simp only [updateWhere, List.mem_map]
    constructor
    · rintro ⟨x, hx, rfl⟩
      by_cases hxa : key x = key a <;> simp [hxa, hx]
    · rintro (rfl | ⟨hb, hne⟩)
      · exact ⟨c, hc, by simp [hk]⟩
      · exact ⟨b, hb, by simp [hne]⟩
  next h =>
    rw [insert, List.mem_append, List.mem_singleton, or_comm]
    refine or_congr_right ⟨fun hb => ⟨hb, fun hk => h ?_⟩, And.left⟩
    exact hk ▸ List.mem_map_of_mem hb

theorem mem_erase {a : α} : a ∈ (t.erase k).rows ↔ a ∈ t.rows ∧ key a ≠ k := by
  simp [erase, List.mem_filter]

theorem length_put_le (a : α) : (t.put a).rows.length ≤ t.rows.length + 1 := by
  unfold put
  split
  · simp [updateWhere]
  · simp [insert]

/-- The rows of a table are what its lookups return. -/
theorem mem_rows_iff {a : α} : a ∈ t.rows ↔ t.find? (key a) = some a := by
  simp [find?_eq_some_iff]

/-- The row with a given key, and the rows around it. -/
theorem split_rows {a : α} (h : t.find? k = some a) : ∃ before after, t.rows = before ++ a :: after ∧
    key a = k ∧ (∀ b ∈ before, key b ≠ k) ∧ ∀ b ∈ after, key b ≠ k := by
  obtain ⟨hm, rfl⟩ := find?_eq_some_iff.mp h
  obtain ⟨before, after, hrows⟩ := List.append_of_mem hm
  have hnodup := t.nodup
  rw [hrows, List.map_append, List.map_cons, List.nodup_append, List.nodup_cons] at hnodup
  obtain ⟨-, ⟨hafter, -⟩, hbefore⟩ := hnodup
  refine ⟨before, after, hrows, rfl, fun b hb he => ?_, fun b hb he => ?_⟩
  · exact hbefore _ (List.mem_map_of_mem hb) _ List.mem_cons_self he
  · exact hafter (he ▸ List.mem_map_of_mem hb)

/-- Two counts that differ in one row at most. -/
theorem countP_congr_at {p q : α → Bool} {a : α} (h : t.find? k = some a)
    (hne : ∀ b ∈ t.rows, key b ≠ k → q b = p b) :
    t.rows.countP q + (if p a then 1 else 0) = t.rows.countP p + if q a then 1 else 0 := by
  obtain ⟨before, after, hrows, -, hb, ha⟩ := split_rows h
  have hbefore : before.countP q = before.countP p := List.countP_congr fun b hm => by
    rw [hne b (by rw [hrows]; exact List.mem_append_left _ hm) (hb b hm)]
  have hafter : after.countP q = after.countP p := List.countP_congr fun b hm => by
    rw [hne b (by rw [hrows]; exact List.mem_append_right _ (List.mem_cons_of_mem _ hm)) (ha b hm)]
  rw [hrows]
  simp only [List.countP_append, List.countP_cons, hbefore, hafter]
  omega

/-- What an update of one row does to a count. -/
theorem countP_modify {q : α → Bool} {a : α} (hf : ∀ a, key (f a) = key a) (h : t.find? k = some a) :
    (t.modify k f hf).rows.countP q + (if q a then 1 else 0) =
      t.rows.countP q + if q (f a) then 1 else 0 := by
  have hk := (find?_eq_some_iff.mp h).2
  have hmap : (t.modify k f hf).rows.countP q =
      t.rows.countP fun b => q (if key b = k then f b else b) := by
    simp only [modify, updateWhere, List.countP_map, Function.comp_def, decide_eq_true_eq]
  rw [hmap, countP_congr_at (q := fun b => q (if key b = k then f b else b)) h fun b _ hne => by
    rw [if_neg hne], if_pos hk]

/-- A row that replaces another or is new adds one at most to a count, and nothing to a count
that it does not enter. -/
theorem countP_put_le (q : α → Bool) (a : α) :
    (t.put a).rows.countP q ≤ t.rows.countP q + if q a then 1 else 0 := by
  unfold put
  split
  next h =>
    obtain ⟨c, hc, hk⟩ := List.mem_map.mp h
    obtain ⟨before, after, hrows, hkc, hb, ha⟩ := split_rows (mem_rows_iff.mp hc)
    have hsame : ∀ l : List α, (∀ b ∈ l, key b ≠ key c) →
        l.map (fun b => if decide (key b = key a) = true then
          (if key b = key a then a else b) else b) = l := by
      intro l hl
      conv_rhs => rw [← List.map_id l]
      exact List.map_congr_left fun b hb => by simp [← hk, hl b hb]
    change (t.rows.map fun b => if decide (key b = key a) = true then
      (if key b = key a then a else b) else b).countP q ≤ _
    rw [hrows, List.map_append, List.map_cons, hsame _ hb, hsame _ ha]
    simp only [hk, decide_true, if_true, List.countP_append, List.countP_cons]
    omega
  next h => simp [insert, List.countP_append, List.countP_cons]

theorem countP_erase_le (q : α → Bool) (k : κ) :
    (t.erase k).rows.countP q ≤ t.rows.countP q :=
  List.Sublist.countP_le List.filter_sublist

end Table

/-- A count of fewer kinds of elements that is no lower leaves out none of them. -/
theorem countP_eq_iff_of_imp {α : Type} {l : List α} {p q : α → Bool}
    (h : ∀ a ∈ l, p a = true → q a = true) :
    l.countP p = l.countP q ↔ ∀ a ∈ l, q a = true → p a = true := by
  refine ⟨fun heq => ?_, fun hle => List.countP_congr fun a ha => ⟨h a ha, hle a ha⟩⟩
  induction l with
  | nil => nofun
  | cons a l ih =>
    obtain ⟨ha, hl⟩ := List.forall_mem_cons.mp h
    have hmono := List.countP_mono_left hl
    rw [List.countP_cons, List.countP_cons] at heq
    refine List.forall_mem_cons.mpr ⟨fun hq => ?_, ih hl ?_⟩
    · refine Classical.byContradiction fun hp => ?_
      rw [if_neg hp, if_pos hq] at heq
      omega
    · split at heq
      next hp =>
        rw [if_pos (ha hp)] at heq
        omega
      next =>
        split at heq <;> omega

/-! ## Ordering a selection -/

section Sorting

variable {α : Type} {r : α → α → Prop} [DecidableRel r] [IsTrans α r]

private theorem filter_orderedInsert {p : α → Bool} (a : α) {l : List α} (hl : l.Pairwise r) :
    (l.orderedInsert r a).filter p =
      if p a then (l.filter p).orderedInsert r a else l.filter p := by
  induction l with
  | nil => by_cases hp : p a <;> simp [hp]
  | cons b l ih =>
    obtain ⟨hb, hl⟩ := List.pairwise_cons.mp hl
    by_cases hab : r a b
    · rw [List.orderedInsert_cons_of_le _ _ hab]
      by_cases hp : p a
      · rw [if_pos hp, List.filter_cons_of_pos hp]
        cases hf : (b :: l).filter p with
        | nil => rfl
        | cons c rest =>
          have hc : c ∈ b :: l := List.mem_of_mem_filter (by rw [hf]; exact List.mem_cons_self)
          have hac : r a c := by
            rcases List.mem_cons.mp hc with rfl | hc
            · exact hab
            · exact IsTrans.trans _ _ _ hab (hb c hc)
          rw [List.orderedInsert_cons_of_le _ _ hac]
      · rw [if_neg hp, List.filter_cons_of_neg hp]
    · rw [List.orderedInsert_of_not_le _ _ hab]
      by_cases hpb : p b
      · rw [List.filter_cons_of_pos hpb, ih hl, List.filter_cons_of_pos hpb]
        by_cases hp : p a
        · rw [if_pos hp, if_pos hp, List.orderedInsert_of_not_le _ _ hab]
        · rw [if_neg hp, if_neg hp]
      · rw [List.filter_cons_of_neg hpb, ih hl, List.filter_cons_of_neg hpb]

/-- `WHERE` before or after a stable `ORDER BY` selects the same rows in the same order. -/
theorem filter_insertionSort [Std.Total r] (p : α → Bool) (l : List α) :
    (l.insertionSort r).filter p = (l.filter p).insertionSort r := by
  induction l with
  | nil => rfl
  | cons a l ih =>
    rw [List.insertionSort_cons, filter_orderedInsert a (List.pairwise_insertionSort r l), ih]
    by_cases hp : p a
    · rw [if_pos hp, List.filter_cons_of_pos hp, List.insertionSort_cons]
    · rw [if_neg hp, List.filter_cons_of_neg hp]

end Sorting
end Library
