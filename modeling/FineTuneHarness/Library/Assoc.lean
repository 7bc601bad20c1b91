import Mathlib.Data.List.Perm.Basic
import Mathlib.Data.List.Nodup

/-!
# Dictionaries as association lists

Keys in the order in which they came, each once. `upsert` changes the value of a key or adds the
key; updating one dictionary by another and collecting values under their keys are folds of it.
-/
namespace Library

namespace Assoc

variable {κ β : Type} [DecidableEq κ]

/-- A key keeps its place and has its value changed; a new key comes last. -/
def upsert (k : κ) (f : Option β → β) : List (κ × β) → List (κ × β)
  | [] => [(k, f none)]
  | (k', b) :: d => if k' = k then (k', f (some b)) :: d else (k', b) :: upsert k f d

/-- `{**d, **d'}`. -/
def merge (d d' : List (κ × β)) : List (κ × β) :=
  d'.foldl (fun d kv => upsert kv.1 (fun _ => kv.2) d) d

/-- `groups.setdefault(k, []).append(v)`. -/
def append (groups : List (κ × List β)) (kv : κ × β) : List (κ × List β) :=
  upsert kv.1 (fun b => b.getD [] ++ [kv.2]) groups

/-- Values collected under their keys. -/
def collect (kvs : List (κ × β)) : List (κ × List β) := kvs.foldl append []

variable {k k' : κ} {d d' : List (κ × β)}

theorem lookup_cons_of_ne {b : β} (h : k' ≠ k) : ((k, b) :: d).lookup k' = d.lookup k' := by
  rw [List.lookup_cons, beq_false_of_ne h]

theorem lookup_of_not_mem (h : k ∉ d.map (·.1)) : d.lookup k = none := by
  rw [List.lookup_eq_none_iff]
  intro kv hkv
  apply bne_iff_ne.mpr
  intro hk
  exact h (hk ▸ List.mem_map_of_mem hkv)

theorem mem_iff_lookup {b : β} (hd : (d.map (·.1)).Nodup) : (k, b) ∈ d ↔ d.lookup k = some b := by
  induction d with
  | nil => exact iff_of_false List.not_mem_nil fun h => by cases h
  | cons kv d ih =>
    obtain ⟨k₀, b₀⟩ := kv
    obtain ⟨hk₀, hd⟩ := List.nodup_cons.mp hd
    by_cases h : k = k₀
    · subst h
      have hnot : (k, b) ∉ d := fun hmem =>
        hk₀ (List.mem_map.mpr ⟨(k, b), hmem, rfl⟩)
      simp [hnot, eq_comm]
    · rw [lookup_cons_of_ne h, ← ih hd, List.mem_cons]
      exact or_iff_right fun heq => h (congrArg Prod.fst heq)

/-- Of the items, those whose values pass. -/
theorem lookup_filter (p : β → Bool) (hd : (d.map (·.1)).Nodup) :
    (d.filter fun kv => p kv.2).lookup k = (d.lookup k).filter p := by
  induction d with
  | nil => rfl
  | cons kv d ih =>
    obtain ⟨k₀, b⟩ := kv
    obtain ⟨hk₀, hd⟩ := List.nodup_cons.mp hd
    rw [List.filter_cons]
    by_cases h : k = k₀
    · subst h
      have hnone : (d.filter fun kv => p kv.2).lookup k = none := by
        apply lookup_of_not_mem
        intro hmem
        exact hk₀ ((List.filter_sublist.map _).subset hmem)
      cases hb : p b with
      | true => simp [Option.filter, hb]
      | false => simp [Option.filter, hb, hnone]
    · cases hb : p b with
      | true => rw [if_pos rfl, lookup_cons_of_ne h, lookup_cons_of_ne h, ih hd]
      | false => rw [if_neg Bool.false_ne_true, lookup_cons_of_ne h, ih hd]

theorem lookup_upsert (f : Option β → β) :
    (upsert k f d).lookup k' = if k' = k then some (f (d.lookup k)) else d.lookup k' := by
  induction d with
  | nil =>
    by_cases h : k' = k
    · simp [upsert, h]
    · simp [upsert, h]
  | cons kv d ih =>
    obtain ⟨k₀, b⟩ := kv
    by_cases h₀ : k₀ = k
    · subst h₀
      rw [upsert, if_pos rfl]
      by_cases h : k' = k₀
      · simp [h]
      · rw [lookup_cons_of_ne h, lookup_cons_of_ne h, if_neg h]
    · rw [upsert, if_neg h₀, lookup_cons_of_ne (Ne.symm h₀)]
      by_cases h : k' = k₀
      · subst h
        simp [h₀]
      · rw [lookup_cons_of_ne h, lookup_cons_of_ne h, ih]

theorem upsert_of_not_mem (f : Option β → β) (h : k ∉ d.map (·.1)) :
    upsert k f d = d ++ [(k, f none)] := by
  induction d with
  | nil => rfl
  | cons kv d ih =>
    obtain ⟨k₀, b⟩ := kv
    rw [List.map_cons, List.mem_cons, not_or] at h
    rw [upsert, if_neg (Ne.symm h.1), ih h.2, List.cons_append]

theorem keys_upsert_of_mem (f : Option β → β) (h : k ∈ d.map (·.1)) :
    (upsert k f d).map (·.1) = d.map (·.1) := by
  induction d with
  | nil => cases h
  | cons kv d ih =>
    obtain ⟨k₀, b⟩ := kv
    by_cases h₀ : k₀ = k
    · rw [upsert, if_pos h₀]
      rfl
    · have hmem : k ∈ d.map (·.1) := (List.mem_cons.mp h).resolve_left (Ne.symm h₀)
      rw [upsert, if_neg h₀, List.map_cons, List.map_cons, ih hmem]

theorem nodup_upsert (f : Option β → β) (h : (d.map (·.1)).Nodup) :
    ((upsert k f d).map (·.1)).Nodup := by
  by_cases hk : k ∈ d.map (·.1)
  · rw [keys_upsert_of_mem f hk]
    exact h
  · rw [upsert_of_not_mem f hk, List.map_append]
    have hne : ∀ a ∈ d.map (·.1), ∀ b ∈ [k], a ≠ b := by
      intro a ha b hb hab
      rw [hab, List.mem_singleton.mp hb] at ha
      exact hk ha
    exact List.nodup_append.mpr ⟨h, List.pairwise_singleton _ k, hne⟩

theorem mem_upsert {v : β} {kv : κ × β} (h : kv ∈ upsert k (fun _ => v) d) : kv ∈ d ∨ kv = (k, v) := by
  induction d with
  | nil => exact .inr (List.mem_singleton.mp h)
  | cons kv₀ d ih =>
    obtain ⟨k₀, b⟩ := kv₀
    by_cases h₀ : k₀ = k
    · rw [upsert, if_pos h₀, h₀] at h
      exact (List.mem_cons.mp h).elim .inr fun h => .inl (.tail _ h)
    · rw [upsert, if_neg h₀] at h
      rcases List.mem_cons.mp h with rfl | h
      · exact .inl List.mem_cons_self
      · exact (ih h).imp (.tail _) id

/-! ## Updating -/

theorem mem_merge {kv : κ × β} (h : kv ∈ merge d d') : kv ∈ d ∨ kv ∈ d' := by
  induction d' generalizing d with
  | nil => exact .inl h
  | cons kv' d' ih =>
    rcases ih h with h | h
    · rcases mem_upsert h with h | rfl
      · exact .inl h
      · exact .inr List.mem_cons_self
    · exact .inr (.tail _ h)

theorem nodup_merge (h : (d.map (·.1)).Nodup) : ((merge d d').map (·.1)).Nodup := by
  induction d' generalizing d with
  | nil => exact h
  | cons kv d' ih => exact ih (nodup_upsert _ h)

/-- The second dictionary wins. -/
theorem lookup_merge (hd' : (d'.map (·.1)).Nodup) :
    (merge d d').lookup k = (d'.lookup k).or (d.lookup k) := by
  induction d' generalizing d with
  | nil => rfl
  | cons kv d' ih =>
    obtain ⟨k₀, b⟩ := kv
    obtain ⟨hk₀, hd'⟩ := List.nodup_cons.mp hd'
    have hmerge : merge d ((k₀, b) :: d') = merge (upsert k₀ (fun _ => b) d) d' := rfl
    rw [hmerge, ih hd', lookup_upsert]
    by_cases h : k = k₀
    · subst h
      simp [lookup_of_not_mem hk₀]
    · rw [lookup_cons_of_ne h, if_neg h]

/-- A dictionary built of distinct keys is the list of its items. -/
theorem merge_nil (hd' : (d'.map (·.1)).Nodup) : merge [] d' = d' := by
  have hkeys : ∀ d, (d.map (·.1) ++ d'.map (·.1)).Nodup → merge d d' = d ++ d' := by
    induction d' with
    | nil =>
      intro d _
      exact (List.append_nil d).symm
    | cons kv d' ih =>
      intro d hd
      have hnew : kv.1 ∉ d.map (·.1) := by
        intro hmem
        exact (List.nodup_append.mp hd).2.2 _ hmem _ List.mem_cons_self rfl
      have hmerge : merge d (kv :: d') = merge (upsert kv.1 (fun _ => kv.2) d) d' := rfl
      rw [hmerge, upsert_of_not_mem _ hnew, ih (List.nodup_cons.mp hd').2]
      · rw [List.append_assoc]
        rfl
      · rw [List.map_append, List.append_assoc]
        exact hd
  exact hkeys [] hd'

/-! ## Collecting -/

/-- The values that come with a key. -/
def valuesOf (k : κ) (kvs : List (κ × β)) : List β := (kvs.filter fun kv => kv.1 = k).map (·.2)

theorem lookup_foldl_append (kvs : List (κ × β)) (groups : List (κ × List β)) :
    (kvs.foldl append groups).lookup k =
      if valuesOf k kvs = [] then groups.lookup k
      else some ((groups.lookup k).getD [] ++ valuesOf k kvs) := by
  induction kvs generalizing groups with
  | nil => rfl
  | cons kv kvs ih =>
    rw [List.foldl_cons, ih, append, lookup_upsert]
    by_cases h : kv.1 = k
    · subst h
      have hvalues : valuesOf kv.1 (kv :: kvs) = kv.2 :: valuesOf kv.1 kvs := by
        simp [valuesOf]
      rw [if_pos rfl, hvalues]
      by_cases hnil : valuesOf kv.1 kvs = []
      · simp [hnil]
      · simp [hnil]
    · have hvalues : valuesOf k (kv :: kvs) = valuesOf k kvs := by
        simp [valuesOf, h]
      rw [if_neg (Ne.symm h), hvalues]

/-- Under a key stand the values that came with it, in the order in which they came. -/
theorem lookup_collect (kvs : List (κ × β)) :
    (collect kvs).lookup k = if valuesOf k kvs = [] then none else some (valuesOf k kvs) :=
  lookup_foldl_append kvs []

theorem valuesOf_perm {kvs kvs' : List (κ × β)} (h : kvs.Perm kvs') (k : κ) :
    (valuesOf k kvs).Perm (valuesOf k kvs') :=
  (h.filter _).map _

theorem nodup_collect (kvs : List (κ × β)) : ((collect kvs).map (·.1)).Nodup := by
  have hfold : ∀ groups : List (κ × List β), (groups.map (·.1)).Nodup →
      ((kvs.foldl append groups).map (·.1)).Nodup := by
    induction kvs with
    | nil =>
      intro groups h
      exact h
    | cons kv kvs ih =>
      intro groups h
      exact ih _ (nodup_upsert _ h)
  exact hfold [] List.nodup_nil

end Assoc

end Library
