import FineTuneHarness.Library.Table
import FineTuneHarness.State.Value

/-!
# What a JSON column gives back

A dictionary with string keys comes back sorted by key, each value as `json.loads` reads
what `json.dumps` has written. A lookup finds what it found before.
-/
namespace FineTuneHarness

/-- The keys of a JSON object. -/
def Dict.stringKeys (d : Dict) : Bool := (d.map (·.1)).all PyKey.isStr

/-- The order in which `sort_keys=True` writes members. -/
def sortMembers (xs : List (String × Json)) : List (String × Json) :=
  xs.insertionSort fun a b => a.1 ≤ b.1

theorem loadsItems_eq (xs : List (String × Json)) :
    loadsItems xs = xs.map fun x => (.str x.1, x.2.loads) := by
  induction xs with
  | nil => rfl
  | cons x xs ih => rw [loadsItems, ih]; rfl

/-- An entry and the member written for it. -/
def Member (kv : PyKey × PyVal) (x : String × Json) : Prop :=
  kv.1 = .str x.1 ∧ kv.2.dumps = .ok x.2

theorem dumpsItems_strings {d : Dict} {ms : List (PyKey × String × Json)}
    (hk : d.stringKeys = true) (h : dumpsItems d = .ok ms) :
    ∃ xs, List.Forall₂ Member d xs ∧ ms = xs.map fun x => (.str x.1, x) := by
  induction d generalizing ms with
  | nil =>
    obtain rfl := Except.ok.inj h
    exact ⟨[], .nil, rfl⟩
  | cons kv d ih =>
    obtain ⟨k, v⟩ := kv
    simp only [Dict.stringKeys, List.map_cons, List.all_cons, Bool.and_eq_true] at hk ih
    cases k with
    | str s =>
      cases hv : v.dumps with
      | error e => simp [dumpsItems, PyKey.jsonName, hv, bind, Except.bind] at h
      | ok j =>
        cases hd : dumpsItems d with
        | error e => simp [dumpsItems, PyKey.jsonName, hv, hd, bind, Except.bind] at h
        | ok rest =>
          obtain ⟨xs, hxs, rfl⟩ := ih hk.2 hd
          simp only [dumpsItems, PyKey.jsonName, hv, hd, bind, Except.bind, pure, Except.pure] at h
          obtain rfl := Except.ok.inj h
          exact ⟨(s, j) :: xs, .cons ⟨rfl, hv⟩ hxs, rfl⟩
    | _ => cases hk.1

/-- Members under string keys are sorted by their names. -/
theorem insertionSort_strings (xs : List (String × Json)) :
    ((xs.map fun x => (PyKey.str x.1, x)).insertionSort fun a b =>
      PyKey.le a.1 b.1 = true).map (·.2) = sortMembers xs := by
  have hmap := List.map_insertionSort (fun a b : String × Json => a.1 ≤ b.1)
    (fun a b : PyKey × String × Json => PyKey.le a.1 b.1 = true) (fun x => (PyKey.str x.1, x)) xs
    fun a _ b _ => by simp [PyKey.le]
  rw [← hmap, List.map_map]
  exact List.map_id _

/-- **A JSON object through its column.** -/
theorem Dict.throughJson_strings {d d' : Dict} (hk : d.stringKeys = true)
    (h : d.throughJson = .ok d') :
    ∃ xs, List.Forall₂ Member d xs ∧
      d' = (sortMembers xs).map fun x => (.str x.1, x.2.loads) := by
  unfold Dict.throughJson at h
  rw [PyVal.dumps, if_pos (PyKey.sortable_of_isStr hk)] at h
  cases hd : dumpsItems d with
  | error e => rw [hd] at h; cases h
  | ok ms =>
    obtain ⟨xs, hxs, rfl⟩ := dumpsItems_strings hk hd
    rw [hd] at h
    refine ⟨xs, hxs, ?_⟩
    have hout : loadsItems (((xs.map fun x => (PyKey.str x.1, x)).insertionSort fun a b =>
        PyKey.le a.1 b.1 = true).map (·.2)) = d' := Except.ok.inj h
    rw [← hout, insertionSort_strings, loadsItems_eq]

theorem find?_sortMembers (xs : List (String × Json)) (k : String) :
    (sortMembers xs).find? (fun x => x.1 = k) = xs.find? fun x => x.1 = k := by
  have : Std.Total fun a b : String × Json => a.1 ≤ b.1 := ⟨fun a b => String.le_total a.1 b.1⟩
  have : IsTrans (String × Json) fun a b => a.1 ≤ b.1 := ⟨fun _ _ _ => String.le_trans⟩
  have hsorted : (xs.filter fun x => x.1 = k).Pairwise fun a b => a.1 ≤ b.1 := by
    refine List.pairwise_of_forall_mem_list fun a ha b hb => ?_
    have ha := of_decide_eq_true (List.mem_filter.mp ha).2
    have hb := of_decide_eq_true (List.mem_filter.mp hb).2
    exact ha.trans hb.symm ▸ String.le_refl a.1
  rw [← List.head?_filter, ← List.head?_filter, sortMembers, Library.filter_insertionSort,
    List.Pairwise.insertionSort_eq hsorted]

theorem find?_member {d : Dict} {xs : List (String × Json)} (h : List.Forall₂ Member d xs)
    (k : String) :
    Option.Rel Member (d.find? fun kv => kv.1 = .str k) (xs.find? fun x => x.1 = k) := by
  induction h with
  | nil => exact .none
  | @cons kv x d xs hm _ ih =>
    by_cases hx : x.1 = k
    · rw [List.find?_cons_of_pos (by simp [hm.1, hx]), List.find?_cons_of_pos (by simp [hx])]
      exact .some hm
    · rw [List.find?_cons_of_neg (by simp [hm.1, hx]), List.find?_cons_of_neg (by simp [hx])]
      exact ih

/-- **A lookup after the round trip** finds what it found before, read back. -/
theorem Dict.throughJson_get? {d d' : Dict} (hk : d.stringKeys = true)
    (h : d.throughJson = .ok d') (k : String) :
    Option.Rel (fun v v' => ∃ j, v.dumps = .ok j ∧ v' = j.loads) (d.get? k) (d'.get? k) := by
  obtain ⟨xs, hxs, rfl⟩ := Dict.throughJson_strings hk h
  have hfind : Dict.get? ((sortMembers xs).map fun x => (.str x.1, x.2.loads)) k =
      (xs.find? fun x => x.1 = k).map (·.2.loads) := by
    rw [Dict.get?, List.find?_map, Option.map_map, ← find?_sortMembers]
    simp only [Function.comp_def, PyKey.str.injEq]
  rw [hfind, Dict.get?]
  have hrel := find?_member hxs k
  generalize (d.find? fun kv => kv.1 = .str k) = found at hrel ⊢
  generalize (xs.find? fun x => x.1 = k) = found' at hrel ⊢
  cases hrel with
  | none => exact .none
  | some hm => exact .some ⟨_, hm.2, rfl⟩

/-- **Entries after the round trip**: the same keys, the values read back. -/
theorem Dict.throughJson_perm {d d' : Dict} (hk : d.stringKeys = true)
    (h : d.throughJson = .ok d') :
    ∃ xs, List.Forall₂ Member d xs ∧ d'.Perm (xs.map fun x => (.str x.1, x.2.loads)) := by
  obtain ⟨xs, hxs, rfl⟩ := Dict.throughJson_strings hk h
  exact ⟨xs, hxs, (List.perm_insertionSort _ _).map _⟩

/-- A dictionary is written as an object. -/
theorem PyVal.dumps_dict {d : Dict} {j : Json} (h : (PyVal.dict d).dumps = .ok j) :
    ∃ members, j = .obj members := by
  simp only [PyVal.dumps] at h
  split at h
  · obtain ⟨_, -, rfl⟩ := Except.map_ok h
    exact ⟨_, rfl⟩
  · cases h

/-- A text is in a list that has been through JSON, if it was there before. -/
theorem str_mem_loadsList {xs : List PyVal} {js : List Json} (h : dumpsList xs = .ok js) (a : String) :
    PyVal.str a ∈ loadsList js ↔ PyVal.str a ∈ xs := by
  induction xs generalizing js with
  | nil =>
    obtain rfl := Except.ok.inj h
    rfl
  | cons x xs ih =>
    obtain ⟨j, hj, h⟩ := Except.bind_ok h
    obtain ⟨rest, hrest, h⟩ := Except.bind_ok h
    obtain rfl := Except.ok.inj h
    have hhead : PyVal.str a = j.loads ↔ PyVal.str a = x := by
      cases x with
      | list ys =>
        obtain ⟨_, -, rfl⟩ := Except.map_ok hj
        simp [Json.loads]
      | dict d =>
        obtain ⟨_, rfl⟩ := PyVal.dumps_dict hj
        simp [Json.loads]
      | mapping | obj => cases hj
      | none | bool | int | float | str =>
        obtain rfl := Except.ok.inj hj
        rfl
    rw [loadsList, List.mem_cons, List.mem_cons, hhead, ih hrest]

theorem Dict.get?_of_get {d : Dict} {k : String} {v : PyVal} (h : d.get k = v) (hv : v ≠ .none) :
    d.get? k = some v := by
  unfold Dict.get at h
  cases hg : d.get? k with
  | none =>
    rw [hg] at h
    exact absurd h.symm hv
  | some v' =>
    rw [hg] at h
    exact congrArg some h

/-! ## Dictionaries with any keys -/

theorem dumpsItems_values {d : Dict} {ms : List (PyKey × String × Json)}
    (h : dumpsItems d = .ok ms) :
    List.Forall₂ (fun kv m => kv.2.dumps = .ok m.2.2) d ms := by
  induction d generalizing ms with
  | nil =>
    obtain rfl := Except.ok.inj h
    exact .nil
  | cons kv d ih =>
    obtain ⟨k, v⟩ := kv
    cases hk : k.jsonName with
    | error e => simp [dumpsItems, hk, bind, Except.bind] at h
    | ok name =>
    cases hv : v.dumps with
    | error e => simp [dumpsItems, hk, hv, bind, Except.bind] at h
    | ok j =>
    cases hd : dumpsItems d with
    | error e => simp [dumpsItems, hk, hv, hd, bind, Except.bind] at h
    | ok rest =>
      simp only [dumpsItems, hk, hv, hd, bind, Except.bind, pure, Except.pure] at h
      obtain rfl := Except.ok.inj h
      exact .cons hv (ih hd)

/-- Whatever the keys, the values that come back are those written, read back. -/
theorem Dict.throughJson_values {d d' : Dict} (h : d.throughJson = .ok d') :
    d'.length = d.length ∧
      ∀ kv' ∈ d', ∃ kv ∈ d, ∃ j, kv.2.dumps = .ok j ∧ kv'.2 = j.loads := by
  unfold Dict.throughJson at h
  rw [PyVal.dumps] at h
  split at h
  swap; · cases h
  cases hd : dumpsItems d with
  | error e => rw [hd] at h; cases h
  | ok ms =>
    rw [hd] at h
    have hout : loadsItems ((ms.insertionSort fun a b => PyKey.le a.1 b.1 = true).map (·.2)) = d' :=
      Except.ok.inj h
    have hvalues := dumpsItems_values hd
    rw [← hout, loadsItems_eq]
    refine ⟨by simp [hvalues.length_eq], fun kv' hkv' => ?_⟩
    obtain ⟨x, hx, rfl⟩ := List.mem_map.mp hkv'
    obtain ⟨m, hm, rfl⟩ := List.mem_map.mp hx
    have hm := (List.mem_insertionSort _).mp hm
    obtain ⟨i, hi, rfl⟩ := List.mem_iff_getElem.mp hm
    have hi' : i < d.length := hvalues.length_eq ▸ hi
    exact ⟨d[i], List.getElem_mem hi', _, (List.forall₂_iff_get.mp hvalues).2 i hi' hi, rfl⟩

end FineTuneHarness
