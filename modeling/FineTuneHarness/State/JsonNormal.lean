import FineTuneHarness.Evaluation.Equality
import FineTuneHarness.State.Reproducibility

/-!
# Values that have been through JSON

A JSON value that is written with sorted keys and read back is the same value with its members in
another order. Writing it again changes nothing.
-/
namespace FineTuneHarness

open Library Library.JsonText

/-- What `json.loads` makes of what `json.dumps` has written for the value. -/
def PyVal.Rewritten (x x' : PyVal) : Prop := ∃ j, x.dumps = .ok j ∧ x' = j.loads

namespace PyVal.Rewritten

variable {x x' : PyVal}

/-- A dictionary comes back as a dictionary. -/
theorem of_dict {d : Dict} (h : (PyVal.dict d).Rewritten x') :
    ∃ d', x' = .dict d' ∧ d.throughJson = .ok d' := by
  obtain ⟨j, hj, rfl⟩ := h
  obtain ⟨members, rfl⟩ := dumps_dict hj
  refine ⟨loadsItems members, rfl, ?_⟩
  unfold Dict.throughJson
  rw [hj]
  rfl

/-- Scalars come back as they were, and containers as containers of their kind. -/
theorem cases (h : x.Rewritten x') :
    x' = x ∨ (∃ xs xs', x = .list xs ∧ x' = .list xs') ∨
      ∃ d d' : Dict, x = .dict d ∧ x' = .dict d' ∧ d.throughJson = .ok d' := by
  cases x with
  | dict d =>
    obtain ⟨d', hd', hthrough⟩ := of_dict h
    exact .inr (.inr ⟨d, d', rfl, hd', hthrough⟩)
  | list xs =>
    obtain ⟨j, hj, rfl⟩ := h
    obtain ⟨js, -, rfl⟩ := Except.map_ok hj
    exact .inr (.inl ⟨xs, _, rfl, rfl⟩)
  | none | bool | int | float | str =>
    obtain ⟨j, hj, rfl⟩ := h
    obtain rfl := Except.ok.inj hj
    exact .inl rfl
  | mapping | obj =>
    obtain ⟨j, hj, -⟩ := h
    cases hj

theorem of_throughJson {d d' : Dict} (h : d.throughJson = .ok d') :
    (PyVal.dict d).Rewritten (.dict d') := by
  obtain ⟨j, hj, h⟩ := Except.bind_ok h
  obtain ⟨members, rfl⟩ := dumps_dict hj
  obtain rfl := Except.ok.inj h
  exact ⟨_, hj, rfl⟩

end PyVal.Rewritten

/-! ## Parts of a JSON value -/

section Parts

variable {d d' : Dict}

theorem jsonMembers_mem {ms : List (String × Value PyFloat)} (h : jsonMembers d = some ms)
    {kv : PyKey × PyVal} (hkv : kv ∈ d) :
    kv.1.isStr = true ∧ ∃ w, kv.2.jsonValue = some w := by
  induction d generalizing ms with
  | nil => cases hkv
  | cons item d ih =>
    obtain ⟨k, x⟩ := item
    cases k with
    | str k =>
      obtain ⟨v, hv, h⟩ := Option.bind_eq_some_iff.mp h
      obtain ⟨vs, hvs, -⟩ := Option.bind_eq_some_iff.mp h
      rcases List.mem_cons.mp hkv with rfl | hkv
      · exact ⟨rfl, v, hv⟩
      · exact ih hvs hkv
    | _ => cases h

/-- A JSON object, as `json.load` returns one: string keys, none of them twice, at any depth. -/
structure Dict.IsJson (d : Dict) : Prop where
  value : ∃ v, (PyVal.dict d).jsonValue = some v
  keyed : wellKeyedItems d = true

namespace Dict.IsJson

theorem members (h : d.IsJson) : ∃ ms, jsonMembers d = some ms := by
  obtain ⟨v, hv⟩ := h.value
  obtain ⟨ms, hms, -⟩ := Option.map_eq_some_iff.mp hv
  exact ⟨ms, hms⟩

theorem stringKeys (h : d.IsJson) : d.stringKeys = true := by
  obtain ⟨ms, hms⟩ := h.members
  refine List.all_eq_true.mpr fun k hk => ?_
  obtain ⟨kv, hkv, rfl⟩ := List.mem_map.mp hk
  exact (jsonMembers_mem hms hkv).1

theorem get? (h : d.IsJson) {k : String} {x : PyVal} (hx : d.get? k = some x) :
    (∃ w, x.jsonValue = some w) ∧ x.wellKeyed = true := by
  obtain ⟨ms, hms⟩ := h.members
  exact ⟨(jsonMembers_mem hms (Dict.mem_of_get? hx)).2,
    values_of_wellKeyed h.keyed _ (Dict.mem_of_get? hx)⟩

/-- A section of a JSON object. -/
theorem of_get? (h : d.IsJson) {k : String} (hd : d.get? k = some (.dict d')) : d'.IsJson :=
  ⟨(h.get? hd).1, (h.get? hd).2⟩

end Dict.IsJson

end Parts

/-! ## Writing again -/

theorem dumpsItems_loadsItems {xs : List (String × Json)}
    (h : ∀ x ∈ xs, x.2.loads.dumps = .ok x.2) :
    ((loadsItems xs).map (·.1)).all PyKey.isStr = true ∧
      dumpsItems (loadsItems xs) = .ok (xs.map fun x => (.str x.1, x)) := by
  induction xs with
  | nil => exact ⟨rfl, rfl⟩
  | cons x xs ih =>
    rw [List.forall_mem_cons] at h
    obtain ⟨hkeys, hdumps⟩ := ih h.2
    refine ⟨hkeys, ?_⟩
    rw [loadsItems, dumpsItems, h.1, hdumps]
    rfl

theorem sortMembers_sortMembers (xs : List (String × Json)) :
    sortMembers (sortMembers xs) = sortMembers xs := by
  have : Std.Total fun a b : String × Json => a.1 ≤ b.1 := ⟨fun a b => String.le_total a.1 b.1⟩
  have : IsTrans (String × Json) fun a b => a.1 ≤ b.1 := ⟨fun _ _ _ => String.le_trans⟩
  exact List.Pairwise.insertionSort_eq (List.pairwise_insertionSort _ xs)

mutual

/-- **What has been read back is written as it was.** -/
theorem PyVal.dumps_loads {x : PyVal} {v : Value PyFloat} (hx : x.jsonValue = some v) {j : Json}
    (hj : x.dumps = .ok j) : j.loads.dumps = .ok j := by
  cases x with
  | none | bool | int | float | str =>
    obtain rfl := Except.ok.inj hj
    rfl
  | list xs =>
    obtain ⟨vs, hvs, -⟩ := Option.map_eq_some_iff.mp hx
    obtain ⟨js, hjs, rfl⟩ := Except.map_ok hj
    rw [Json.loads, PyVal.dumps, dumpsList_loads hvs hjs]
    rfl
  | dict d =>
    obtain ⟨ms, hms, -⟩ := Option.map_eq_some_iff.mp hx
    obtain ⟨xs, hkeys, hdumps, hagain⟩ := dumpsItems_loads hms
    rw [PyVal.dumps, if_pos (PyKey.sortable_of_isStr hkeys), hdumps] at hj
    obtain rfl : Json.obj (sortMembers xs) = j := by
      have hj : Json.obj _ = j := Except.ok.inj hj
      rw [insertionSort_strings] at hj
      exact hj
    have hsorted : ∀ x ∈ sortMembers xs, x.2.loads.dumps = .ok x.2 :=
      fun x hx => hagain x ((List.perm_insertionSort _ xs).mem_iff.mp hx)
    obtain ⟨hkeys', hdumps'⟩ := dumpsItems_loadsItems hsorted
    rw [Json.loads, PyVal.dumps, if_pos (PyKey.sortable_of_isStr hkeys'), hdumps']
    show Except.ok (Json.obj _) = _
    rw [insertionSort_strings, sortMembers_sortMembers]
  | mapping | obj => cases hj

theorem dumpsList_loads {xs : List PyVal} {vs : List (Value PyFloat)} (hxs : jsonItems xs = some vs)
    {js : List Json} (hjs : dumpsList xs = .ok js) : dumpsList (loadsList js) = .ok js := by
  cases xs with
  | nil =>
    obtain rfl := Except.ok.inj hjs
    rfl
  | cons x xs =>
    obtain ⟨v, hv, h⟩ := Option.bind_eq_some_iff.mp hxs
    obtain ⟨vs, hvs, -⟩ := Option.bind_eq_some_iff.mp h
    obtain ⟨j, hj, h⟩ := Except.bind_ok hjs
    obtain ⟨rest, hrest, h⟩ := Except.bind_ok h
    obtain rfl := Except.ok.inj h
    rw [loadsList, dumpsList, PyVal.dumps_loads hv hj, dumpsList_loads hvs hrest]
    rfl

theorem dumpsItems_loads {items : List (PyKey × PyVal)} {ms : List (String × Value PyFloat)}
    (h : jsonMembers items = some ms) :
    ∃ xs : List (String × Json), (items.map (·.1)).all PyKey.isStr = true ∧
      dumpsItems items = .ok (xs.map fun x => (.str x.1, x)) ∧
      ∀ x ∈ xs, x.2.loads.dumps = .ok x.2 := by
  cases items with
  | nil => exact ⟨[], rfl, rfl, List.forall_mem_nil _⟩
  | cons item items =>
    obtain ⟨k, x⟩ := item
    cases k with
    | str k =>
      obtain ⟨v, hv, h⟩ := Option.bind_eq_some_iff.mp h
      obtain ⟨vs, hvs, -⟩ := Option.bind_eq_some_iff.mp h
      obtain ⟨j, hj, -⟩ := x.dumps_jsonValue hv
      obtain ⟨xs, hkeys, hxs, hagain⟩ := dumpsItems_loads hvs
      refine ⟨(k, j) :: xs, hkeys, ?_, ?_⟩
      · rw [dumpsItems, hj, hxs]
        rfl
      · rw [List.forall_mem_cons]
        exact ⟨PyVal.dumps_loads hv hj, hagain⟩
    | _ => cases h

end

/-! ## Equal to itself -/

/-- The keys of what is written for distinct keys are distinct. -/
theorem nodup_members {d : Dict} {xs : List (String × Json)} (hd : wellKeyedItems d = true)
    (h : List.Forall₂ Member d xs) : (xs.map (·.1)).Nodup := by
  have hkeys : d.map (·.1) = xs.map fun x => PyKey.str x.1 := by
    clear hd
    induction h with
    | nil => rfl
    | cons hm _ ih => rw [List.map_cons, List.map_cons, hm.1, ih]
  have hne : (d.map (·.1)).Pairwise fun k k' => k.eq k' = false :=
    List.pairwise_map.mpr (keys_of_wellKeyed hd)
  rw [hkeys, List.pairwise_map] at hne
  refine List.pairwise_map.mpr (hne.imp fun hab he => ?_)
  rw [PyKey.eq_str, he, decide_eq_true rfl] at hab
  cases hab

/-- A dictionary with distinct names, whose values are equal to themselves. -/
theorem eqItems_self {xs : List (String × Json)} (hnames : (xs.map (·.1)).Nodup)
    (hself : ∀ x ∈ xs, x.2.loads.eq x.2.loads = true) :
    eqItems (loadsItems xs) (loadsItems xs) = true := by
  have hpairwise : (loadsItems xs).Pairwise fun p q => p.1.eq q.1 = false := by
    rw [loadsItems_eq, List.pairwise_map]
    refine (List.pairwise_map.mp hnames).imp fun hab => ?_
    rw [PyKey.eq_str]
    exact decide_eq_false fun he => hab (PyKey.str.inj he).symm
  refine (eqItems_iff _ _).mpr fun p hp => ?_
  have hmem := hp
  rw [loadsItems_eq] at hp
  obtain ⟨x, hx, rfl⟩ := List.mem_map.mp hp
  refine ⟨_, find_of_eq hpairwise hmem ?_, hself x hx⟩
  rw [PyKey.eq_str]
  exact decide_eq_true rfl

mutual

/-- **What has been read back is equal to itself.** -/
theorem PyVal.eq_loads {x : PyVal} {v : Value PyFloat} (hx : x.jsonValue = some v)
    (hk : x.wellKeyed = true) {j : Json} (hj : x.dumps = .ok j) : j.loads.eq j.loads = true := by
  cases x with
  | none | str =>
    obtain rfl := Except.ok.inj hj
    simp [Json.loads, PyVal.eq]
  | bool | int =>
    obtain rfl := Except.ok.inj hj
    simp [Json.loads, PyVal.eq, Validator.number?]
  | float f =>
    obtain rfl := Except.ok.inj hj
    cases f with
    | finite q => simp [Json.loads, PyVal.eq, Validator.number?]
    | _ => cases hx
  | list xs =>
    obtain ⟨vs, hvs, -⟩ := Option.map_eq_some_iff.mp hx
    obtain ⟨js, hjs, rfl⟩ := Except.map_ok hj
    rw [Json.loads, PyVal.eq]
    exact eqList_loads hvs hk hjs
  | dict d =>
    have hd : Dict.IsJson d := ⟨⟨v, hx⟩, hk⟩
    obtain ⟨ms, hms⟩ := hd.members
    rw [PyVal.dumps, if_pos (PyKey.sortable_of_isStr hd.stringKeys)] at hj
    obtain ⟨written, hwritten, rfl⟩ := Except.map_ok hj
    obtain ⟨xs, hxs, rfl⟩ := dumpsItems_strings hd.stringKeys hwritten
    have hperm : (sortMembers xs).Perm xs := List.perm_insertionSort _ xs
    have hself := eqMembers_loads hms hk hxs
    rw [insertionSort_strings, Json.loads, PyVal.eq, decide_eq_true rfl, Bool.true_and]
    exact eqItems_self ((hperm.map _).nodup_iff.mpr (nodup_members hk hxs))
      fun x hx => hself x (hperm.mem_iff.mp hx)
  | mapping | obj => cases hj

theorem eqList_loads {xs : List PyVal} {vs : List (Value PyFloat)} (hxs : jsonItems xs = some vs)
    (hk : wellKeyedList xs = true) {js : List Json} (hjs : dumpsList xs = .ok js) :
    eqList (loadsList js) (loadsList js) = true := by
  cases xs with
  | nil =>
    obtain rfl := Except.ok.inj hjs
    rfl
  | cons x xs =>
    obtain ⟨v, hv, h⟩ := Option.bind_eq_some_iff.mp hxs
    obtain ⟨vs, hvs, -⟩ := Option.bind_eq_some_iff.mp h
    obtain ⟨j, hj, h⟩ := Except.bind_ok hjs
    obtain ⟨rest, hrest, h⟩ := Except.bind_ok h
    obtain rfl := Except.ok.inj h
    rw [wellKeyedList, Bool.and_eq_true] at hk
    rw [loadsList, eqList, PyVal.eq_loads hv hk.1 hj, eqList_loads hvs hk.2 hrest]
    rfl

theorem eqMembers_loads {d : List (PyKey × PyVal)} {ms : List (String × Value PyFloat)}
    (hms : jsonMembers d = some ms) (hk : wellKeyedItems d = true) {xs : List (String × Json)}
    (h : List.Forall₂ Member d xs) : ∀ x ∈ xs, x.2.loads.eq x.2.loads = true := by
  cases d with
  | nil =>
    cases h
    exact List.forall_mem_nil _
  | cons item d =>
    obtain ⟨k, y⟩ := item
    cases h with
    | cons hm h =>
      cases k with
      | str k =>
        obtain ⟨v, hv, hrest⟩ := Option.bind_eq_some_iff.mp hms
        obtain ⟨vs, hvs, -⟩ := Option.bind_eq_some_iff.mp hrest
        rw [wellKeyedItems, Bool.and_eq_true, Bool.and_eq_true] at hk
        rw [List.forall_mem_cons]
        exact ⟨PyVal.eq_loads hv hk.1.2 hm.2, eqMembers_loads hvs hk.2 h⟩
      | _ => cases hms

end

/-- **A JSON object through a column**: it can be written, comes back equal to itself, and stays as
it is when it is written again. -/
theorem Dict.IsJson.through {d : Dict} (h : d.IsJson) :
    ∃ d', d.throughJson = .ok d' ∧ d'.throughJson = .ok d' ∧
      (PyVal.dict d').dumps = (PyVal.dict d).dumps ∧ (PyVal.dict d').eq (.dict d') = true := by
  obtain ⟨v, hv⟩ := h.value
  obtain ⟨j, hj, -⟩ := PyVal.dumps_jsonValue hv
  have hagain := PyVal.dumps_loads hv hj
  have hself := PyVal.eq_loads hv h.keyed hj
  obtain ⟨members, rfl⟩ := PyVal.dumps_dict hj
  have hthrough : ∀ {e : Dict}, (PyVal.dict e).dumps = .ok (.obj members) →
      e.throughJson = .ok (loadsItems members) := by
    intro e he
    unfold Dict.throughJson
    rw [he]
    rfl
  exact ⟨loadsItems members, hthrough hj, hthrough hagain, hagain.trans hj.symm, hself⟩

end FineTuneHarness
