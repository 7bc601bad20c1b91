import FineTuneHarness.Library.JsonOrder
import FineTuneHarness.Orchestrator.Runner
import FineTuneHarness.State.JsonColumn

/-!
# `canonical_json_hash`

The hash of a config is taken of a text: the config as compact JSON with sorted keys, in UTF-8.
How a float is spelled and SHA-256 itself are parameters. Where the digest has no collision,
configs have one hash exactly if they are the same JSON value up to the order of members.
-/
namespace FineTuneHarness

open Library Library.JsonText

/-! ## The text that is hashed -/

section Canonical

variable {F : Type} (fl : Floats F) (sha256 : ByteArray → String)

/-- `ensure_ascii=False, separators=(",", ":")`. -/
def compact : Style where
  ascii := false
  blanks := 0

/-- `canonical.encode("utf-8")`. -/
def canonical (v : Value F) : ByteArray := (String.ofList (encode fl compact v.sorted)).toUTF8

/-- `hashlib.sha256(canonical.encode("utf-8")).hexdigest()`. -/
def canonicalHash (v : Value F) : String := sha256 (canonical fl v)

/-- A JSON value as a config has it: no object has two members of one name, and its floats are
spelled so that they read back. -/
structure Hashable (v : Value F) : Prop where
  distinct : v.distinct = true
  floats : ∀ f ∈ v.floats, fl.Faithful f

variable {fl} {v w : Value F}

/-- **Two values have one canonical text** exactly if they are the same. -/
theorem canonical_eq_iff (hv : Hashable fl v) (hw : Hashable fl w) :
    canonical fl v = canonical fl w ↔ Same v w := by
  have hvs : ∀ f ∈ v.sorted.floats, fl.Faithful f := fun f hf =>
    hv.floats f ((mem_floats_sorted v).mp hf)
  have hws : ∀ f ∈ w.sorted.floats, fl.Faithful f := fun f hf =>
    hw.floats f ((mem_floats_sorted w).mp hf)
  rw [← sorted_eq_iff hv.distinct]
  constructor
  · intro h
    have htext : encode fl compact v.sorted = encode fl compact w.sorted :=
      String.ofList_injective (String.toByteArray_inj.mp h)
    exact (encode_inj hvs hws).mp htext
  · intro h
    rw [canonical, h]
    rfl

theorem canonicalHash_eq_iff (hv : Hashable fl v) (hw : Hashable fl w)
    (hsha : sha256 (canonical fl v) = sha256 (canonical fl w) → canonical fl v = canonical fl w) :
    canonicalHash fl sha256 v = canonicalHash fl sha256 w ↔ Same v w := by
  rw [← canonical_eq_iff hv hw]
  constructor
  · exact hsha
  · intro h
    rw [canonicalHash, canonicalHash, h]

end Canonical

/-! ## Configs as JSON values -/

mutual

/-- The JSON value that an object of the JSON types is; names are strings, floats finite. -/
def PyVal.jsonValue : PyVal → Option (Value PyFloat)
  | .none => some .null
  | .bool b => some (.bool b)
  | .int i => some (.int i)
  | .float (.finite q) => some (.float (.finite q))
  | .str s => some (.str s)
  | .list xs => (jsonItems xs).map .arr
  | .dict items => (jsonMembers items).map .obj
  | _ => Option.none

def jsonItems : List PyVal → Option (List (Value PyFloat))
  | [] => some []
  | v :: vs => do return (← v.jsonValue) :: (← jsonItems vs)

def jsonMembers : List (PyKey × PyVal) → Option (List (String × Value PyFloat))
  | [] => some []
  | (.str k, v) :: rest => do return (k, ← v.jsonValue) :: (← jsonMembers rest)
  | _ => Option.none

end

mutual

/-- What is written for a JSON document. -/
def Json.value : Json → Value PyFloat
  | .null => .null
  | .bool b => .bool b
  | .int i => .int i
  | .float f => .float f
  | .str s => .str s
  | .arr xs => .arr (valueItems xs)
  | .obj items => .obj (valueMembers items)

def valueItems : List Json → List (Value PyFloat)
  | [] => []
  | x :: xs => x.value :: valueItems xs

def valueMembers : List (String × Json) → List (String × Value PyFloat)
  | [] => []
  | (k, x) :: items => (k, x.value) :: valueMembers items

end

theorem valueMembers_eq (items : List (String × Json)) :
    valueMembers items = items.map fun x => (x.1, x.2.value) := by
  induction items with
  | nil => rfl
  | cons x items ih => rw [valueMembers, ih, List.map_cons]

theorem valueMembers_sortMembers (items : List (String × Json)) :
    valueMembers (sortMembers items) = sortNames (valueMembers items) := by
  rw [valueMembers_eq, valueMembers_eq, sortMembers, sortNames]
  exact List.map_insertionSort (fun a b : String × Json => a.1 ≤ b.1)
    (fun a b : String × Value PyFloat => a.1 ≤ b.1) (fun x => (x.1, x.2.value)) items
    fun _ _ _ _ => Iff.rfl

mutual

/-- `json.dumps(…, sort_keys=True)` of a JSON value writes the value sorted. -/
theorem PyVal.dumps_jsonValue {x : PyVal} {v : Value PyFloat} (h : x.jsonValue = some v) :
    ∃ j, x.dumps = .ok j ∧ j.value = v.sorted := by
  cases x with
  | none | bool | int | str =>
    obtain rfl := Option.some.inj h
    exact ⟨_, rfl, rfl⟩
  | float f =>
    cases f with
    | finite q =>
      obtain rfl := Option.some.inj h
      exact ⟨_, rfl, rfl⟩
    | _ => cases h
  | list xs =>
    rw [PyVal.jsonValue] at h
    obtain ⟨vs, hvs, rfl⟩ := Option.map_eq_some_iff.mp h
    obtain ⟨js, hjs, hvalue⟩ := dumpsList_jsonItems hvs
    refine ⟨.arr js, ?_, ?_⟩
    · rw [PyVal.dumps, hjs]
      rfl
    · rw [Json.value, Value.sorted, hvalue]
  | dict items =>
    rw [PyVal.jsonValue] at h
    obtain ⟨ms, hms, rfl⟩ := Option.map_eq_some_iff.mp h
    obtain ⟨xs, hkeys, hxs, hvalue⟩ := dumpsItems_jsonMembers hms
    refine ⟨.obj (sortMembers xs), ?_, ?_⟩
    · rw [PyVal.dumps, if_pos (PyKey.sortable_of_isStr hkeys), hxs]
      show Except.ok (Json.obj _) = _
      rw [insertionSort_strings]
    · rw [Json.value, Value.sorted, valueMembers_sortMembers, hvalue]
  | mapping | obj => cases h

theorem dumpsList_jsonItems {xs : List PyVal} {vs : List (Value PyFloat)}
    (h : jsonItems xs = some vs) : ∃ js, dumpsList xs = .ok js ∧ valueItems js = sortedItems vs := by
  cases xs with
  | nil =>
    obtain rfl := Option.some.inj h
    exact ⟨[], rfl, rfl⟩
  | cons x xs =>
    obtain ⟨v, hv, h⟩ := Option.bind_eq_some_iff.mp h
    obtain ⟨vs, hvs, h⟩ := Option.bind_eq_some_iff.mp h
    obtain rfl := Option.some.inj h
    obtain ⟨j, hj, hvalue⟩ := x.dumps_jsonValue hv
    obtain ⟨js, hjs, hvalues⟩ := dumpsList_jsonItems hvs
    refine ⟨j :: js, ?_, ?_⟩
    · rw [dumpsList, hj, hjs]
      rfl
    · rw [valueItems, sortedItems, hvalue, hvalues]

theorem dumpsItems_jsonMembers {items : List (PyKey × PyVal)} {ms : List (String × Value PyFloat)}
    (h : jsonMembers items = some ms) :
    ∃ xs, (items.map (·.1)).all PyKey.isStr = true ∧
      dumpsItems items = .ok (xs.map fun x => (.str x.1, x)) ∧
      valueMembers xs = sortedMembers ms := by
  cases items with
  | nil =>
    obtain rfl := Option.some.inj h
    exact ⟨[], rfl, rfl, rfl⟩
  | cons item items =>
    obtain ⟨k, x⟩ := item
    cases k with
    | str k =>
      obtain ⟨v, hv, h⟩ := Option.bind_eq_some_iff.mp h
      obtain ⟨vs, hvs, h⟩ := Option.bind_eq_some_iff.mp h
      obtain rfl := Option.some.inj h
      obtain ⟨j, hj, hvalue⟩ := x.dumps_jsonValue hv
      obtain ⟨xs, hkeys, hxs, hvalues⟩ := dumpsItems_jsonMembers hvs
      refine ⟨(k, j) :: xs, hkeys, ?_, ?_⟩
      · rw [dumpsItems, hj, hxs]
        rfl
      · rw [valueMembers, sortedMembers, hvalue, hvalues]
    | _ => cases h

end

/-- The digest that `canonical_json_hash` takes, on a machine that spells floats as `fl` does. -/
def Platform.hashing (pf : Platform) (fl : Floats PyFloat) (sha256 : ByteArray → String) : Platform :=
  { pf with digest := fun j => sha256 (String.ofList (encode fl compact j.value)).toUTF8 }

/-- **`canonical_json_hash` of a JSON object** is the hash of its canonical text. -/
theorem canonicalJsonHash_eq (pf : Platform) {fl : Floats PyFloat} {sha256 : ByteArray → String}
    {config : Dict} {v : Value PyFloat} (h : (PyVal.dict config).jsonValue = some v) :
    canonicalJsonHash (pf.hashing fl sha256) config = .ok (canonicalHash fl sha256 v) := by
  obtain ⟨j, hj, hvalue⟩ := PyVal.dumps_jsonValue h
  rw [canonicalJsonHash, hj]
  show Except.ok (sha256 (String.ofList (encode fl compact j.value)).toUTF8) = _
  rw [hvalue]
  rfl

/-! ## A machine to write with -/

/-- A machine that spells one half; no other float is written. -/
def halves : Floats PyFloat where
  spell _ := "0.5".toList
  read cs := if cs = "0.5".toList then some (.finite (1 / 2)) else none

theorem halves_faithful : halves.Faithful (.finite (1 / 2)) :=
  ⟨rfl, by decide, .inl (by decide)⟩

end FineTuneHarness
