import Mathlib.Data.List.Sort
import Mathlib.Algebra.Order.Ring.Rat
import Mathlib.Algebra.GroupWithZero.Nat

/-!
# Python values as the harness handles them

Payloads, results and configs are Python objects of any shape. The model keeps what the
code looks at: the type tests, truth, `int()`, `float()` and what `json.dumps` accepts.
Floats are exact rationals with NaN and the infinities; text is Unicode text. The
interpreter's adjustable limit on the digits of a printed integer is taken as lifted.
-/
namespace FineTuneHarness

/-! ## Exceptions -/

/-- An exception object: its class, the other classes it is an instance of, `str(exc)`. -/
structure PyExc where
  cls : String
  bases : List String
  text : String
deriving DecidableEq

namespace PyExc

def isInstance (e : PyExc) (c : String) : Bool := e.cls == c || e.bases.contains c

def keyError (text : String) : PyExc := ⟨"KeyError", ["LookupError", "Exception"], text⟩
def valueError (text : String) : PyExc := ⟨"ValueError", ["Exception"], text⟩
def typeError (text : String) : PyExc := ⟨"TypeError", ["Exception"], text⟩
def attributeError (text : String) : PyExc := ⟨"AttributeError", ["Exception"], text⟩
def runtimeError (text : String) : PyExc := ⟨"RuntimeError", ["Exception"], text⟩
def overflowError (text : String) : PyExc := ⟨"OverflowError", ["ArithmeticError", "Exception"], text⟩
def timeoutError (text : String) : PyExc := ⟨"TimeoutError", ["OSError", "Exception"], text⟩
def integrityError (text : String) : PyExc := ⟨"IntegrityError", ["DatabaseError", "Exception"], text⟩

end PyExc

/-- A result needs a result of each part. -/
theorem Except.bind_ok {ε α β : Type} {x : Except ε α} {f : α → Except ε β} {b : β}
    (h : (x >>= f) = .ok b) : ∃ a, x = .ok a ∧ f a = .ok b := by
  cases x with
  | error e => cases h
  | ok a => exact ⟨a, rfl, h⟩

theorem Except.map_ok {ε α β : Type} {x : Except ε α} {f : α → β} {b : β}
    (h : x.map f = .ok b) : ∃ a, x = .ok a ∧ f a = b := by
  cases x with
  | error e => cases h
  | ok a => exact ⟨a, rfl, Except.ok.inj h⟩

/-! ## Values -/

inductive PyFloat
  | finite (q : ℚ)
  | inf (negative : Bool)
  | nan
deriving DecidableEq

/-- Dictionary keys: the JSON key types, and any other hashable object. -/
inductive PyKey
  | str (s : String)
  | int (i : Int)
  | bool (b : Bool)
  | float (f : PyFloat)
  | none
  | other (cls : String)
deriving DecidableEq

/-- `mapping` is a mapping object that is no `dict`; `obj` is an object of any other class,
with the answer of its `bool()`, if that answers. -/
inductive PyVal
  | none
  | bool (b : Bool)
  | int (i : Int)
  | float (f : PyFloat)
  | str (s : String)
  | list (xs : List PyVal)
  | dict (items : List (PyKey × PyVal))
  | mapping (items : List (PyKey × PyVal))
  | obj (cls : String) (truth : Option Bool)

abbrev Dict := List (PyKey × PyVal)

namespace Dict

/-- `d.get(k)`, with `none` for an absent key. -/
def get? (d : Dict) (k : String) : Option PyVal :=
  (d.find? fun kv => kv.1 = .str k).map (·.2)

def get (d : Dict) (k : String) : PyVal := (d.get? k).getD .none

def contains (d : Dict) (k : String) : Bool := d.any fun kv => kv.1 = .str k

/-- `{**d, k: v}`: an existing key keeps its place. -/
def set (d : Dict) (k : String) (v : PyVal) : Dict :=
  if d.contains k then d.map fun kv => if kv.1 = .str k then (kv.1, v) else kv
  else d ++ [(.str k, v)]

/-- A dictionary display with string keys. -/
def ofList (items : List (String × PyVal)) : Dict := items.map fun kv => (.str kv.1, kv.2)

end Dict

/-! ### Updates -/

/-- A lookup after a map that leaves the keys alone. -/
theorem Dict.get?_map {d : Dict} {g : PyKey × PyVal → PyKey × PyVal} (hg : ∀ kv, (g kv).1 = kv.1)
    (k : String) :
    Dict.get? (d.map g) k = (d.find? fun kv => kv.1 = .str k).map fun kv => (g kv).2 := by
  have hsame : (fun kv : PyKey × PyVal => decide (kv.1 = .str k)) ∘ g =
      fun kv => decide (kv.1 = .str k) := by
    funext kv
    simp only [Function.comp, hg]
  rw [Dict.get?, List.find?_map, hsame, Option.map_map]
  rfl

theorem Dict.update_key (k : String) (v : PyVal) (kv : PyKey × PyVal) :
    (if kv.1 = .str k then (kv.1, v) else kv).1 = kv.1 := by
  split <;> rfl

theorem Dict.get?_set_of_ne {d : Dict} {k k' : String} {v : PyVal} (h : k' ≠ k) :
    (d.set k v).get? k' = d.get? k' := by
  unfold Dict.set
  split
  · rw [Dict.get?_map (update_key k v), Dict.get?]
    refine Option.map_congr fun kv hkv => ?_
    have hfound : kv.1 = .str k' := by
      simpa using List.find?_some (Option.mem_def.mp hkv)
    rw [if_neg fun hk => h (PyKey.str.inj (hfound.symm.trans hk))]
  · rw [Dict.get?, Dict.get?, List.find?_append, List.find?_cons_of_neg
      (by simpa using fun hk => h hk.symm)]
    simp

theorem Dict.get?_set_self {d : Dict} {k : String} {v : PyVal} :
    (d.set k v).get? k = some v := by
  unfold Dict.set
  split
  next hin =>
    obtain ⟨kv, hkv, hkey⟩ := List.any_eq_true.mp hin
    have hsome : (d.find? fun kv => decide (kv.1 = .str k)).isSome = true :=
      List.find?_isSome.mpr ⟨kv, hkv, hkey⟩
    obtain ⟨kv, hfound⟩ := Option.isSome_iff_exists.mp hsome
    have hkey : kv.1 = .str k := by simpa using List.find?_some hfound
    rw [Dict.get?_map (update_key k v), hfound, Option.map_some, if_pos hkey]
  next hin =>
    have hnone : d.find? (fun kv => decide (kv.1 = .str k)) = none :=
      List.find?_eq_none.mpr fun kv hkv hkey => hin (List.any_eq_true.mpr ⟨kv, hkv, hkey⟩)
    rw [Dict.get?, List.find?_append, hnone]
    simp

/-- What holds of every entry after an update. -/
theorem Dict.forall_set {d : Dict} {k : String} {v : PyVal} {P : PyKey × PyVal → Prop} :
    (∀ kv ∈ d.set k v, P kv) ↔ (∀ kv ∈ d, kv.1 ≠ .str k → P kv) ∧ P (.str k, v) := by
  unfold Dict.set
  split
  next hin =>
    constructor
    · intro h
      refine ⟨fun kv hkv hne => ?_, ?_⟩
      · have := h _ (List.mem_map_of_mem hkv)
        rwa [if_neg hne] at this
      · obtain ⟨kv, hkv, hk⟩ := List.any_eq_true.mp hin
        have hk : kv.1 = .str k := by simpa using hk
        have := h _ (List.mem_map_of_mem hkv)
        rwa [if_pos hk, hk] at this
    · rintro ⟨h, hv⟩ kv hkv
      obtain ⟨kv', hm, rfl⟩ := List.mem_map.mp hkv
      split
      next hk => rwa [hk]
      next hk => exact h kv' hm hk
  next hout =>
    rw [List.forall_mem_append, List.forall_mem_singleton]
    refine and_congr_left fun _ => forall₂_congr fun kv hkv => ?_
    refine ⟨fun h _ => h, fun h => h fun hk => hout ?_⟩
    exact List.any_eq_true.mpr ⟨kv, hkv, by simpa using hk⟩

/-- An updated key has the new value only. -/
theorem Dict.eq_of_mem_set {d : Dict} {k : String} {v v' : PyVal} (h : (PyKey.str k, v') ∈ d.set k v) :
    v' = v := by
  have hall : ∀ kv ∈ d.set k v, kv.1 = .str k → kv.2 = v :=
    Dict.forall_set.mpr ⟨fun _ _ hne hk => absurd hk hne, fun _ => rfl⟩
  exact hall _ h rfl

theorem Dict.mem_set_self (d : Dict) (k : String) (v : PyVal) : (PyKey.str k, v) ∈ d.set k v := by
  by_contra h
  have hall : ∀ kv ∈ d.set k v, kv ≠ (PyKey.str k, v) := fun kv hkv he => h (he ▸ hkv)
  exact (Dict.forall_set.mp hall).2 rfl

/-- Another key keeps its entries. -/
theorem Dict.mem_set_of_ne {d : Dict} {k : String} {v : PyVal} {kv : PyKey × PyVal}
    (hk : kv.1 ≠ .str k) : kv ∈ d.set k v ↔ kv ∈ d := by
  rw [← not_iff_not]
  have hset := Dict.forall_set (d := d) (k := k) (v := v) (P := fun x => x ≠ kv)
  constructor
  · intro h hm
    exact (hset.mp fun x hx he => h (he ▸ hx)).1 kv hm hk rfl
  · intro h hm
    exact hset.mpr ⟨fun x hx _ he => h (he ▸ hx), fun he => hk (by rw [← he])⟩ kv hm rfl

namespace PyVal

def typeName : PyVal → String
  | .none => "NoneType"
  | .bool _ => "bool"
  | .int _ => "int"
  | .float _ => "float"
  | .str _ => "str"
  | .list _ => "list"
  | .dict _ => "dict"
  | .mapping _ => "mappingproxy"
  | .obj cls _ => cls

/-- `bool(v)`; an object of a foreign class may raise. -/
def truth : PyVal → Except PyExc Bool
  | .none => .ok false
  | .bool b => .ok b
  | .int i => .ok (i ≠ 0)
  | .float (.finite q) => .ok (q ≠ 0)
  | .float _ => .ok true
  | .str s => .ok (s ≠ "")
  | .list xs => .ok (!xs.isEmpty)
  | .dict d => .ok (!d.isEmpty)
  | .mapping d => .ok (!d.isEmpty)
  | .obj _ (some b) => .ok b
  | .obj cls Option.none => .error (.valueError s!"the truth value of a {cls} is ambiguous")

/-! ### `int()` and `float()` -/

/-- `c.isspace()`. -/
def isSpace (c : Char) : Bool :=
  let n := c.toNat
  (9 ≤ n && n ≤ 13) || (28 ≤ n && n ≤ 32) || (0x2000 ≤ n && n ≤ 0x200a) ||
    n ∈ [0x85, 0xa0, 0x1680, 0x2028, 0x2029, 0x202f, 0x205f, 0x3000]

/-- `text.strip()`. -/
def strip (text : String) : List Char :=
  ((text.toList.dropWhile isSpace).reverse.dropWhile isSpace).reverse

/-- The code points of the digit zero; the other nine digits follow each of them. -/
def decimalZeros : List Nat :=
  [0x30, 0x660, 0x6f0, 0x7c0, 0x966, 0x9e6, 0xa66, 0xae6, 0xb66, 0xbe6, 0xc66, 0xce6, 0xd66,
    0xde6, 0xe50, 0xed0, 0xf20, 0x1040, 0x1090, 0x17e0, 0x1810, 0x1946, 0x19d0, 0x1a80, 0x1a90,
    0x1b50, 0x1bb0, 0x1c40, 0x1c50, 0xa620, 0xa8d0, 0xa900, 0xa9d0, 0xa9f0, 0xaa50, 0xabf0,
    0xff10, 0x104a0, 0x10d30, 0x11066, 0x110f0, 0x11136, 0x111d0, 0x112f0, 0x11450, 0x114d0,
    0x11650, 0x116c0, 0x11730, 0x118e0, 0x11950, 0x11c50, 0x11d50, 0x11da0, 0x16a60, 0x16ac0,
    0x16b50, 0x1d7ce, 0x1d7d8, 0x1d7e2, 0x1d7ec, 0x1d7f6, 0x1e140, 0x1e2f0, 0x1e950, 0x1fbf0]

def digit? (c : Char) : Option Nat :=
  (decimalZeros.find? fun z => z ≤ c.toNat && c.toNat ≤ z + 9).map fun z => c.toNat - z

/-- Decimal digits, single underscores allowed between them. -/
def parseDigits : List Char → Nat → Option Nat
  | [], _ => Option.none
  | [c], n => (digit? c).map fun d => n * 10 + d
  | c :: '_' :: cs, n => (digit? c).bind fun d => parseDigits cs (n * 10 + d)
  | c :: cs, n => (digit? c).bind fun d => parseDigits cs (n * 10 + d)

/-- `int(text)`: white space, a sign, decimal digits. -/
def parseInt (text : String) : Option Int :=
  match strip text with
  | '-' :: cs => (parseDigits cs 0).map fun n => -(n : Int)
  | '+' :: cs => (parseDigits cs 0).map fun n => (n : Int)
  | cs => (parseDigits cs 0).map fun n => (n : Int)

/-- `int(v)`. -/
def toInt : PyVal → Except PyExc Int
  | .bool b => .ok (if b then 1 else 0)
  | .int i => .ok i
  | .float (.finite q) => .ok (q.num.tdiv q.den)
  | .float (.inf _) => .error (.overflowError "cannot convert float infinity to integer")
  | .float .nan => .error (.valueError "cannot convert float NaN to integer")
  | .str s =>
    match parseInt s with
    | some i => .ok i
    | Option.none => .error (.valueError s!"invalid literal for int() with base 10: '{s}'")
  | v => .error (.typeError s!"int() argument must be a string, a bytes-like object or a real number, not '{v.typeName}'")

/-- The least magnitude that rounds past the largest double. -/
def floatLimit : Nat := 2 ^ 1024 - 2 ^ 970

/-- `isinstance(v, (int, float))`, with `float(v)` where it is. -/
def toFloat? : PyVal → Option (Except PyExc PyFloat)
  | .bool b => some (.ok (.finite (if b then 1 else 0)))
  | .int i =>
    if i.natAbs < floatLimit then some (.ok (.finite i))
    else some (.error (.overflowError "int too large to convert to float"))
  | .float f => some (.ok f)
  | _ => Option.none

end PyVal

/-! ## JSON -/

/-- What the text in a JSON column stands for. -/
inductive Json
  | null
  | bool (b : Bool)
  | int (i : Int)
  | float (f : PyFloat)
  | str (s : String)
  | arr (xs : List Json)
  | obj (items : List (String × Json))

namespace PyKey

/-- `json.dumps(…, sort_keys=True)` compares the keys of a dictionary with `<`, which
is defined among strings and among numbers only. -/
def isStr : PyKey → Bool
  | .str _ => true
  | _ => false

def number? : PyKey → Option PyFloat
  | .int i => some (.finite i)
  | .bool b => some (.finite (if b then 1 else 0))
  | .float f => some f
  | _ => Option.none

def sortable (keys : List PyKey) : Bool :=
  keys.all isStr || keys.all (fun k => k.number?.isSome) || keys.length ≤ 1

/-- The member name written for a key. -/
def jsonName : PyKey → Except PyExc String
  | .str s => .ok s
  | .int i => .ok (toString i)
  | .bool b => .ok (if b then "true" else "false")
  | .float (.finite q) => .ok (toString q)
  | .float (.inf negative) => .ok (if negative then "-Infinity" else "Infinity")
  | .float .nan => .ok "NaN"
  | .none => .ok "null"
  | .other cls => .error (.typeError s!"keys must be str, int, float, bool or None, not {cls}")

/-- `k ≤ k'` where both are strings or both are numbers. -/
def le : PyKey → PyKey → Bool
  | .str s, .str s' => s ≤ s'
  | k, k' =>
    match k.number?, k'.number? with
    | some (.finite q), some (.finite q') => q ≤ q'
    | some (.inf true), _ => true
    | _, some (.inf false) => true
    | _, _ => false

end PyKey

mutual

/-- `json.dumps(v, sort_keys=True)`. -/
def PyVal.dumps : PyVal → Except PyExc Json
  | .none => .ok .null
  | .bool b => .ok (.bool b)
  | .int i => .ok (.int i)
  | .float f => .ok (.float f)
  | .str s => .ok (.str s)
  | .list xs => (dumpsList xs).map .arr
  | .dict items =>
    if PyKey.sortable (items.map (·.1)) then
      (dumpsItems items).map fun members =>
        .obj ((members.insertionSort fun a b => PyKey.le a.1 b.1).map (·.2))
    else .error (.typeError "'<' not supported between instances of different key types")
  | .mapping _ => .error (.typeError "Object of type mappingproxy is not JSON serializable")
  | .obj cls _ => .error (.typeError s!"Object of type {cls} is not JSON serializable")

def dumpsList : List PyVal → Except PyExc (List Json)
  | [] => .ok []
  | v :: vs => do return (← v.dumps) :: (← dumpsList vs)

def dumpsItems : List (PyKey × PyVal) → Except PyExc (List (PyKey × String × Json))
  | [] => .ok []
  | (k, v) :: rest => do return (k, ← k.jsonName, ← v.dumps) :: (← dumpsItems rest)

end

mutual

/-- `json.loads(text)`. -/
def Json.loads : Json → PyVal
  | .null => .none
  | .bool b => .bool b
  | .int i => .int i
  | .float f => .float f
  | .str s => .str s
  | .arr xs => .list (loadsList xs)
  | .obj items => .dict (loadsItems items)

def loadsList : List Json → List PyVal
  | [] => []
  | x :: xs => x.loads :: loadsList xs

def loadsItems : List (String × Json) → Dict
  | [] => []
  | (k, x) :: rest => (.str k, x.loads) :: loadsItems rest

end

/-- What a JSON column gives back for the dictionary that was written into it. -/
def Dict.throughJson (d : Dict) : Except PyExc Dict := do
  match (← (PyVal.dict d).dumps).loads with
  | .dict d' => return d'
  | _ => return []

example : (Dict.throughJson [(.str "b", .int 1), (.str "a", .list [.none])]).isOk = true := by
  decide +kernel

/-! ### Dictionaries the harness writes itself -/

/-- Text, numbers, `None` and lists of texts. -/
def PyVal.plain : PyVal → Bool
  | .none | .bool _ | .int _ | .float _ | .str _ => true
  | .list xs => xs.all fun | .str _ => true | _ => false
  | _ => false

private theorem dumpsList_texts {xs : List PyVal}
    (h : xs.all (fun | .str _ => true | _ => false) = true) :
    ∃ js, dumpsList xs = .ok js := by
  induction xs with
  | nil => exact ⟨[], rfl⟩
  | cons x xs ih =>
    simp only [List.all_cons, Bool.and_eq_true] at h
    obtain ⟨js, hjs⟩ := ih h.2
    cases x with
    | str s => exact ⟨.str s :: js, by simp only [dumpsList, PyVal.dumps, hjs]; rfl⟩
    | _ => simp at h

theorem PyVal.dumps_plain {v : PyVal} (h : v.plain = true) : ∃ j, v.dumps = .ok j := by
  cases v with
  | list xs =>
    obtain ⟨js, hjs⟩ := dumpsList_texts h
    exact ⟨.arr js, by simp only [PyVal.dumps, hjs]; rfl⟩
  | none | bool | int | float | str => exact ⟨_, rfl⟩
  | dict | mapping | obj => cases h

/-- String keys sort, whatever they are. -/
theorem PyKey.sortable_of_isStr {keys : List PyKey} (h : keys.all PyKey.isStr = true) :
    PyKey.sortable keys = true := by
  simp [PyKey.sortable, h]

theorem dumpsItems_isOk {d : Dict} :
    (dumpsItems d).isOk = true ↔
      ∀ kv ∈ d, kv.1.jsonName.isOk = true ∧ kv.2.dumps.isOk = true := by
  induction d with
  | nil => simp [dumpsItems, Except.isOk, Except.toBool]
  | cons kv d ih =>
    obtain ⟨k, v⟩ := kv
    rw [List.forall_mem_cons, ← ih]
    cases hk : k.jsonName <;> cases hv : v.dumps <;> cases hd : dumpsItems d <;>
      simp [dumpsItems, hk, hv, hd, bind, Except.bind, pure, Except.pure, Except.isOk,
        Except.toBool]

/-- When a dictionary can be written: its keys sort and are JSON names, its values are
encoded. -/
theorem Dict.throughJson_isOk {d : Dict} :
    d.throughJson.isOk = true ↔
      PyKey.sortable (d.map (·.1)) = true ∧
        ∀ kv ∈ d, kv.1.jsonName.isOk = true ∧ kv.2.dumps.isOk = true := by
  rw [← dumpsItems_isOk]
  cases hs : PyKey.sortable (d.map (·.1)) <;> cases hd : dumpsItems d <;>
    simp [Dict.throughJson, PyVal.dumps, hs, hd, Except.map, Json.loads, bind, Except.bind,
      pure, Except.pure, Except.isOk, Except.toBool]

/-- Reading back what was written does not fail. -/
theorem Dict.throughJson_isOk_eq (d : Dict) : d.throughJson.isOk = (PyVal.dict d).dumps.isOk := by
  unfold Dict.throughJson
  cases (PyVal.dict d).dumps with
  | error e => rfl
  | ok j =>
    change (match j.loads with | .dict d' => Except.ok d' | _ => Except.ok []).isOk = true
    split <;> rfl

theorem Dict.mem_of_get? {d : Dict} {k : String} {v : PyVal} (h : d.get? k = some v) :
    (PyKey.str k, v) ∈ d := by
  obtain ⟨⟨key, v'⟩, hf, rfl⟩ := Option.map_eq_some_iff.mp h
  have hk : key = .str k := by simpa using List.find?_some hf
  exact hk ▸ List.mem_of_find?_eq_some hf

/-- A value other than `None` is an entry. -/
theorem Dict.mem_of_get {d : Dict} {k : String} {v : PyVal} (h : d.get k = v) (hv : v ≠ .none) :
    (PyKey.str k, v) ∈ d := by
  unfold Dict.get at h
  cases hg : d.get? k with
  | none => rw [hg] at h; exact absurd h.symm hv
  | some v' =>
    rw [hg] at h
    obtain rfl : v' = v := h
    exact Dict.mem_of_get? hg

/-- The values of a dictionary that can be written can be written. -/
theorem Dict.dumps_get {d : Dict} (h : d.throughJson.isOk = true) (k : String) :
    (d.get k).dumps.isOk = true := by
  unfold Dict.get
  cases hg : d.get? k with
  | none => rfl
  | some v =>
    exact ((Dict.throughJson_isOk.mp h).2 _ (Dict.mem_of_get? hg)).2

/-- A display of plain values under string keys is encoded. -/
theorem Dict.throughJson_ofList {items : List (String × PyVal)}
    (h : items.all (·.2.plain) = true) : (Dict.ofList items).throughJson.isOk = true := by
  refine Dict.throughJson_isOk.mpr ⟨PyKey.sortable_of_isStr ?_, ?_⟩
  · simp [Dict.ofList, PyKey.isStr]
  · intro kv hkv
    obtain ⟨item, hm, rfl⟩ := List.mem_map.mp hkv
    obtain ⟨j, hj⟩ := PyVal.dumps_plain (List.all_eq_true.mp h item hm)
    exact ⟨rfl, by rw [hj]; rfl⟩

/-- Setting a plain value in a dictionary with string keys keeps it writable. -/
theorem Dict.throughJson_set {d : Dict} {k : String} {v : PyVal} (hv : v.plain = true)
    (hk : (d.map (·.1)).all PyKey.isStr = true) (hd : d.throughJson.isOk = true) :
    ((d.set k v).map (·.1)).all PyKey.isStr = true ∧ (d.set k v).throughJson.isOk = true := by
  obtain ⟨j, hj⟩ := PyVal.dumps_plain hv
  have hvals := (Dict.throughJson_isOk.mp hd).2
  have hkeys : ((d.set k v).map (·.1)).all PyKey.isStr = true := by
    unfold Dict.set
    split
    · have : (d.map fun kv => if kv.1 = .str k then (kv.1, v) else kv).map (·.1) =
          d.map (·.1) := by
        rw [List.map_map]
        exact List.map_congr_left fun kv _ => by simp only [Function.comp]; split <;> rfl
      rw [this]; exact hk
    · rw [List.map_append, List.all_append, hk]; rfl
  refine ⟨hkeys, Dict.throughJson_isOk.mpr ⟨PyKey.sortable_of_isStr hkeys, ?_⟩⟩
  intro kv hkv
  unfold Dict.set at hkv
  split at hkv
  · obtain ⟨kv', hm, rfl⟩ := List.mem_map.mp hkv
    split
    · exact ⟨(hvals kv' hm).1, by simp only [hj]; rfl⟩
    · exact hvals kv' hm
  · rcases List.mem_append.mp hkv with hm | hm
    · exact hvals kv hm
    · obtain rfl := List.mem_singleton.mp hm
      exact ⟨rfl, by simp only [hj]; rfl⟩

private theorem jsonName_error {k : PyKey} {x : PyExc} (h : k.jsonName = .error x) :
    x.cls = "TypeError" := by
  cases k with
  | other cls => obtain rfl := Except.error.inj h; rfl
  | float f => cases f <;> cases h
  | _ => cases h

mutual

private theorem dumps_error : ∀ (v : PyVal) (x : PyExc), v.dumps = .error x → x.cls = "TypeError"
  | .none, _, h | .bool _, _, h | .int _, _, h | .float _, _, h | .str _, _, h => by cases h
  | .list xs, x, h => by
    rw [PyVal.dumps] at h
    cases hd : dumpsList xs with
    | ok js => rw [hd] at h; cases h
    | error y => rw [hd] at h; obtain rfl := Except.error.inj h; exact dumpsList_error xs y hd
  | .dict items, x, h => by
    rw [PyVal.dumps] at h
    split at h
    · cases hd : dumpsItems items with
      | ok js => rw [hd] at h; cases h
      | error y => rw [hd] at h; obtain rfl := Except.error.inj h; exact dumpsItems_error items y hd
    · obtain rfl := Except.error.inj h; rfl
  | .mapping _, _, h | .obj _ _, _, h => by
    rw [PyVal.dumps] at h
    obtain rfl := Except.error.inj h
    rfl

private theorem dumpsList_error :
    ∀ (vs : List PyVal) (x : PyExc), dumpsList vs = .error x → x.cls = "TypeError"
  | [], _, h => by cases h
  | v :: vs, x, h => by
    rw [dumpsList] at h
    cases hv : v.dumps with
    | error y => rw [hv] at h; obtain rfl := Except.error.inj h; exact dumps_error v y hv
    | ok j =>
      cases hs : dumpsList vs with
      | ok js => rw [hv, hs] at h; cases h
      | error y => rw [hv, hs] at h; obtain rfl := Except.error.inj h; exact dumpsList_error vs y hs

private theorem dumpsItems_error :
    ∀ (d : List (PyKey × PyVal)) (x : PyExc), dumpsItems d = .error x → x.cls = "TypeError"
  | [], _, h => by cases h
  | (k, v) :: rest, x, h => by
    rw [dumpsItems] at h
    cases hk : k.jsonName with
    | error y => rw [hk] at h; obtain rfl := Except.error.inj h; exact jsonName_error hk
    | ok name =>
      cases hv : v.dumps with
      | error y => rw [hk, hv] at h; obtain rfl := Except.error.inj h; exact dumps_error v y hv
      | ok j =>
        cases hs : dumpsItems rest with
        | ok js => rw [hk, hv, hs] at h; cases h
        | error y =>
          rw [hk, hv, hs] at h
          obtain rfl := Except.error.inj h
          exact dumpsItems_error rest y hs

end

/-- A dictionary that cannot be written is a `TypeError`. -/
theorem Dict.throughJson_error {d : Dict} {x : PyExc} (h : d.throughJson = .error x) :
    x.cls = "TypeError" := by
  unfold Dict.throughJson at h
  cases hd : (PyVal.dict d).dumps with
  | error y => rw [hd] at h; obtain rfl := Except.error.inj h; exact dumps_error _ y hd
  | ok j =>
    rw [hd] at h
    simp only [bind, Except.bind] at h
    split at h <;> cases h

end FineTuneHarness
