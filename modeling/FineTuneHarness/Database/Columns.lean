import FineTuneHarness.Registry.MetricsHook
import FineTuneHarness.State.LeaseChecks

/-!
# The texts in the columns

SQLite keeps time stamps, statuses and structured values as text. Here is what is written for each
and what comes back: `fromisoformat` after `isoformat`, `json.loads` after `json.dumps` with sorted
keys, the enumeration member of a status text.
-/
namespace FineTuneHarness

open Library Library.JsonText
open MetricsHook (loadValue loadItems loadMembers spaced)

/-! ## Time stamps -/

namespace DateTime

def digit? (c : Char) : Option Nat := if c.isDigit then some (c.toNat - '0'.toNat) else none

/-- A number of a given width. -/
def readField (width : Nat) (cs : List Char) : Option (Nat × List Char) := readNumeral 10 digit? width 0 cs

def skip (c : Char) : List Char → Option (List Char)
  | [] => none
  | d :: cs => if d = c then some cs else none

/-- `.ffffff`, or nothing. -/
def readFraction : List Char → Option (Nat × List Char)
  | '.' :: cs => readField 6 cs
  | cs => some (0, cs)

/-- The microseconds of an offset: `Z`, `+hh:mm` or `-hh:mm`. -/
def readOffset : List Char → Option Int
  | ['Z'] => some 0
  | sign :: cs => do
    let (hours, cs) ← readField 2 cs
    let cs ← skip ':' cs
    let (minutes, cs) ← readField 2 cs
    let offset : Int := (hours * 60 + minutes : Nat) * 60000000
    if cs ≠ [] ∨ minutes ≥ 60 ∨ hours ≥ 24 then none
    else if sign = '+' then some offset
    else if sign = '-' then some (-offset)
    else none
  | [] => none

/-- `datetime(…)`, where the fields are those of a date and a time. -/
def ofFields (year month day hour minute second microsecond : Nat) : Option DateTime :=
  if h : (1 ≤ year ∧ year ≤ 9999 ∧ 1 ≤ month ∧ month ≤ 12 ∧ 1 ≤ day ∧
      day ≤ Calendar.daysInMonth (Calendar.isLeap year) month) ∧
      hour < 24 ∧ minute < 60 ∧ second < 60 ∧ microsecond < 1000000 then
    some {
      year, month, day, hour, minute, second, microsecond
      year_pos := h.1.1
      year_le := h.1.2.1
      month_pos := h.1.2.2.1
      month_le := h.1.2.2.2.1
      day_pos := h.1.2.2.2.2.1
      day_le := h.1.2.2.2.2.2
      hour_lt := h.2.1
      minute_lt := h.2.2.1
      second_lt := h.2.2.2.1
      microsecond_lt := h.2.2.2.2 }
  else none

/-- `datetime.fromisoformat`, as the instant that is meant: the calendar form with seconds and an
offset. The other forms of ISO 8601, which nobody writes here, are not read. -/
def fromisoformat (text : String) : Option Instant := do
  let (year, cs) ← readField 4 text.toList
  let cs ← skip '-' cs
  let (month, cs) ← readField 2 cs
  let cs ← skip '-' cs
  let (day, cs) ← readField 2 cs
  let cs ← skip 'T' cs
  let (hour, cs) ← readField 2 cs
  let cs ← skip ':' cs
  let (minute, cs) ← readField 2 cs
  let cs ← skip ':' cs
  let (second, cs) ← readField 2 cs
  let (microsecond, cs) ← readFraction cs
  let offset ← readOffset cs
  let d ← ofFields year month day hour minute second microsecond
  return d.toInstant - offset

theorem digit?_digitChar : ∀ m < 10, digit? (Nat.digitChar m) = some m := by
  decide

theorem readField_decimal {k n : Nat} (hn : n < 10 ^ k) (cs : List Char) :
    readField k (decimal k n ++ cs) = some (n, cs) :=
  readNumeral_numeral digit?_digitChar (by decide) hn cs

theorem skip_cons (c : Char) (cs : List Char) : skip c (c :: cs) = some cs := if_pos rfl

/-- The fraction and the offset, as `isoformat` writes them. -/
theorem readFraction_isoFraction {microsecond : Nat} (h : microsecond < 1000000) :
    ∃ cs, readFraction (isoFraction microsecond) = some (microsecond, cs) ∧ readOffset cs = some 0 := by
  unfold isoFraction
  by_cases h0 : microsecond = 0
  · rw [if_pos h0, h0]
    exact ⟨_, rfl, by decide⟩
  · rw [if_neg h0]
    refine ⟨"+00:00".toList, ?_, by decide⟩
    exact readField_decimal (by omega) _

theorem ofFields_self (d : DateTime) :
    ofFields d.year d.month d.day d.hour d.minute d.second d.microsecond = some d :=
  dif_pos ⟨⟨d.year_pos, d.year_le, d.month_pos, d.month_le, d.day_pos, d.day_le⟩, d.hour_lt,
    d.minute_lt, d.second_lt, d.microsecond_lt⟩

/-- **Every time stamp reads back.** -/
theorem fromisoformat_isoformat (d : DateTime) : fromisoformat d.isoformat = some d.toInstant := by
  have hyear : d.year < 10 ^ 4 := Nat.lt_succ_of_le d.year_le
  have hhour : d.hour < 10 ^ 2 := by have := d.hour_lt; omega
  have hminute : d.minute < 10 ^ 2 := by have := d.minute_lt; omega
  have hsecond : d.second < 10 ^ 2 := by have := d.second_lt; omega
  obtain ⟨cs, hfraction, hoffset⟩ := readFraction_isoFraction d.microsecond_lt
  rw [fromisoformat, isoformat, String.toList_ofList, isoChars]
  simp only [Option.bind_eq_bind]
  rw [readField_decimal hyear, Option.bind_some, skip_cons, Option.bind_some,
    readField_decimal d.month_lt, Option.bind_some, skip_cons, Option.bind_some,
    readField_decimal d.day_lt, Option.bind_some, skip_cons, Option.bind_some,
    readField_decimal hhour, Option.bind_some, skip_cons, Option.bind_some,
    readField_decimal hminute, Option.bind_some, skip_cons, Option.bind_some,
    readField_decimal hsecond, Option.bind_some, hfraction, Option.bind_some, hoffset,
    Option.bind_some, ofFields_self, Option.bind_some, Int.sub_zero]
  rfl

end DateTime

open DateTime (InRange fromisoformat)

theorem fromisoformat_isoText {i : Instant} (h : InRange i) : fromisoformat (isoText i) = some i := by
  rw [isoText, dif_pos h, DateTime.fromisoformat_isoformat, DateTime.toInstant_ofInstant]

theorem isoText_ne_empty {i : Instant} (h : InRange i) : isoText i ≠ "" := by
  intro hempty
  have hread := fromisoformat_isoText h
  rw [hempty] at hread
  cases hread

/-! ## Structured values -/

section Json

theorem map_loadsItems (items : List (String × Json)) :
    (loadsItems items).map (·.1) = (valueMembers items).map (PyKey.str ·.1) := by
  rw [loadsItems_eq, valueMembers_eq, List.map_map, List.map_map]
  rfl

mutual

/-- Where no object has two members of one name, `json.loads` gives back what was written. -/
theorem loadValue_value (j : Json) (h : j.value.distinct = true) : loadValue j.value = j.loads := by
  cases j with
  | null | bool | int | float | str => rfl
  | arr xs => rw [Json.value, loadValue, Json.loads, loadItems_valueItems xs h]
  | obj items =>
    rw [Json.value, Value.distinct, Bool.and_eq_true] at h
    have hnodup : ((loadsItems items).map (·.1)).Nodup := by
      rw [map_loadsItems]
      have hnames := (of_decide_eq_true h.1).map fun _ _ => PyKey.str.inj
      rw [List.map_map] at hnames
      exact hnames
    rw [Json.value, loadValue, Json.loads, loadMembers_valueMembers items h.2,
      Assoc.merge_nil hnodup]

theorem loadItems_valueItems (xs : List Json) (h : itemsDistinct (valueItems xs) = true) :
    loadItems (valueItems xs) = loadsList xs := by
  cases xs with
  | nil => rfl
  | cons x xs =>
    rw [valueItems, itemsDistinct, Bool.and_eq_true] at h
    rw [valueItems, loadItems, loadsList, loadValue_value x h.1, loadItems_valueItems xs h.2]

theorem loadMembers_valueMembers (items : List (String × Json))
    (h : membersDistinct (valueMembers items) = true) :
    loadMembers (valueMembers items) = loadsItems items := by
  cases items with
  | nil => rfl
  | cons item items =>
    obtain ⟨k, x⟩ := item
    rw [valueMembers, membersDistinct, Bool.and_eq_true] at h
    rw [valueMembers, loadMembers, loadsItems, loadValue_value x h.1,
      loadMembers_valueMembers items h.2]

end

variable (fl : Floats PyFloat)

/-- `json.dumps(d, sort_keys=True)`. -/
def columnText (d : Dict) : Except PyExc String :=
  (PyVal.dict d).dumps.map fun j => String.ofList (encode fl spaced j.value)

/-- `json.loads(text)`. -/
def loadsText (text : String) : Option PyVal := (decode fl text.toList).map loadValue

/-- What is written for the dictionary can be read back: the floats in it are spelled legibly, and
no two keys of an object are written with one name. -/
def Document (d : Dict) : Prop :=
  ∀ j, (PyVal.dict d).dumps = .ok j → j.value.distinct = true ∧ ∀ f ∈ j.value.floats, fl.Legible f

variable {fl} {d d' : Dict}

theorem columnText_error {e : PyExc} (h : d.throughJson = .error e) : columnText fl d = .error e := by
  unfold Dict.throughJson at h
  unfold columnText
  cases hj : (PyVal.dict d).dumps with
  | error x =>
    rw [hj] at h
    rw [← Except.error.inj h]
    rfl
  | ok j =>
    obtain ⟨items, rfl⟩ := PyVal.dumps_dict hj
    rw [hj] at h
    cases h

/-- **What is written into a column comes back out of it.** -/
theorem columnText_ok (hd : Document fl d) (h : d.throughJson = .ok d') :
    ∃ text, columnText fl d = .ok text ∧ text ≠ "" ∧ loadsText fl text = some (.dict d') := by
  unfold Dict.throughJson at h
  cases hj : (PyVal.dict d).dumps with
  | error x =>
    rw [hj] at h
    cases h
  | ok j =>
    obtain ⟨hdistinct, hfloats⟩ := hd j hj
    obtain ⟨items, rfl⟩ := PyVal.dumps_dict hj
    rw [hj] at h
    obtain rfl : loadsItems items = d' := Except.ok.inj h
    have hread : decode fl (encode fl spaced (Json.obj items).value) = some (Json.obj items).value :=
      decode_of_legible _ hfloats
    refine ⟨String.ofList (encode fl spaced (Json.obj items).value), ?_, ?_, ?_⟩
    · rw [columnText, hj]
      rfl
    · intro hempty
      have hnil := congrArg String.toList hempty
      rw [String.toList_ofList] at hnil
      have hbraces : ∃ cs, encode fl spaced (.obj (valueMembers items)) = '{' :: (cs ++ ['}']) :=
        encode_obj (valueMembers items)
      obtain ⟨cs, hcs⟩ := hbraces
      rw [Json.value, hcs] at hnil
      cases hnil
    · rw [loadsText, String.toList_ofList, hread, Option.map_some, loadValue_value _ hdistinct]
      rfl

/-! ### What the store writes itself -/

/-- The JSON value of a text, a number or `None`. -/
def flatJson : PyVal → Option Json
  | .none => some .null
  | .int i => some (.int i)
  | .str s => some (.str s)
  | _ => none

theorem flatJson_spec {v : PyVal} {j : Json} (h : flatJson v = some j) :
    v.dumps = .ok j ∧ j.loads = v ∧ j.value.distinct = true ∧ j.value.floats = [] := by
  cases v with
  | none | int | str =>
    obtain rfl := Option.some.inj h
    exact ⟨rfl, rfl, rfl, rfl⟩
  | _ => cases h

theorem dumpsItems_flat {items : List (String × PyVal)} {xs : List (String × Json)}
    (h : List.Forall₂ (fun kv x => kv.1 = x.1 ∧ flatJson kv.2 = some x.2) items xs) :
    dumpsItems (Dict.ofList items) = .ok (xs.map fun x => (.str x.1, x)) ∧
      loadsItems xs = Dict.ofList items := by
  induction h with
  | nil => exact ⟨rfl, rfl⟩
  | @cons kv x items xs hkv _ ih =>
    obtain ⟨k, v⟩ := kv
    obtain ⟨k', j⟩ := x
    obtain ⟨rfl, hflat⟩ := hkv
    obtain ⟨hdumps, hloads, -⟩ := flatJson_spec hflat
    constructor
    · show dumpsItems ((.str k, v) :: Dict.ofList items) = _
      rw [dumpsItems, hdumps, ih.1]
      rfl
    · rw [loadsItems, hloads, ih.2]
      rfl

/-- **Flat items in the order of their names** are written as they are. -/
theorem ofList_flat {items : List (String × PyVal)} {xs : List (String × Json)}
    (h : List.Forall₂ (fun kv x => kv.1 = x.1 ∧ flatJson kv.2 = some x.2) items xs)
    (hsorted : (xs.map (·.1)).Pairwise (· < ·)) :
    Document fl (Dict.ofList items) ∧ (Dict.ofList items).throughJson = .ok (Dict.ofList items) := by
  obtain ⟨hdumps, hloads⟩ := dumpsItems_flat h
  have hle : xs.Pairwise fun a b => a.1 ≤ b.1 := by
    rw [List.pairwise_map] at hsorted
    exact hsorted.imp fun hlt => le_of_lt hlt
  have hkeys : ((Dict.ofList items).map (·.1)).all PyKey.isStr = true := by
    simp [Dict.ofList, PyKey.isStr]
  have hj : (PyVal.dict (Dict.ofList items)).dumps = .ok (.obj xs) := by
    rw [PyVal.dumps, if_pos (PyKey.sortable_of_isStr hkeys), hdumps]
    show Except.ok (Json.obj _) = _
    rw [insertionSort_strings, sortMembers, List.Pairwise.insertionSort_eq hle]
  constructor
  · intro j hj'
    obtain rfl : Json.obj xs = j := Except.ok.inj (hj.symm.trans hj')
    have hitems : ∀ x ∈ xs, x.2.value.distinct = true ∧ x.2.value.floats = [] := by
      intro x hx
      obtain ⟨i, hi, rfl⟩ := List.mem_iff_getElem.mp hx
      have hflat := (List.forall₂_iff_get.mp h).2 i (h.length_eq ▸ hi) hi
      exact (flatJson_spec hflat.2).2.2
    rw [Json.value, valueMembers_eq]
    constructor
    · rw [Value.distinct, Bool.and_eq_true, membersDistinct_iff, decide_eq_true_eq, List.map_map]
      refine ⟨hsorted.imp fun hlt => ne_of_lt hlt, fun m hm => ?_⟩
      obtain ⟨x, hx, rfl⟩ := List.mem_map.mp hm
      exact (hitems x hx).1
    · intro f hf
      obtain ⟨m, hm, hf⟩ := mem_memberFloats.mp hf
      obtain ⟨x, hx, rfl⟩ := List.mem_map.mp hm
      rw [(hitems x hx).2] at hf
      cases hf
  · unfold Dict.throughJson
    rw [hj]
    show Except.ok (loadsItems xs) = _
    rw [hloads]

end Json

/-! ## Statuses -/

/-- `RunStatus(text)`. -/
def RunStatus.ofText (text : String) : Option RunStatus :=
  [created, validated, running, partialFailed, failed, completed, cancelled].find? fun st =>
    st.value = text

/-- `TaskStatus(text)`. -/
def TaskStatus.ofText (text : String) : Option TaskStatus :=
  [pending, leased, running, succeeded, failed, timedOut, degenerate, cancelled].find? fun st =>
    st.value = text

@[simp] theorem RunStatus.ofText_value (st : RunStatus) : ofText st.value = some st := by
  cases st <;> decide

@[simp] theorem TaskStatus.ofText_value (st : TaskStatus) : ofText st.value = some st := by
  cases st <;> decide

theorem TaskStatus.value_inj {a b : TaskStatus} : a.value = b.value ↔ a = b := by
  constructor
  · intro h
    have htext := TaskStatus.ofText_value a
    rw [h, TaskStatus.ofText_value] at htext
    exact (Option.some.inj htext).symm
  · intro h
    rw [h]

end FineTuneHarness
