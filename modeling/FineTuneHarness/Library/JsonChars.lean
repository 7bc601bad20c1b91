import FineTuneHarness.Library.FixedWidth
import Mathlib.Data.List.TakeWhile
import Mathlib.Data.Nat.Notation

/-!
# Strings and integers in JSON texts

Strings are quoted and integers are written as Python's `json.dumps` does it, with `ensure_ascii`
or without. What a scanner finds at the beginning of a text is what was written there.
-/
namespace Library

namespace JsonText

/-! ## Characters -/

def isSpace (c : Char) : Bool := c = ' ' || c = '\t' || c = '\n' || c = '\r'

/-- The escapes of two characters, with the characters they stand for. -/
def shortEscapes : List (Char × Char) :=
  [('"', '"'), ('\\', '\\'), ('n', '\n'), ('r', '\r'), ('t', '\t'), ('b', '\x08'), ('f', '\x0c')]

def hex4 (n : Nat) : List Char := numeral 16 Nat.digitChar 4 n

/-- `\uXXXX`, or two of them beyond the basic plane. -/
def unicodeEscape (n : Nat) : List Char :=
  if n < 0x10000 then '\\' :: 'u' :: hex4 n
  else '\\' :: 'u' :: (hex4 (0xd800 + (n - 0x10000) / 0x400) ++
    '\\' :: 'u' :: hex4 (0xdc00 + (n - 0x10000) % 0x400))

/-- A character as it stands in a string. -/
def escape (ascii : Bool) (c : Char) : List Char :=
  match shortEscapes.find? (·.2 = c) with
  | some e => ['\\', e.1]
  | none =>
    if c.toNat < 0x20 ∨ ascii = true ∧ 0x7e < c.toNat then unicodeEscape c.toNat else [c]

def hexDigit? (c : Char) : Option Nat :=
  if '0' ≤ c ∧ c ≤ '9' then some (c.toNat - 48)
  else if 'a' ≤ c ∧ c ≤ 'f' then some (c.toNat - 87)
  else if 'A' ≤ c ∧ c ≤ 'F' then some (c.toNat - 55)
  else none

def readHex4 : List Char → Option (Nat × List Char)
  | a :: b :: c :: d :: cs => do
    let a ← hexDigit? a
    let b ← hexDigit? b
    let c ← hexDigit? c
    let d ← hexDigit? d
    some (((a * 16 + b) * 16 + c) * 16 + d, cs)
  | _ => none

/-- What follows `\u`. Half of a pair by itself is no character. -/
def scanUnicode (cs : List Char) : Option (Char × List Char) := do
  let (n, cs) ← readHex4 cs
  if 0xd800 ≤ n ∧ n < 0xdc00 then
    match cs with
    | a :: b :: cs =>
      if a = '\\' ∧ b = 'u' then do
        let (m, cs) ← readHex4 cs
        if 0xdc00 ≤ m ∧ m < 0xe000 then
          some (Char.ofNat (0x10000 + (n - 0xd800) * 0x400 + (m - 0xdc00)), cs)
        else none
      else none
    | _ => none
  else if 0xdc00 ≤ n ∧ n < 0xe000 then none
  else some (Char.ofNat n, cs)

/-- One character of a string. -/
def scanChar : List Char → Option (Char × List Char)
  | [] => none
  | c :: cs =>
    if c = '\\' then
      match cs with
      | [] => none
      | e :: cs =>
        if e = 'u' then scanUnicode cs
        else (((('/', '/') :: shortEscapes).find? (·.1 = e)).map fun p => (p.2, cs))
    else if c.toNat < 0x20 then none
    else some (c, cs)

theorem hexDigit?_digitChar : ∀ n < 16, hexDigit? (Nat.digitChar n) = some n := by
  decide

theorem readHex4_hex4 {n : Nat} (h : n < 0x10000) (cs : List Char) :
    readHex4 (hex4 n ++ cs) = some (n, cs) := by
  have hd : ∀ m, hexDigit? (Nat.digitChar (m % 16)) = some (m % 16) :=
    fun m => hexDigit?_digitChar _ (Nat.mod_lt m (by decide))
  simp only [hex4, numeral, List.nil_append, List.cons_append, readHex4, hd, Option.bind_eq_bind,
    Option.bind_some, Option.some.injEq, Prod.mk.injEq, and_true]
  omega

/-- Code points of characters are no halves of pairs. -/
theorem toNat_scalar (c : Char) : c.toNat < 0xd800 ∨ 0xdfff < c.toNat ∧ c.toNat < 0x110000 := by
  have h := c.valid
  rw [UInt32.isValidChar, Nat.isValidChar] at h
  exact h

theorem scanUnicode_hex4 {n : Nat} (hn : n < 0x10000) (hpair : ¬ (0xd800 ≤ n ∧ n < 0xe000))
    (cs : List Char) : scanUnicode (hex4 n ++ cs) = some (Char.ofNat n, cs) := by
  rw [scanUnicode, readHex4_hex4 hn]
  show (if 0xd800 ≤ n ∧ n < 0xdc00 then _ else if 0xdc00 ≤ n ∧ n < 0xe000 then _ else _) = _
  rw [if_neg (by omega), if_neg (by omega)]

theorem scanUnicode_pair {n m : Nat} (hn : n < 0x400) (hm : m < 0x400) (cs : List Char) :
    scanUnicode (hex4 (0xd800 + n) ++ '\\' :: 'u' :: (hex4 (0xdc00 + m) ++ cs)) =
      some (Char.ofNat (0x10000 + n * 0x400 + m), cs) := by
  rw [scanUnicode, readHex4_hex4 (by omega)]
  show (if 0xd800 ≤ 0xd800 + n ∧ 0xd800 + n < 0xdc00 then _ else _) = _
  rw [if_pos (by omega)]
  show (if _ then _ else _) = _
  rw [if_pos ⟨rfl, rfl⟩, readHex4_hex4 (by omega)]
  show (if 0xdc00 ≤ 0xdc00 + m ∧ 0xdc00 + m < 0xe000 then _ else _) = _
  rw [if_pos (by omega), Nat.add_sub_cancel_left, Nat.add_sub_cancel_left]

theorem scanChar_unicodeEscape (c : Char) (cs : List Char) :
    scanChar (unicodeEscape c.toNat ++ cs) = some (c, cs) := by
  have hscan : ∀ ds, scanChar ('\\' :: 'u' :: ds) = scanUnicode ds := fun ds => rfl
  have hc := toNat_scalar c
  have hchar : Char.ofNat c.toNat = c := Char.ofNat_toNat c
  generalize c.toNat = n at hc hchar
  unfold unicodeEscape
  by_cases hn : n < 0x10000
  · rw [if_pos hn, List.cons_append, List.cons_append, hscan, scanUnicode_hex4 hn (by omega), hchar]
  · have hvalue : 0x10000 + (n - 0x10000) / 0x400 * 0x400 + (n - 0x10000) % 0x400 = n := by omega
    rw [if_neg hn, List.cons_append, List.cons_append, List.append_assoc, List.cons_append,
      List.cons_append, hscan, scanUnicode_pair (by omega) (by omega), hvalue, hchar]

theorem scanChar_escape (ascii : Bool) (c : Char) (cs : List Char) :
    scanChar (escape ascii c ++ cs) = some (c, cs) := by
  unfold escape
  cases hshort : shortEscapes.find? (·.2 = c) with
  | some e =>
    have hmem := List.mem_of_find?_eq_some hshort
    have hc : e.2 = c := by simpa using List.find?_some hshort
    have hback : ∀ e ∈ shortEscapes, e.1 ≠ 'u' ∧
        (('/', '/') :: shortEscapes).find? (·.1 = e.1) = some e := by decide
    obtain ⟨hu, hfind⟩ := hback e hmem
    show (if _ then _ else (List.find? _ _).map _) = _
    rw [if_neg hu, hfind, ← hc]
    rfl
  | none =>
    have hplain : c ≠ '\\' := by
      have := List.find?_eq_none.mp hshort ('\\', '\\') (by decide)
      simpa [eq_comm] using this
    dsimp only
    by_cases hesc : c.toNat < 0x20 ∨ ascii = true ∧ 0x7e < c.toNat
    · rw [if_pos hesc]
      exact scanChar_unicodeEscape c cs
    · rw [if_neg hesc]
      show (if c = '\\' then _ else if c.toNat < 0x20 then none else some (c, cs)) = _
      rw [if_neg hplain, if_neg fun h => hesc (.inl h)]

/-! ## Printable characters -/

/-- The characters from the space to the tilde. -/
def Printable (c : Char) : Prop := 0x20 ≤ c.toNat ∧ c.toNat ≤ 0x7e

instance (c : Char) : Decidable (Printable c) := inferInstanceAs (Decidable (_ ∧ _))

theorem printable_hex4 {n : Nat} : ∀ c ∈ hex4 n, Printable c := by
  have hdigits : ∀ m < 16, Printable (Nat.digitChar m) := by decide
  intro c hc
  obtain ⟨m, hm, rfl⟩ := mem_numeral (by decide) hc
  exact hdigits m hm

theorem printable_unicodeEscape {n : Nat} : ∀ c ∈ unicodeEscape n, Printable c := by
  have hstart : ∀ m : Nat, ∀ c ∈ '\\' :: 'u' :: hex4 m, Printable c := fun m =>
    List.forall_mem_cons.mpr ⟨by decide, List.forall_mem_cons.mpr ⟨by decide, printable_hex4⟩⟩
  unfold unicodeEscape
  split
  · exact hstart n
  · intro c hc
    exact (List.mem_append.mp hc).elim (hstart _ c) (hstart _ c)

/-- With `ensure_ascii` every character is printable. -/
theorem printable_escape (c : Char) : ∀ d ∈ escape true c, Printable d := by
  unfold escape
  cases hshort : shortEscapes.find? (·.2 = c) with
  | some e =>
    have hplain : ∀ e ∈ shortEscapes, Printable e.1 := by decide
    have he := hplain e (List.mem_of_find?_eq_some hshort)
    exact List.forall_mem_cons.mpr ⟨by decide, List.forall_mem_singleton.mpr he⟩
  | none =>
    dsimp only
    split
    next => exact printable_unicodeEscape
    next hesc =>
      rw [List.forall_mem_singleton, Printable]
      have hhigh : ¬ 0x7e < c.toNat := fun h => hesc (.inr ⟨rfl, h⟩)
      omega

/-! ## Strings -/

def quote (ascii : Bool) (s : List Char) : List Char := '"' :: (s.flatMap (escape ascii) ++ ['"'])

/-- The characters up to the closing quote, at most `n` of them. -/
def scanString : Nat → List Char → Option (List Char × List Char)
  | 0, _ => none
  | n + 1, cs =>
    if cs.head? = some '"' then some ([], cs.tail)
    else do
      let (c, cs) ← scanChar cs
      let (s, cs) ← scanString n cs
      some (c :: s, cs)

theorem escape_ne_quote (ascii : Bool) (c : Char) (cs : List Char) :
    (escape ascii c ++ cs).head? ≠ some '"' := by
  unfold escape
  cases hshort : shortEscapes.find? (·.2 = c) with
  | some e => simp
  | none =>
    have hc : c ≠ '"' := by
      have := List.find?_eq_none.mp hshort ('"', '"') (by decide)
      simpa [eq_comm] using this
    dsimp only
    by_cases hesc : c.toNat < 0x20 ∨ ascii = true ∧ 0x7e < c.toNat
    · rw [if_pos hesc, unicodeEscape]
      split <;> simp
    · rw [if_neg hesc]
      simpa using hc

theorem length_le_escaped (ascii : Bool) (s : List Char) :
    s.length ≤ (s.flatMap (escape ascii)).length := by
  induction s with
  | nil => exact Nat.le_refl 0
  | cons c s ih =>
    have hpos : escape ascii c ≠ [] := by
      intro h
      have hscan := scanChar_escape ascii c []
      rw [h] at hscan
      cases hscan
    have := List.length_pos_iff.mpr hpos
    rw [List.flatMap_cons, List.length_append, List.length_cons]
    omega

theorem length_lt_escaped (ascii : Bool) (s cs : List Char) :
    s.length < (s.flatMap (escape ascii) ++ '"' :: cs).length := by
  have := length_le_escaped ascii s
  rw [List.length_append, List.length_cons]
  omega

theorem scanString_quote (ascii : Bool) {s : List Char} {n : Nat} (hn : s.length < n)
    (cs : List Char) :
    scanString n (s.flatMap (escape ascii) ++ '"' :: cs) = some (s, cs) := by
  induction s generalizing n with
  | nil =>
    obtain ⟨n, rfl⟩ := Nat.exists_eq_succ_of_ne_zero (Nat.ne_of_gt hn)
    rfl
  | cons c s ih =>
    obtain ⟨n, rfl⟩ := Nat.exists_eq_succ_of_ne_zero (Nat.ne_of_gt (Nat.zero_lt_of_lt hn))
    have hrest := ih (n := n) (by rw [List.length_cons] at hn; omega)
    rw [List.flatMap_cons, List.append_assoc, scanString, if_neg (escape_ne_quote _ _ _),
      scanChar_escape]
    dsimp only [bind, Option.bind]
    rw [hrest]

theorem printable_quote (s : List Char) : ∀ d ∈ quote true s, Printable d := by
  intro d hd
  rcases List.mem_cons.mp hd with rfl | hd
  · decide
  rcases List.mem_append.mp hd with hd | hd
  · obtain ⟨c, -, hc⟩ := List.mem_flatMap.mp hd
    exact printable_escape c d hc
  · rw [List.mem_singleton.mp hd]
    decide

/-! ## Numbers and names -/

/-- The characters of numbers and of `null`, `true` and `false`. -/
def atomChar (c : Char) : Bool := c.isAlphanum || c = '-' || c = '+' || c = '.'

/-- The characters of numbers alone. -/
def numberChar (c : Char) : Bool := c.isDigit || c = '-' || c = '+' || c = '.' || c = 'e'

def intText (i : Int) : List Char :=
  if i < 0 then '-' :: Nat.toDigits 10 i.natAbs else Nat.toDigits 10 i.natAbs

def readNat (cs : List Char) : Option Nat :=
  if cs ≠ [] ∧ cs.all Char.isDigit = true ∧ (cs = ['0'] ∨ cs.head? ≠ some '0') then
    some (Nat.ofDigitChars 10 cs 0)
  else none

def readInt (cs : List Char) : Option Int :=
  if cs.head? = some '-' then (readNat cs.tail).map fun n : Nat => -(n : Int)
  else (readNat cs).map fun n : Nat => (n : Int)

/-- What the rest of a text begins with where a number ends. -/
def Ends (cs : List Char) : Prop := ∀ c ∈ cs.head?, atomChar c = false

theorem atomChar_of_isDigit {c : Char} (h : c.isDigit = true) : atomChar c = true := by
  simp [atomChar, Char.isAlphanum, h]

theorem atomChar_of_numberChar {c : Char} (h : numberChar c = true) : atomChar c = true := by
  simp only [numberChar, Bool.or_eq_true, decide_eq_true_eq] at h
  rcases h with (((hdigit | rfl) | rfl) | rfl) | rfl
  · exact atomChar_of_isDigit hdigit
  all_goals rfl

theorem head_toDigits (n : Nat) : Nat.toDigits 10 n = ['0'] ∨ (Nat.toDigits 10 n).head? ≠ some '0' := by
  induction n using Nat.strongRecOn with
  | ind n ih =>
    by_cases hn : n < 10
    · rw [Nat.toDigits_of_lt_base hn]
      have hdigits : ∀ n < 10, [n.digitChar] = ['0'] ∨ [n.digitChar].head? ≠ some '0' := by decide
      exact hdigits n hn
    · rw [Nat.toDigits_of_base_le (by decide) (by omega)]
      have hne : Nat.toDigits 10 (n / 10) ≠ [] := Nat.toDigits_ne_nil
      have hpos : Nat.toDigits 10 (n / 10) ≠ ['0'] := by
        intro hzero
        have hvalue := Nat.ofDigitChars_ten_toDigits (n := n / 10)
        rw [hzero] at hvalue
        have : n / 10 = 0 := hvalue.symm
        omega
      rcases ih (n / 10) (by omega) with hzero | hhead
      · exact absurd hzero hpos
      · refine .inr ?_
        rw [List.head?_append_of_ne_nil _ hne]
        exact hhead

/-- Neither a space nor punctuation is part of a number or a name. -/
theorem ne_of_atomChar {c d : Char} (hc : atomChar c = true) (hd : atomChar d = false) : c ≠ d := by
  rintro rfl
  rw [hc] at hd
  cases hd

theorem isSpace_of_atomChar {c : Char} (hc : atomChar c = true) : isSpace c = false := by
  have hblank : c ≠ ' ' := ne_of_atomChar hc rfl
  have htab : c ≠ '\t' := ne_of_atomChar hc rfl
  have hline : c ≠ '\n' := ne_of_atomChar hc rfl
  have hreturn : c ≠ '\r' := ne_of_atomChar hc rfl
  simp [isSpace, hblank, htab, hline, hreturn]

theorem readNat_toDigits (n : Nat) : readNat (Nat.toDigits 10 n) = some n := by
  have hdigits : (Nat.toDigits 10 n).all Char.isDigit = true :=
    List.all_eq_true.mpr fun c hc => Nat.isDigit_of_mem_toDigits (by decide) (by decide) hc
  rw [readNat, if_pos ⟨Nat.toDigits_ne_nil, hdigits, head_toDigits n⟩,
    Nat.ofDigitChars_ten_toDigits]

theorem head_toDigits_ne_minus (n : Nat) : (Nat.toDigits 10 n).head? ≠ some '-' := by
  intro h
  have hdigit := Nat.isDigit_of_mem_toDigits (by decide) (by decide) (List.mem_of_head? h)
  cases hdigit

theorem readInt_intText (i : Int) : readInt (intText i) = some i := by
  unfold intText
  by_cases hi : i < 0
  · rw [if_pos hi, readInt, List.head?_cons, if_pos rfl, List.tail_cons, readNat_toDigits, Option.map_some]
    congr 1
    omega
  · rw [if_neg hi, readInt, if_neg (head_toDigits_ne_minus _), readNat_toDigits, Option.map_some]
    congr 1
    omega

theorem intText_ne_nil (i : Int) : intText i ≠ [] := by
  unfold intText
  split
  · exact List.cons_ne_nil _ _
  · exact Nat.toDigits_ne_nil

theorem atomChar_intText {i : Int} {c : Char} (hc : c ∈ intText i) : atomChar c = true := by
  have hdigits : ∀ c ∈ Nat.toDigits 10 i.natAbs, atomChar c = true := fun c hc =>
    atomChar_of_isDigit (Nat.isDigit_of_mem_toDigits (by decide) (by decide) hc)
  unfold intText at hc
  split at hc
  · rcases List.mem_cons.mp hc with rfl | hc
    · rfl
    · exact hdigits c hc
  · exact hdigits c hc

theorem printable_of_isDigit {c : Char} (h : c.isDigit = true) : Printable c := by
  obtain ⟨hlow, hhigh⟩ := Char.isDigit_iff_toNat.mp h
  have hzero : '0'.toNat = 48 := rfl
  have hnine : '9'.toNat = 57 := rfl
  rw [Printable]
  omega

theorem printable_of_numberChar {c : Char} (h : numberChar c = true) : Printable c := by
  simp only [numberChar, Bool.or_eq_true, decide_eq_true_eq] at h
  rcases h with (((hdigit | rfl) | rfl) | rfl) | rfl
  · exact printable_of_isDigit hdigit
  all_goals decide

theorem printable_intText {i : Int} : ∀ c ∈ intText i, Printable c := by
  have hdigits : ∀ c ∈ Nat.toDigits 10 i.natAbs, Printable c := fun c hc =>
    printable_of_isDigit (Nat.isDigit_of_mem_toDigits (by decide) (by decide) hc)
  unfold intText
  split
  · exact List.forall_mem_cons.mpr ⟨by decide, hdigits⟩
  · exact hdigits

end JsonText

end Library
