import FineTuneHarness.Library.JsonChars

/-!
# JSON texts

JSON values with the texts that Python's `json.dumps` writes for them, and a reader for JSON
texts. How floats are spelled is left open: `F` is any type of numbers, and a spelling serves if
it reads back. Every text reads back as the value it was written for, so no two values share one.
-/
namespace Library

namespace JsonText

inductive Value (F : Type)
  | null
  | bool (b : Bool)
  | int (i : Int)
  | float (f : F)
  | str (s : String)
  | arr (xs : List (Value F))
  | obj (ms : List (String × Value F))

/-- How floats are written, and how a number with a fraction or an exponent is read. -/
structure Floats (F : Type) where
  spell : F → List Char
  read : List Char → Option F

/-- `ensure_ascii`, and the number of blanks after a comma and a colon. -/
structure Style where
  ascii : Bool
  blanks : Nat

/-! ## Texts -/

section Text

variable {F : Type} (fl : Floats F) (st : Style)

/-- What stands after a comma or a colon. -/
def Style.gap : List Char := List.replicate st.blanks ' '

mutual

/-- The text of a value. -/
def encode : Value F → List Char
  | .null => "null".toList
  | .bool true => "true".toList
  | .bool false => "false".toList
  | .int i => intText i
  | .float f => fl.spell f
  | .str s => quote st.ascii s.toList
  | .arr [] => ['[', ']']
  | .arr (x :: xs) => '[' :: (encode x ++ encodeItems xs)
  | .obj [] => ['{', '}']
  | .obj ((k, x) :: ms) =>
    '{' :: (quote st.ascii k.toList ++ ':' :: (st.gap ++ (encode x ++ encodeMembers ms)))

/-- The items after the first, and the bracket. -/
def encodeItems : List (Value F) → List Char
  | [] => [']']
  | x :: xs => ',' :: (st.gap ++ (encode x ++ encodeItems xs))

/-- The members after the first, and the brace. -/
def encodeMembers : List (String × Value F) → List Char
  | [] => ['}']
  | (k, x) :: ms =>
    ',' :: (st.gap ++ (quote st.ascii k.toList ++ ':' :: (st.gap ++ (encode x ++ encodeMembers ms))))

end

/-! ## Reading -/

/-- The first character that is no white space, and what follows it. -/
def token (cs : List Char) : Option (Char × List Char) :=
  match cs.dropWhile isSpace with
  | [] => none
  | c :: cs => some (c, cs)

/-- The name of a member, with the colon. -/
def readKey (cs : List Char) : Option (String × List Char) := do
  let (q, cs) ← token cs
  if q = '"' then
    let (k, cs) ← scanString cs.length cs
    let (c, cs) ← token cs
    if c = ':' then some (String.ofList k, cs) else none
  else none

/-- A number or a name. -/
def readAtom (cs : List Char) : Option (Value F) :=
  if cs = "null".toList then some .null
  else if cs = "true".toList then some (.bool true)
  else if cs = "false".toList then some (.bool false)
  else
    match readInt cs with
    | some i => some (.int i)
    | none => (fl.read cs).map .float

mutual

/-- A value at the beginning of a text, and what is left of the text. -/
def decodeValue : Nat → List Char → Option (Value F × List Char)
  | 0, _ => none
  | n + 1, cs => do
    let (c, cs) ← token cs
    if c = '"' then
      let (s, cs) ← scanString cs.length cs
      some (.str (String.ofList s), cs)
    else if c = '[' then
      if (token cs).map (·.1) = some ']' then (token cs).map fun r => (.arr [], r.2)
      else (decodeItems n cs).map fun r => (.arr r.1, r.2)
    else if c = '{' then
      if (token cs).map (·.1) = some '}' then (token cs).map fun r => (.obj [], r.2)
      else (decodeMembers n cs).map fun r => (.obj r.1, r.2)
    else
      (readAtom fl ((c :: cs).takeWhile atomChar)).map fun v => (v, (c :: cs).dropWhile atomChar)

/-- Items up to the bracket. -/
def decodeItems : Nat → List Char → Option (List (Value F) × List Char)
  | 0, _ => none
  | n + 1, cs => do
    let (x, cs) ← decodeValue n cs
    let (c, cs) ← token cs
    if c = ',' then (decodeItems n cs).map fun r => (x :: r.1, r.2)
    else if c = ']' then some ([x], cs)
    else none

/-- Members up to the brace. -/
def decodeMembers : Nat → List Char → Option (List (String × Value F) × List Char)
  | 0, _ => none
  | n + 1, cs => do
    let (k, cs) ← readKey cs
    let (x, cs) ← decodeValue n cs
    let (c, cs) ← token cs
    if c = ',' then (decodeMembers n cs).map fun r => ((k, x) :: r.1, r.2)
    else if c = '}' then some ([(k, x)], cs)
    else none

end

/-- The value that the whole text stands for. -/
def decode (cs : List Char) : Option (Value F) := do
  let (v, rest) ← decodeValue fl (2 * cs.length) cs
  if rest.all isSpace then some v else none

/-! ## Reading what was written -/

/-- The float is written as a number with a fraction or an exponent that reads back as itself. -/
structure Floats.Faithful (f : F) : Prop where
  reads : fl.read (fl.spell f) = some f
  chars : (fl.spell f).all numberChar = true
  point : '.' ∈ fl.spell f ∨ 'e' ∈ fl.spell f

mutual

/-- The floats in a value. -/
def Value.floats : Value F → List F
  | .float f => [f]
  | .arr xs => itemFloats xs
  | .obj ms => memberFloats ms
  | _ => []

def itemFloats : List (Value F) → List F
  | [] => []
  | x :: xs => x.floats ++ itemFloats xs

def memberFloats : List (String × Value F) → List F
  | [] => []
  | (_, x) :: ms => x.floats ++ memberFloats ms

end

/-- The values are built from smaller ones. -/
theorem Value.induct {P : Value F → Prop} (null : P .null) (bool : ∀ b, P (.bool b))
    (int : ∀ i, P (.int i)) (float : ∀ f, P (.float f)) (str : ∀ s, P (.str s))
    (arr : ∀ xs, (∀ x ∈ xs, P x) → P (.arr xs))
    (obj : ∀ ms : List (String × Value F), (∀ m ∈ ms, P m.2) → P (.obj ms)) : ∀ v, P v
  | .null => null
  | .bool b => bool b
  | .int i => int i
  | .float f => float f
  | .str s => str s
  | .arr xs => arr xs fun x _ => Value.induct null bool int float str arr obj x
  | .obj ms => obj ms fun m _ => Value.induct null bool int float str arr obj m.2
termination_by v => sizeOf v
decreasing_by
  · decreasing_tactic
  · rename_i hm
    have := List.sizeOf_lt_of_mem hm
    cases m
    simp only [Prod.mk.sizeOf_spec, Value.obj.sizeOf_spec] at *
    omega

variable {fl st}

theorem token_cons {c : Char} (h : isSpace c = false) (cs : List Char) :
    token (c :: cs) = some (c, cs) := by
  rw [token, List.dropWhile_cons_of_neg (by simp [h])]

theorem token_gap (cs : List Char) : token (st.gap ++ cs) = token cs := by
  have hspaces : ∀ c ∈ st.gap, isSpace c = true := fun c hc => by
    rw [List.eq_of_mem_replicate hc]
    rfl
  rw [token, token, List.dropWhile_append_of_pos hspaces]

theorem readKey_gap (cs : List Char) : readKey (st.gap ++ cs) = readKey cs := by
  rw [readKey, readKey, token_gap]

theorem decodeValue_gap (n : Nat) (cs : List Char) :
    decodeValue fl n (st.gap ++ cs) = decodeValue fl n cs := by
  cases n with
  | zero => rfl
  | succ n => rw [decodeValue, decodeValue, token_gap]

theorem decodeItems_gap (n : Nat) (cs : List Char) :
    decodeItems fl n (st.gap ++ cs) = decodeItems fl n cs := by
  cases n with
  | zero => rfl
  | succ n => rw [decodeItems, decodeItems, decodeValue_gap]

theorem decodeMembers_gap (n : Nat) (cs : List Char) :
    decodeMembers fl n (st.gap ++ cs) = decodeMembers fl n cs := by
  cases n with
  | zero => rfl
  | succ n => rw [decodeMembers, decodeMembers, readKey_gap]

theorem readKey_quote (k : String) (cs : List Char) :
    readKey (quote st.ascii k.toList ++ ':' :: cs) = some (k, cs) := by
  rw [quote, List.cons_append, List.append_assoc, readKey, token_cons rfl]
  dsimp only [bind, Option.bind]
  rw [if_pos rfl, List.singleton_append, scanString_quote st.ascii (length_lt_escaped _ _ _)]
  dsimp only
  rw [token_cons rfl]
  dsimp only
  rw [if_pos rfl, String.ofList_toList]

/-- A number or a name at the beginning of a text. -/
theorem decodeValue_atom {w : List Char} {v : Value F} (hne : w ≠ [])
    (hw : ∀ c ∈ w, atomChar c = true) (hread : readAtom fl w = some v) {n : Nat} (hn : 0 < n)
    {rest : List Char} (hrest : Ends rest) : decodeValue fl n (w ++ rest) = some (v, rest) := by
  have hstop : rest.takeWhile atomChar = [] ∧ rest.dropWhile atomChar = rest := by
    cases rest with
    | nil => exact ⟨rfl, rfl⟩
    | cons c rest =>
      have hc : ¬ atomChar c = true := by simp [hrest c rfl]
      exact ⟨List.takeWhile_cons_of_neg hc, List.dropWhile_cons_of_neg hc⟩
  have htake : (w ++ rest).takeWhile atomChar = w := by
    rw [List.takeWhile_append_of_pos hw, hstop.1, List.append_nil]
  have hdrop : (w ++ rest).dropWhile atomChar = rest := by
    rw [List.dropWhile_append_of_pos hw, hstop.2]
  obtain ⟨n, rfl⟩ := Nat.exists_eq_succ_of_ne_zero (Nat.ne_of_gt hn)
  cases w with
  | nil => exact absurd rfl hne
  | cons c w =>
    have hc := hw c List.mem_cons_self
    rw [List.cons_append] at htake hdrop ⊢
    rw [decodeValue, token_cons (isSpace_of_atomChar hc)]
    dsimp only [bind, Option.bind]
    rw [if_neg (ne_of_atomChar hc rfl), if_neg (ne_of_atomChar hc rfl),
      if_neg (ne_of_atomChar hc rfl), htake, hdrop, hread]
    rfl

theorem isDigit_of_readNat {cs : List Char} {n : Nat} (h : readNat cs = some n) :
    ∀ c ∈ cs, c.isDigit = true := by
  unfold readNat at h
  split at h
  next hdigits => exact List.all_eq_true.mp hdigits.2.1
  next => cases h

theorem chars_of_readInt {cs : List Char} {i : Int} (h : readInt cs = some i) :
    ∀ c ∈ cs, c.isDigit = true ∨ c = '-' := by
  unfold readInt at h
  split at h
  next hminus =>
    obtain ⟨n, hn, -⟩ := Option.map_eq_some_iff.mp h
    cases cs with
    | nil => cases hminus
    | cons c cs =>
      intro d hd
      rcases List.mem_cons.mp hd with rfl | hd
      · exact .inr (Option.some.inj hminus)
      · exact .inl (isDigit_of_readNat hn d hd)
  next =>
    obtain ⟨n, hn, -⟩ := Option.map_eq_some_iff.mp h
    exact fun c hc => .inl (isDigit_of_readNat hn c hc)

theorem readAtom_intText (i : Int) : readAtom fl (intText i) = some (.int i) := by
  have hread := readInt_intText i
  have hname : ∀ w, readInt w = none → intText i ≠ w := fun w hw h => by
    rw [h, hw] at hread
    cases hread
  rw [readAtom, if_neg (hname _ (by decide)), if_neg (hname _ (by decide)),
    if_neg (hname _ (by decide)), hread]

theorem readAtom_spell {f : F} (hf : fl.Faithful f) : readAtom fl (fl.spell f) = some (.float f) := by
  have hname : ∀ w : List Char, w.all numberChar = false → fl.spell f ≠ w := fun w hw h => by
    rw [← h, hf.chars] at hw
    cases hw
  have hint : readInt (fl.spell f) = none := by
    cases hread : readInt (fl.spell f) with
    | none => rfl
    | some i =>
      have hchars := chars_of_readInt hread
      exact absurd hf.point (not_or.mpr ⟨fun hc => absurd (hchars _ hc) (by decide),
        fun hc => absurd (hchars _ hc) (by decide)⟩)
  rw [readAtom, if_neg (hname _ (by decide)), if_neg (hname _ (by decide)),
    if_neg (hname _ (by decide)), hint]
  dsimp only
  rw [hf.reads]
  rfl

theorem Floats.Faithful.ne_nil {f : F} (hf : fl.Faithful f) : fl.spell f ≠ [] :=
  hf.point.elim List.ne_nil_of_mem List.ne_nil_of_mem

theorem atomChar_spell {f : F} (hf : fl.Faithful f) : ∀ c ∈ fl.spell f, atomChar c = true :=
  fun c hc => atomChar_of_numberChar (List.all_eq_true.mp hf.chars c hc)

/-- The float is written as a word that reads back as itself: a number, or a name such as `NaN`. -/
structure Floats.Legible (fl : Floats F) (f : F) : Prop where
  ne_nil : fl.spell f ≠ []
  chars : ∀ c ∈ fl.spell f, atomChar c = true
  reads : readAtom fl (fl.spell f) = some (.float f)

theorem Floats.Faithful.legible {f : F} (hf : fl.Faithful f) : fl.Legible f :=
  ⟨hf.ne_nil, atomChar_spell hf, readAtom_spell hf⟩

variable (fl st)

/-- The text of the value is read as the value, wherever it stands. -/
def Decodes (v : Value F) : Prop :=
  ∀ n rest, 2 * (encode fl st v).length ≤ n → Ends rest →
    decodeValue fl n (encode fl st v ++ rest) = some (v, rest)

variable {fl st}

theorem decodes_atom {w : List Char} {v : Value F} (htext : encode fl st v = w) (hne : w ≠ [])
    (hw : ∀ c ∈ w, atomChar c = true) (hread : readAtom fl w = some v) : Decodes fl st v := by
  intro n rest hn hrest
  rw [htext] at hn ⊢
  have := List.length_pos_iff.mpr hne
  exact decodeValue_atom hne hw hread (by omega) hrest

theorem ends_cons {c : Char} (h : atomChar c = false) (cs : List Char) : Ends (c :: cs) := by
  intro d hd
  rw [← Option.some.inj hd]
  exact h

/-- No item begins with white space or a bracket that closes. -/
theorem head_encode {v : Value F} (hv : ∀ f ∈ v.floats, fl.Legible f) :
    ∃ c cs, encode fl st v = c :: cs ∧ isSpace c = false ∧ c ≠ ']' := by
  have hatom : ∀ w : List Char, w ≠ [] → (∀ c ∈ w, atomChar c = true) →
      ∃ c cs, w = c :: cs ∧ isSpace c = false ∧ c ≠ ']' := by
    intro w hne hw
    cases w with
    | nil => exact absurd rfl hne
    | cons c w =>
      have hc := hw c List.mem_cons_self
      exact ⟨c, w, rfl, isSpace_of_atomChar hc, ne_of_atomChar hc rfl⟩
  cases v with
  | null => exact ⟨_, _, rfl, rfl, by decide⟩
  | bool b => cases b <;> exact ⟨_, _, rfl, rfl, by decide⟩
  | int i => exact hatom _ (intText_ne_nil i) fun c hc => atomChar_intText hc
  | float f =>
    have hf := hv f List.mem_cons_self
    exact hatom _ hf.ne_nil hf.chars
  | str s => exact ⟨_, _, rfl, rfl, by decide⟩
  | arr xs => cases xs <;> exact ⟨_, _, rfl, rfl, by decide⟩
  | obj ms =>
    cases ms with
    | nil => exact ⟨_, _, rfl, rfl, by decide⟩
    | cons m ms => exact ⟨_, _, rfl, rfl, by decide⟩

section Step

variable {n : Nat} {cs cs' cs'' rest : List Char} {k : String} {x : Value F}

theorem decodeItems_last (h : decodeValue fl n cs = some (x, ']' :: rest)) :
    decodeItems fl (n + 1) cs = some ([x], rest) := by
  rw [decodeItems, h]
  rfl

theorem decodeItems_next {xs : List (Value F)} (h : decodeValue fl n cs = some (x, ',' :: cs'))
    (hrest : decodeItems fl n cs' = some (xs, rest)) :
    decodeItems fl (n + 1) cs = some (x :: xs, rest) := by
  rw [decodeItems, h]
  show (decodeItems fl n cs').map _ = _
  rw [hrest]
  rfl

theorem decodeMembers_last (hk : readKey cs = some (k, cs'))
    (h : decodeValue fl n cs' = some (x, '}' :: rest)) :
    decodeMembers fl (n + 1) cs = some ([(k, x)], rest) := by
  rw [decodeMembers, hk]
  dsimp only [bind, Option.bind]
  rw [h]
  rfl

theorem decodeMembers_next {ms : List (String × Value F)} (hk : readKey cs = some (k, cs'))
    (h : decodeValue fl n cs' = some (x, ',' :: cs''))
    (hrest : decodeMembers fl n cs'' = some (ms, rest)) :
    decodeMembers fl (n + 1) cs = some ((k, x) :: ms, rest) := by
  rw [decodeMembers, hk]
  dsimp only [bind, Option.bind]
  rw [h]
  show (decodeMembers fl n cs'').map _ = _
  rw [hrest]
  rfl

theorem decodeValue_items {xs : List (Value F)} (hc : (token cs).map (·.1) ≠ some ']')
    (h : decodeItems fl n cs = some (xs, rest)) :
    decodeValue fl (n + 1) ('[' :: cs) = some (.arr xs, rest) := by
  rw [decodeValue, token_cons rfl]
  show (if (token cs).map (·.1) = some ']' then _ else (decodeItems fl n cs).map _) = _
  rw [if_neg hc, h]
  rfl

theorem decodeValue_members {ms : List (String × Value F)} (hc : (token cs).map (·.1) ≠ some '}')
    (h : decodeMembers fl n cs = some (ms, rest)) :
    decodeValue fl (n + 1) ('{' :: cs) = some (.obj ms, rest) := by
  rw [decodeValue, token_cons rfl]
  show (if (token cs).map (·.1) = some '}' then _ else (decodeMembers fl n cs).map _) = _
  rw [if_neg hc, h]
  rfl

theorem decodeValue_string (s : String) :
    decodeValue fl (n + 1) (quote st.ascii s.toList ++ rest) = some (.str s, rest) := by
  rw [quote, List.cons_append, List.append_assoc, List.singleton_append, decodeValue,
    token_cons rfl]
  show ((scanString _ _).bind _) = _
  rw [scanString_quote st.ascii (length_lt_escaped _ _ _)]
  show some (Value.str (String.ofList s.toList), rest) = _
  rw [String.ofList_toList]

end Step

theorem decodeItems_encode {xs : List (Value F)} (hxs : ∀ y ∈ xs, Decodes fl st y) {x : Value F}
    (hx : Decodes fl st x) {n : Nat}
    (hn : 2 * (encode fl st x ++ encodeItems fl st xs).length < n) (rest : List Char) :
    decodeItems fl n (encode fl st x ++ encodeItems fl st xs ++ rest) = some (x :: xs, rest) := by
  obtain ⟨n, rfl⟩ := Nat.exists_eq_succ_of_ne_zero (Nat.ne_of_gt (Nat.zero_lt_of_lt hn))
  rw [List.length_append] at hn
  induction xs generalizing x n with
  | nil =>
    rw [List.append_assoc]
    exact decodeItems_last (hx n _ (by omega) (ends_cons rfl _))
  | cons y ys ih =>
    rw [encodeItems, List.length_cons, List.length_append, List.length_append] at hn
    obtain ⟨n, rfl⟩ := Nat.exists_eq_succ_of_ne_zero (show n ≠ 0 by omega)
    have hrest := ih (fun z hz => hxs z (.tail y hz)) (hxs y List.mem_cons_self) n (by omega)
    rw [encodeItems, List.append_assoc, List.cons_append, List.append_assoc]
    apply decodeItems_next (hx _ _ (by omega) (ends_cons rfl _))
    rw [decodeItems_gap]
    exact hrest

theorem decodeMembers_encode {ms : List (String × Value F)} (hms : ∀ m ∈ ms, Decodes fl st m.2)
    {k : String} {x : Value F} (hx : Decodes fl st x) {n : Nat}
    (hn : 2 * (quote st.ascii k.toList ++
      ':' :: (st.gap ++ (encode fl st x ++ encodeMembers fl st ms))).length < n)
    (rest : List Char) :
    decodeMembers fl n (quote st.ascii k.toList ++
        ':' :: (st.gap ++ (encode fl st x ++ encodeMembers fl st ms)) ++ rest) =
      some ((k, x) :: ms, rest) := by
  obtain ⟨n, rfl⟩ := Nat.exists_eq_succ_of_ne_zero (Nat.ne_of_gt (Nat.zero_lt_of_lt hn))
  rw [List.length_append, List.length_cons, List.length_append, List.length_append] at hn
  rw [List.append_assoc, List.cons_append, List.append_assoc, List.append_assoc]
  induction ms generalizing k x n with
  | nil =>
    apply decodeMembers_last (readKey_quote k _)
    rw [decodeValue_gap]
    exact hx n _ (by omega) (ends_cons rfl _)
  | cons m ms ih =>
    obtain ⟨k', y⟩ := m
    rw [encodeMembers, List.length_cons, List.length_append, List.length_append, List.length_cons,
      List.length_append, List.length_append] at hn
    obtain ⟨n, rfl⟩ := Nat.exists_eq_succ_of_ne_zero (show n ≠ 0 by omega)
    have hy : Decodes fl st y := hms (k', y) List.mem_cons_self
    have hrest := ih (fun m hm => hms m (.tail _ hm)) hy n (k := k') (by omega)
    simp only [encodeMembers, List.cons_append, List.append_assoc]
    apply decodeMembers_next (readKey_quote k _)
    · rw [decodeValue_gap]
      exact hx _ _ (by omega) (ends_cons rfl _)
    · rw [decodeMembers_gap]
      exact hrest

theorem mem_itemFloats {xs : List (Value F)} {f : F} :
    f ∈ itemFloats xs ↔ ∃ x ∈ xs, f ∈ x.floats := by
  induction xs with
  | nil => simp [itemFloats]
  | cons x xs ih => simp [itemFloats, ih]

theorem mem_memberFloats {ms : List (String × Value F)} {f : F} :
    f ∈ memberFloats ms ↔ ∃ m ∈ ms, f ∈ m.2.floats := by
  induction ms with
  | nil => simp [memberFloats]
  | cons m ms ih => simp [memberFloats, ih]

/-- A value reads back from its text, whatever follows it. -/
theorem decodes_encode (v : Value F) (hv : ∀ f ∈ v.floats, fl.Legible f) : Decodes fl st v := by
  induction v using Value.induct with
  | null => exact decodes_atom (w := "null".toList) rfl (by decide) (List.all_eq_true.mp rfl) rfl
  | bool b =>
    cases b
    · exact decodes_atom (w := "false".toList) rfl (by decide) (List.all_eq_true.mp rfl) rfl
    · exact decodes_atom (w := "true".toList) rfl (by decide) (List.all_eq_true.mp rfl) rfl
  | int i =>
    exact decodes_atom rfl (intText_ne_nil i) (fun c hc => atomChar_intText hc) (readAtom_intText i)
  | float f =>
    have hf := hv f List.mem_cons_self
    exact decodes_atom rfl hf.ne_nil hf.chars hf.reads
  | str s =>
    intro n rest hn _
    obtain ⟨n, rfl⟩ := Nat.exists_eq_succ_of_ne_zero (show n ≠ 0 by
      rw [encode, quote, List.length_cons] at hn
      omega)
    exact decodeValue_string s
  | arr xs ih =>
    intro n rest hn _
    cases xs with
    | nil =>
      obtain ⟨n, rfl⟩ := Nat.exists_eq_succ_of_ne_zero (show n ≠ 0 by rintro rfl; cases hn)
      rfl
    | cons x xs =>
      rw [encode, List.length_cons] at hn
      obtain ⟨n, rfl⟩ := Nat.exists_eq_succ_of_ne_zero (show n ≠ 0 by omega)
      have hv : ∀ y ∈ x :: xs, ∀ f ∈ y.floats, fl.Legible f := fun y hy f hf =>
        hv f (mem_itemFloats.mpr ⟨y, hy, hf⟩)
      have hall : ∀ y ∈ x :: xs, Decodes fl st y := fun y hy => ih y hy (hv y hy)
      have hhead : ∃ c cs, encode fl st x = c :: cs ∧ isSpace c = false ∧ c ≠ ']' :=
        head_encode (hv x List.mem_cons_self)
      obtain ⟨c, cs, htext, hspace, hc⟩ := hhead
      rw [encode, List.cons_append]
      apply decodeValue_items
      · rw [htext, List.cons_append, List.cons_append, token_cons hspace]
        exact fun h => hc (Option.some.inj h)
      · exact decodeItems_encode (fun y hy => hall y (.tail x hy)) (hall x List.mem_cons_self)
          (by omega) rest
  | obj ms ih =>
    intro n rest hn _
    cases ms with
    | nil =>
      obtain ⟨n, rfl⟩ := Nat.exists_eq_succ_of_ne_zero (show n ≠ 0 by rintro rfl; cases hn)
      rfl
    | cons m ms =>
      obtain ⟨k, x⟩ := m
      rw [encode, List.length_cons] at hn
      obtain ⟨n, rfl⟩ := Nat.exists_eq_succ_of_ne_zero (show n ≠ 0 by omega)
      have hall : ∀ m ∈ (k, x) :: ms, Decodes fl st m.2 := fun m hm =>
        ih m hm fun f hf => hv f (mem_memberFloats.mpr ⟨m, hm, hf⟩)
      have hx : Decodes fl st x := hall (k, x) List.mem_cons_self
      rw [encode, List.cons_append]
      apply decodeValue_members
      · rw [quote, List.cons_append, List.cons_append, token_cons rfl]
        have hbrace : '"' ≠ '}' := by decide
        exact fun h => hbrace (Option.some.inj h)
      · exact decodeMembers_encode (fun m hm => hall m (.tail _ hm)) hx (by omega) rest

/-- **Every text reads back** as the value it was written for. -/
theorem decode_of_legible (v : Value F) (hv : ∀ f ∈ v.floats, fl.Legible f) :
    decode fl (encode fl st v) = some v := by
  have hdecodes : Decodes fl st v := decodes_encode v hv
  have h := hdecodes _ [] (Nat.le_refl _) (fun c hc => by cases hc)
  rw [List.append_nil] at h
  rw [decode, h]
  rfl

theorem decode_encode (v : Value F) (hv : ∀ f ∈ v.floats, fl.Faithful f) :
    decode fl (encode fl st v) = some v :=
  decode_of_legible v fun f hf => (hv f hf).legible

/-- No two values have the same text. -/
theorem encode_inj {v w : Value F} (hv : ∀ f ∈ v.floats, fl.Faithful f)
    (hw : ∀ f ∈ w.floats, fl.Faithful f) : encode fl st v = encode fl st w ↔ v = w := by
  constructor
  · intro h
    have hback : decode fl (encode fl st v) = some v := decode_encode v hv
    rw [h, decode_encode w hw] at hback
    exact (Option.some.inj hback).symm
  · intro h
    rw [h]

theorem encodeMembers_ends (ms : List (String × Value F)) :
    ∃ cs, encodeMembers fl st ms = cs ++ ['}'] := by
  induction ms with
  | nil => exact ⟨[], rfl⟩
  | cons m ms ih =>
    obtain ⟨cs, hcs⟩ := ih
    rw [encodeMembers, hcs]
    exact ⟨',' :: (st.gap ++ (quote st.ascii m.1.toList ++
      ':' :: (st.gap ++ (encode fl st m.2 ++ cs)))), by simp⟩

/-- An object is written between braces. -/
theorem encode_obj (ms : List (String × Value F)) :
    ∃ cs, encode fl st (.obj ms) = '{' :: (cs ++ ['}']) := by
  cases ms with
  | nil => exact ⟨[], rfl⟩
  | cons m ms =>
    have hends : ∃ cs, encodeMembers fl st ms = cs ++ ['}'] := encodeMembers_ends ms
    obtain ⟨cs, hcs⟩ := hends
    rw [encode, hcs]
    exact ⟨quote st.ascii m.1.toList ++ ':' :: (st.gap ++ (encode fl st m.2 ++ cs)), by simp⟩

theorem printable_spell {f : F} (hf : fl.Faithful f) : ∀ c ∈ fl.spell f, Printable c :=
  fun c hc => printable_of_numberChar (List.all_eq_true.mp hf.chars c hc)

theorem printable_gap : ∀ c ∈ st.gap, Printable c := by
  intro c hc
  rw [List.eq_of_mem_replicate hc]
  decide

theorem printable_encodeItems {xs : List (Value F)}
    (h : ∀ x ∈ xs, ∀ c ∈ encode fl st x, Printable c) : ∀ c ∈ encodeItems fl st xs, Printable c := by
  induction xs with
  | nil => exact List.forall_mem_singleton.mpr (by decide)
  | cons x xs ih =>
    have hrest := ih fun y hy => h y (.tail x hy)
    rw [encodeItems, List.forall_mem_cons, List.forall_mem_append, List.forall_mem_append]
    exact ⟨by decide, printable_gap, h x List.mem_cons_self, hrest⟩

theorem printable_encodeMembers (hst : st.ascii = true) {ms : List (String × Value F)}
    (h : ∀ m ∈ ms, ∀ c ∈ encode fl st m.2, Printable c) :
    ∀ c ∈ encodeMembers fl st ms, Printable c := by
  induction ms with
  | nil => exact List.forall_mem_singleton.mpr (by decide)
  | cons m ms ih =>
    have hrest := ih fun m' hm' => h m' (.tail m hm')
    rw [encodeMembers, List.forall_mem_cons, List.forall_mem_append, List.forall_mem_append,
      List.forall_mem_cons, List.forall_mem_append, List.forall_mem_append, hst]
    exact ⟨by decide, printable_gap, printable_quote _, by decide, printable_gap,
      h m List.mem_cons_self, hrest⟩

/-- **A text with `ensure_ascii` is a line** of printable characters. -/
theorem printable_encode (hst : st.ascii = true) (v : Value F)
    (hv : ∀ f ∈ v.floats, fl.Faithful f) : ∀ c ∈ encode fl st v, Printable c := by
  have hfixed : ∀ s : List Char, (s.all fun c => Printable c) = true → ∀ c ∈ s, Printable c := by
    intro s hs c hc
    exact of_decide_eq_true (List.all_eq_true.mp hs c hc)
  induction v using Value.induct with
  | null => exact hfixed "null".toList rfl
  | bool b =>
    cases b
    · exact hfixed "false".toList rfl
    · exact hfixed "true".toList rfl
  | int i => exact printable_intText
  | float f => exact printable_spell (hv f List.mem_cons_self)
  | str s =>
    rw [encode, hst]
    exact printable_quote _
  | arr xs ih =>
    have hall : ∀ x ∈ xs, ∀ c ∈ encode fl st x, Printable c := fun x hx =>
      ih x hx fun f hf => hv f (mem_itemFloats.mpr ⟨x, hx, hf⟩)
    cases xs with
    | nil => exact hfixed ['[', ']'] rfl
    | cons x xs =>
      rw [encode, List.forall_mem_cons, List.forall_mem_append]
      exact ⟨by decide, hall x List.mem_cons_self,
        printable_encodeItems fun y hy => hall y (.tail x hy)⟩
  | obj ms ih =>
    have hall : ∀ m ∈ ms, ∀ c ∈ encode fl st m.2, Printable c := fun m hm =>
      ih m hm fun f hf => hv f (mem_memberFloats.mpr ⟨m, hm, hf⟩)
    cases ms with
    | nil => exact hfixed ['{', '}'] rfl
    | cons m ms =>
      rw [encode, List.forall_mem_cons, List.forall_mem_append, List.forall_mem_cons,
        List.forall_mem_append, List.forall_mem_append, hst]
      exact ⟨by decide, printable_quote _, by decide, printable_gap, hall m List.mem_cons_self,
        printable_encodeMembers hst fun m' hm' => hall m' (.tail m hm')⟩

end Text

end JsonText

end Library
