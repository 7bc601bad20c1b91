import Mathlib.Algebra.GroupWithZero.Nat
import Mathlib.Data.List.Lex
import Mathlib.Order.Lattice

/-!
# Numerals of a fixed width

A number below `b ^ k` written with exactly `k` digits. Between numerals of one width the
lexicographic order is the order of the numbers, and texts that begin with blocks of one width
are compared block by block.
-/
namespace Library

section Lex

variable {α : Type} [LinearOrder α]

/-- Blocks of one width are compared before what follows them. -/
theorem append_lt_append_iff {x y u v : List α} (h : x.length = y.length) :
    x ++ u < y ++ v ↔ x < y ∨ x = y ∧ u < v := by
  induction x generalizing y with
  | nil =>
    obtain rfl := List.length_eq_zero_iff.mp h.symm
    simp
  | cons a x ih =>
    cases y with
    | nil => cases h
    | cons b y =>
      have hlen : x.length = y.length := Nat.succ.inj h
      simp only [List.cons_append, List.cons_lt_cons_iff, ih hlen, List.cons.injEq]
      constructor
      · intro hlt
        rcases hlt with hab | ⟨hab, hxy | ⟨hxy, huv⟩⟩
        · exact .inl (.inl hab)
        · exact .inl (.inr ⟨hab, hxy⟩)
        · exact .inr ⟨⟨hab, hxy⟩, huv⟩
      · intro hlt
        rcases hlt with (hab | ⟨hab, hxy⟩) | ⟨⟨hab, hxy⟩, huv⟩
        · exact .inl hab
        · exact .inr ⟨hab, .inl hxy⟩
        · exact .inr ⟨hab, .inr ⟨hxy, huv⟩⟩

theorem cons_lt_cons_self {a : α} {u v : List α} : a :: u < a :: v ↔ u < v := by
  rw [List.cons_lt_cons_iff]
  constructor
  · intro h
    exact h.elim (fun hlt => absurd hlt (lt_irrefl a)) (·.2)
  · intro h
    exact .inr ⟨rfl, h⟩

end Lex

/-- The numeral of `n` with `k` digits in base `b`, the highest digit first. -/
def numeral {α : Type} (b : Nat) (digit : Nat → α) : Nat → Nat → List α
  | 0, _ => []
  | k + 1, n => numeral b digit k (n / b) ++ [digit (n % b)]

@[simp] theorem length_numeral {α : Type} (b : Nat) (digit : Nat → α) (k n : Nat) :
    (numeral b digit k n).length = k := by
  induction k generalizing n with
  | zero => rfl
  | succ k ih => rw [numeral, List.length_append, ih, List.length_singleton]

theorem mem_numeral {α : Type} {b : Nat} {digit : Nat → α} {k n : Nat} {a : α} (hb : 0 < b)
    (h : a ∈ numeral b digit k n) : ∃ m < b, a = digit m := by
  induction k generalizing n with
  | zero => cases h
  | succ k ih =>
    rcases List.mem_append.mp h with h | h
    · exact ih h
    · exact ⟨n % b, Nat.mod_lt n hb, List.mem_singleton.mp h⟩

/-- Reading `k` more digits after the number `n`: the number read, and what follows the digits. -/
def readNumeral {α : Type} (b : Nat) (value : α → Option Nat) :
    Nat → Nat → List α → Option (Nat × List α)
  | 0, n, cs => some (n, cs)
  | _ + 1, _, [] => none
  | k + 1, n, c :: cs => (value c).bind fun d => readNumeral b value k (n * b + d) cs

section Reading

variable {α : Type} {b : Nat} {digit : Nat → α} {value : α → Option Nat}
  (hvalue : ∀ m < b, value (digit m) = some m) (hb : 0 < b)
include hvalue hb

/-- A numeral is read digit by digit. -/
theorem readNumeral_append (k j n a : Nat) (cs : List α) :
    readNumeral b value (k + j) a (numeral b digit k n ++ cs) =
      readNumeral b value j (a * b ^ k + n % b ^ k) cs := by
  induction k generalizing j n a cs with
  | zero => rw [numeral, List.nil_append, Nat.zero_add, Nat.pow_zero, Nat.mul_one, Nat.mod_one, Nat.add_zero]
  | succ k ih =>
    have hmod : n % b ^ (k + 1) = n % b + b * (n / b % b ^ k) := by
      rw [Nat.pow_succ, Nat.mul_comm, Nat.mod_mul]
    have hread : (a * b ^ k + n / b % b ^ k) * b + n % b = a * b ^ (k + 1) + n % b ^ (k + 1) := by
      rw [hmod, Nat.pow_succ, Nat.add_mul, Nat.mul_assoc, Nat.mul_comm (n / b % b ^ k)]
      omega
    rw [numeral, List.append_assoc, Nat.add_right_comm, Nat.add_assoc, ih, List.singleton_append,
      readNumeral, hvalue _ (Nat.mod_lt n hb), Option.bind_some, hread]

/-- **Every numeral reads back.** -/
theorem readNumeral_numeral {k n : Nat} (hn : n < b ^ k) (cs : List α) :
    readNumeral b value k 0 (numeral b digit k n ++ cs) = some (n, cs) := by
  have hread := readNumeral_append hvalue hb k 0 n 0 cs
  rw [Nat.add_zero, Nat.zero_mul, Nat.zero_add, Nat.mod_eq_of_lt hn] at hread
  exact hread

end Reading

section Order

variable {α : Type} [LinearOrder α] {b : Nat} {digit : Nat → α} {k m n : Nat}
  (hdigit : ∀ m n, m < n → n < b → digit m < digit n)
include hdigit

theorem digit_lt_digit_iff (hm : m < b) (hn : n < b) : digit m < digit n ↔ m < n := by
  constructor
  · intro h
    by_contra hle
    rcases Nat.lt_or_eq_of_le (Nat.le_of_not_lt hle) with hlt | rfl
    · exact lt_asymm h (hdigit n m hlt hm)
    · exact lt_irrefl _ h
  · intro h
    exact hdigit m n h hn

/-- **The order of numerals is the order of the numbers.** -/
theorem numeral_lt_numeral_iff (hm : m < b ^ k) (hn : n < b ^ k) :
    numeral b digit k m < numeral b digit k n ↔ m < n := by
  induction k generalizing m n with
  | zero =>
    have hm : m = 0 := Nat.lt_one_iff.mp hm
    have hn : n = 0 := Nat.lt_one_iff.mp hn
    subst hm hn
    exact iff_of_false (List.lt_irrefl _) (Nat.lt_irrefl _)
  | succ k ih =>
    have hb : 0 < b := by
      apply Nat.pos_of_ne_zero
      rintro rfl
      simp at hm
    have hm' : m / b < b ^ k := Nat.div_lt_of_lt_mul (by rwa [Nat.pow_succ, Nat.mul_comm] at hm)
    have hn' : n / b < b ^ k := Nat.div_lt_of_lt_mul (by rwa [Nat.pow_succ, Nat.mul_comm] at hn)
    have heq : numeral b digit k (m / b) = numeral b digit k (n / b) ↔ m / b = n / b := by
      constructor
      · intro h
        have hmn := (ih hm' hn').not.mp (h ▸ List.lt_irrefl _)
        have hnm := (ih hn' hm').not.mp (h ▸ List.lt_irrefl _)
        omega
      · intro h
        rw [h]
    have hlast : [digit (m % b)] < [digit (n % b)] ↔ m % b < n % b := by
      rw [List.cons_lt_cons_iff]
      simp only [List.lt_irrefl, and_false, or_false]
      exact digit_lt_digit_iff hdigit (Nat.mod_lt m hb) (Nat.mod_lt n hb)
    rw [numeral, numeral, append_lt_append_iff (by simp), ih hm' hn', heq, hlast]
    have hmdiv := Nat.div_add_mod m b
    have hndiv := Nat.div_add_mod n b
    have hmmod := Nat.mod_lt m hb
    have hnmod := Nat.mod_lt n hb
    constructor
    · intro h
      rcases h with hdiv | ⟨hdiv, hmod⟩
      · have hstep : b * (m / b + 1) ≤ b * (n / b) := Nat.mul_le_mul_left b hdiv
        rw [Nat.mul_add, Nat.mul_one] at hstep
        omega
      · rw [hdiv] at hmdiv
        omega
    · intro h
      by_cases hdiv : m / b = n / b
      · rw [hdiv] at hmdiv
        exact .inr ⟨hdiv, by omega⟩
      · exact .inl (Nat.lt_of_le_of_ne (Nat.div_le_div_right h.le) hdiv)

theorem numeral_inj (hm : m < b ^ k) (hn : n < b ^ k) :
    numeral b digit k m = numeral b digit k n ↔ m = n := by
  constructor
  · intro h
    have hmn := (numeral_lt_numeral_iff hdigit hm hn).not.mp (h ▸ List.lt_irrefl _)
    have hnm := (numeral_lt_numeral_iff hdigit hn hm).not.mp (h ▸ List.lt_irrefl _)
    omega
  · intro h
    rw [h]

end Order

end Library
