/-
# Theory.Decimal -- decimal numerals of fixed width

`fixedDigits w n` is the numeral of `n` in `w` digits.  Numerals of one width
compare as strings the way their numbers compare (`fixedDigits_lt_iff`), two of
them written one after the other are the numeral of one number
(`fixedDigits_append`), and padding the shortest numeral with zeros gives the
one of fixed width (`padLeft_toDigits`).
-/
import Mathlib

namespace RecommEngine.Theory.Decimal

set_option autoImplicit false

def fixedDigits : (width n : Nat) → List Char
  | 0, _ => []
  | width + 1, n => fixedDigits width (n / 10) ++ [Nat.digitChar (n % 10)]

/-- `text` with `pad` in front of it up to `width` characters. -/
def padLeft (width : Nat) (pad : Char) (text : List Char) : List Char :=
  List.replicate (width - text.length) pad ++ text

@[simp] theorem length_fixedDigits (width n : Nat) : (fixedDigits width n).length = width := by
  induction width generalizing n with
  | zero => rfl
  | succ width ih => simp [fixedDigits, ih]

theorem isDigit_fixedDigits {width n : Nat} {c : Char} (inside : c ∈ fixedDigits width n) :
    c.isDigit := by
  have digit : ∀ d < 10, (Nat.digitChar d).isDigit := by decide
  induction width generalizing n with
  | zero => simp [fixedDigits] at inside
  | succ width ih =>
      rw [fixedDigits, List.mem_append, List.mem_singleton] at inside
      rcases inside with front | rfl
      · exact ih front
      · exact digit _ (Nat.mod_lt _ (by norm_num))

/-! ## Order -/

/-- What follows two different strings of one length does not matter. -/
theorem append_lt_append {l m : List Char} (less : l < m) (len : l.length = m.length)
    (r s : List Char) : l ++ r < m ++ s := by
  induction l generalizing m with
  | nil =>
      rw [List.length_eq_zero_iff.mp len.symm] at less
      exact absurd less (lt_irrefl _)
  | cons a l ih =>
      cases m with
      | nil => simp at len
      | cons b m =>
          rw [List.cons_append, List.cons_append, List.cons_lt_cons_iff]
          rcases List.cons_lt_cons_iff.mp less with head | ⟨same, tail⟩
          · exact Or.inl head
          · exact Or.inr ⟨same, ih tail (by simpa using len)⟩

theorem digitChar_lt {d e : Nat} (less : d < e) (digit : e < 10) :
    Nat.digitChar d < Nat.digitChar e := by
  have table : ∀ e < 10, ∀ d < e, Nat.digitChar d < Nat.digitChar e := by decide
  exact table e digit d less

theorem fixedDigits_lt {width n m : Nat} (less : n < m) (fits : m < 10 ^ width) :
    fixedDigits width n < fixedDigits width m := by
  induction width generalizing n m with
  | zero => simp at fits; omega
  | succ width ih =>
      rw [pow_succ] at fits
      rw [fixedDigits, fixedDigits]
      by_cases front : n / 10 < m / 10
      · exact append_lt_append (ih front (by omega)) (by simp) _ _
      · have same : n / 10 = m / 10 := by omega
        rw [same]
        refine List.append_left_lt (List.cons_lt_cons_iff.mpr (Or.inl ?_))
        exact digitChar_lt (by omega) (Nat.mod_lt _ (by norm_num))

/-- Numerals of one width compare as their numbers do. -/
theorem fixedDigits_lt_iff {width n m : Nat} (fits : n < 10 ^ width) (fits' : m < 10 ^ width) :
    fixedDigits width n < fixedDigits width m ↔ n < m := by
  constructor
  · intro less
    rcases lt_trichotomy n m with ahead | rfl | behind
    · exact ahead
    · exact absurd less (lt_irrefl _)
    · exact absurd less (lt_asymm (fixedDigits_lt behind fits))
  · exact fun less => fixedDigits_lt less fits'

/-! ## Concatenation and padding -/

theorem fixedDigits_append {v m : Nat} (w n : Nat) (fits : m < 10 ^ v) :
    fixedDigits w n ++ fixedDigits v m = fixedDigits (w + v) (n * 10 ^ v + m) := by
  induction v generalizing m with
  | zero => simp_all [fixedDigits]
  | succ v ih =>
      rw [pow_succ] at fits
      have shift : n * 10 ^ (v + 1) = n * 10 ^ v * 10 := by rw [pow_succ, mul_assoc]
      have front : (n * 10 ^ (v + 1) + m) / 10 = n * 10 ^ v + m / 10 := by omega
      have last : (n * 10 ^ (v + 1) + m) % 10 = m % 10 := by omega
      rw [fixedDigits, ← List.append_assoc, ih (by omega), ← Nat.add_assoc, fixedDigits, front, last]

theorem fixedDigits_zero (width : Nat) : fixedDigits width 0 = List.replicate width '0' := by
  induction width with
  | zero => rfl
  | succ width ih =>
      rw [fixedDigits, Nat.zero_div, ih, List.replicate_succ']
      rfl

theorem padLeft_toDigits {width n : Nat} (fits : n < 10 ^ width) (wide : 0 < width) :
    padLeft width '0' (Nat.toDigits 10 n) = fixedDigits width n := by
  induction width generalizing n with
  | zero => omega
  | succ width ih =>
      rw [pow_succ] at fits
      by_cases small : n < 10
      · rw [Nat.toDigits_of_lt_base small, fixedDigits, Nat.div_eq_of_lt small, fixedDigits_zero,
          Nat.mod_eq_of_lt small]
        rfl
      · have more : 0 < width := by
          by_contra none
          obtain rfl : width = 0 := by omega
          omega
        rw [Nat.toDigits_of_base_le (by norm_num) (by omega), fixedDigits, ← ih (by omega) more]
        simp [padLeft]

/-- A numeral of full width is not padded, whatever the character. -/
theorem padLeft_full {width n : Nat} (pad : Char) (full : 10 ^ width ≤ n) :
    padLeft (width + 1) pad (Nat.toDigits 10 n) = padLeft (width + 1) '0' (Nat.toDigits 10 n) := by
  have long : width < (Nat.toDigits 10 n).length := by
    by_contra short
    cases width with
    | zero => exact absurd Nat.length_toDigits_pos short
    | succ width =>
        have := (Nat.length_toDigits_le_iff (by norm_num) (by omega)).mp (not_lt.mp short)
        omega
  rw [padLeft, padLeft, Nat.sub_eq_zero_of_le long]
  rfl

end RecommEngine.Theory.Decimal
