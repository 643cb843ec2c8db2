/-
# Hiredis.Numeral -- the numbers of the protocol

`decimal n` is what `%d` and `%zu` write, `signedDecimal` what `%lld` writes.  The
digits give back the number (`appendDigits_decimal`); `readLongLong_decimal` and `readLongLong_signedDecimal` read them back, modulo the
64 bits of a `long long`.
-/
import RecommEngine.Hiredis.RedisReader

namespace RecommEngine.Hiredis

set_option autoImplicit false

open Theory.ByteStream (Bytes)

def decimal (n : Nat) : Bytes :=
  (Nat.toDigits 10 n).map ascii

def signedDecimal (n : Int) : Bytes :=
  if n < 0 then ascii '-' :: decimal n.natAbs else decimal n.natAbs

theorem decimal_of_lt {n : Nat} (small : n < 10) : decimal n = [ascii n.digitChar] := by
  simp [decimal, Nat.toDigits_of_lt_base small]

theorem decimal_of_ge {n : Nat} (large : 10 ≤ n) :
    decimal n = decimal (n / 10) ++ [ascii (n % 10).digitChar] := by
  simp [decimal, Nat.toDigits_of_base_le (by norm_num : 1 < 10) large]

/-- The numeral of a number, digit by digit. -/
theorem decimal_induction {motive : Nat → Prop} (one : ∀ n < 10, motive n)
    (more : ∀ n, 10 ≤ n → motive (n / 10) → motive n) (n : Nat) : motive n := by
  induction n using Nat.strong_induction_on with
  | _ n ih =>
      by_cases small : n < 10
      · exact one n small
      · exact more n (by omega) (ih (n / 10) (by omega))

theorem isDigit_digitChar {d : Nat} (small : d < 10) :
    isDigit (ascii d.digitChar) = true ∧ digit (ascii d.digitChar) = d := by
  have table : ∀ d < 10, isDigit (ascii d.digitChar) = true ∧ digit (ascii d.digitChar) = d := by
    decide
  exact table d small

theorem isDigit_of_mem_decimal {n : Nat} {c : UInt8} (inside : c ∈ decimal n) :
    isDigit c = true := by
  induction n using decimal_induction with
  | one n small =>
      rw [decimal_of_lt small, List.mem_singleton] at inside
      rw [inside]
      exact (isDigit_digitChar small).1
  | more n large ih =>
      rw [decimal_of_ge large, List.mem_append, List.mem_singleton] at inside
      rcases inside with front | rfl
      · exact ih front
      · exact (isDigit_digitChar (Nat.mod_lt n (by norm_num))).1

theorem decimal_ne_nil (n : Nat) : decimal n ≠ [] := by
  by_cases small : n < 10
  · simp [decimal_of_lt small]
  · simp [decimal_of_ge (by omega : 10 ≤ n)]

theorem ne_of_isDigit {c d : UInt8} (isDigit_ : isDigit c = true) (other : isDigit d = false) :
    c ≠ d := by
  rintro rfl
  rw [isDigit_] at other
  cases other

/-- A byte that is no digit stands in no numeral. -/
theorem not_mem_decimal {d : UInt8} (other : isDigit d = false) (n : Nat) : d ∉ decimal n :=
  fun inside => ne_of_isDigit (isDigit_of_mem_decimal inside) other rfl

/-! ## Reading -/

/-- The number whose digits come after those of `v`. -/
def appendDigits (v : Nat) (digits : Bytes) : Nat :=
  digits.foldl (fun v c => v * 10 + digit c) v

@[simp] theorem appendDigits_nil (v : Nat) : appendDigits v [] = v := rfl

@[simp] theorem appendDigits_cons (v : Nat) (c : UInt8) (digits : Bytes) :
    appendDigits v (c :: digits) = appendDigits (v * 10 + digit c) digits := by
  rw [appendDigits, List.foldl_cons, appendDigits]

theorem appendDigits_append (v : Nat) (digits more : Bytes) :
    appendDigits v (digits ++ more) = appendDigits (appendDigits v digits) more :=
  List.foldl_append

theorem appendDigits_decimal (n : Nat) : appendDigits 0 (decimal n) = n := by
  induction n using decimal_induction with
  | one n small =>
      have value := (isDigit_digitChar small).2
      rw [decimal_of_lt small, appendDigits_cons, appendDigits_nil, value, Nat.zero_mul, Nat.zero_add]
  | more n large ih =>
      have last := (isDigit_digitChar (Nat.mod_lt n (by norm_num : 10 > 0))).2
      rw [decimal_of_ge large, appendDigits_append, ih, appendDigits_cons, appendDigits_nil, last]
      omega

theorem readDigits_digits {digits : Bytes} (all : ∀ c ∈ digits, isDigit c = true) (v : Nat)
    (more : Bytes) :
    readDigits (Int64.ofNat v) (digits ++ cr :: more) = some (Int64.ofNat (appendDigits v digits)) := by
  induction digits generalizing v with
  | nil => simp [readDigits]
  | cons c digits ih =>
      have here := all c List.mem_cons_self
      have notEnd : c ≠ cr := ne_of_isDigit here (by decide)
      have ten : (10 : Int64) = Int64.ofNat 10 := rfl
      rw [List.cons_append, readDigits, if_neg notEnd, if_pos here, ten, ← Int64.ofNat_mul,
        ← Int64.ofNat_add, ih fun d inside => all d (List.mem_cons_of_mem _ inside), appendDigits_cons]

theorem readDigits_decimal (n : Nat) (more : Bytes) :
    readDigits 0 (decimal n ++ cr :: more) = some (Int64.ofNat n) := by
  have all : ∀ c ∈ decimal n, isDigit c = true := fun c => isDigit_of_mem_decimal
  have read := readDigits_digits all 0 more
  rw [appendDigits_decimal n] at read
  exact read

theorem readLongLong_decimal (n : Nat) (more : Bytes) :
    readLongLong (decimal n ++ cr :: more) = Int64.ofNat n := by
  have read := readDigits_decimal n more
  obtain ⟨c, digits, split⟩ := List.exists_cons_of_ne_nil (decimal_ne_nil n)
  have first : isDigit c = true := isDigit_of_mem_decimal (by rw [split]; exact List.mem_cons_self)
  have notMinus : c ≠ ascii '-' := ne_of_isDigit first (by decide)
  have notPlus : c ≠ ascii '+' := ne_of_isDigit first (by decide)
  rw [split, List.cons_append] at read ⊢
  rw [readLongLong, if_neg notMinus, if_neg notPlus, read, Option.getD_some]

theorem readLongLong_signedDecimal (n : Int) (more : Bytes) :
    readLongLong (signedDecimal n ++ cr :: more) = Int64.ofInt n := by
  unfold signedDecimal
  split
  · rename_i below
    rw [List.cons_append, readLongLong, if_pos rfl, readDigits_decimal, Option.map_some,
      Option.getD_some]
    have value : n = -(n.natAbs : Int) := by omega
    conv_rhs => rw [value, Int64.ofInt_neg]
    rw [Int64.ofInt_eq_ofNat, Int64.neg_mul, Int64.one_mul]
  · rename_i notBelow
    have value : n = (n.natAbs : Int) := by omega
    rw [readLongLong_decimal]
    conv_rhs => rw [value, Int64.ofInt_eq_ofNat]

end RecommEngine.Hiredis
