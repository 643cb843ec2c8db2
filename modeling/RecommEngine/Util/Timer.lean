/-
# Util.Timer -- local time as a string

`Timer::LocalTimeStrHMS` prints the broken-down local time of a second as
`YYYYMMDDHHMMSS`.  `localtime_r` is a parameter, taken with what the log files
rely on: fields in their ranges and a clock that is never set back, so that
later seconds have later dates.  The strings then compare as the seconds do
(`localTimeStrHMS_lt_iff`).
-/
import RecommEngine.Util.StrUtil

namespace RecommEngine.Util

set_option autoImplicit false

open Theory.Decimal

/-- `struct tm`. -/
structure Tm where
  tmYear : Int
  tmMon : Int
  tmMday : Int
  tmHour : Int
  tmMin : Int
  tmSec : Int
  deriving DecidableEq

namespace Tm

/-- The fields, most significant first. -/
def fields (t : Tm) : List Int :=
  [t.tmYear, t.tmMon, t.tmMday, t.tmHour, t.tmMin, t.tmSec]

/-- Years of four digits and the usual ranges; a leap second is second 60. -/
structure InRange (t : Tm) : Prop where
  year : 1000 ≤ t.tmYear + 1900 ∧ t.tmYear + 1900 ≤ 9999
  mon : 0 ≤ t.tmMon ∧ t.tmMon ≤ 11
  mday : 1 ≤ t.tmMday ∧ t.tmMday ≤ 31
  hour : 0 ≤ t.tmHour ∧ t.tmHour ≤ 23
  min : 0 ≤ t.tmMin ∧ t.tmMin ≤ 59
  sec : 0 ≤ t.tmSec ∧ t.tmSec ≤ 60

/-- The date and time read as one number of 14 digits. -/
def number (t : Tm) : Nat :=
  (((((t.tmYear + 1900).toNat * 100 + (t.tmMon + 1).toNat) * 100 + t.tmMday.toNat) * 100 +
    t.tmHour.toNat) * 100 + t.tmMin.toNat) * 100 + t.tmSec.toNat

theorem InRange.number_eq {t : Tm} (range : t.InRange) :
    (t.number : Int) = (((((t.tmYear + 1900) * 100 + (t.tmMon + 1)) * 100 + t.tmMday) * 100 +
      t.tmHour) * 100 + t.tmMin) * 100 + t.tmSec := by
  obtain ⟨year, mon, mday, hour, min, sec⟩ := range
  simp only [number, Nat.cast_add, Nat.cast_mul, Nat.cast_ofNat]
  rw [Int.toNat_of_nonneg (by omega), Int.toNat_of_nonneg (by omega),
    Int.toNat_of_nonneg (by omega), Int.toNat_of_nonneg (by omega),
    Int.toNat_of_nonneg (by omega), Int.toNat_of_nonneg (by omega)]

theorem InRange.number_lt {t : Tm} (range : t.InRange) : t.number < 10 ^ 14 := by
  have value := range.number_eq
  obtain ⟨year, mon, mday, hour, min, sec⟩ := range
  omega

theorem number_lt_number {s t : Tm} (range : s.InRange) (range' : t.InRange)
    (earlier : s.fields < t.fields) : s.number < t.number := by
  have value := range.number_eq
  have value' := range'.number_eq
  obtain ⟨year, mon, mday, hour, min, sec⟩ := range
  obtain ⟨year', mon', mday', hour', min', sec'⟩ := range'
  simp only [fields, List.cons_lt_cons_iff, List.not_lt_nil, and_false, or_false] at earlier
  rcases earlier with year | ⟨year, mon | ⟨mon, mday | ⟨mday, hour | ⟨hour, min | ⟨min, sec⟩⟩⟩⟩⟩ <;>
    omega

end Tm

/-- `localtime_r` in a zone whose clock is never set back. -/
structure TimeZone where
  localtimeR : Nat → Tm
  inRange : ∀ {t}, t < 2 ^ 32 → (localtimeR t).InRange
  ordered : ∀ {s t}, s < t → t < 2 ^ 32 → (localtimeR s).fields < (localtimeR t).fields

namespace Timer

def localTimeStrHMS (Z : TimeZone) (tt : Nat) : List Char :=
  let t := Z.localtimeR tt
  stringAppendF []
    (formatInt 4 (t.tmYear + 1900) ++ formatInt0 2 (t.tmMon + 1) ++ formatInt0 2 t.tmMday ++
      formatInt0 2 t.tmHour ++ formatInt0 2 t.tmMin ++ formatInt0 2 t.tmSec)

theorem localTimeStrHMS_eq (Z : TimeZone) {tt : Nat} (small : tt < 2 ^ 32) :
    localTimeStrHMS Z tt = fixedDigits 14 (Z.localtimeR tt).number := by
  have range := Z.inRange small
  obtain ⟨year, mon, mday, hour, min, sec⟩ := range
  have two : ∀ {n : Int}, 0 ≤ n → n < 100 → formatInt0 2 n = fixedDigits 2 n.toNat := by
    intro n nonneg less
    obtain ⟨n, rfl⟩ := Int.eq_ofNat_of_zero_le nonneg
    exact formatInt0_eq (by omega) (by norm_num)
  have four : formatInt 4 ((Z.localtimeR tt).tmYear + 1900) =
      fixedDigits 4 ((Z.localtimeR tt).tmYear + 1900).toNat := by
    obtain ⟨n, same⟩ := Int.eq_ofNat_of_zero_le
      (show 0 ≤ (Z.localtimeR tt).tmYear + 1900 by omega)
    rw [same]
    exact formatInt_eq 3 (by omega) (by omega)
  rw [localTimeStrHMS, stringAppendF, four, two (by omega) (by omega), two (by omega) (by omega),
    two (by omega) (by omega), two (by omega) (by omega), two (by omega) (by omega),
    fixedDigits_append _ _ (by omega), fixedDigits_append _ _ (by omega),
    fixedDigits_append _ _ (by omega), fixedDigits_append _ _ (by omega),
    fixedDigits_append _ _ (by omega), List.nil_append, List.take_of_length_le (by simp [strBufSize])]
  rfl

theorem length_localTimeStrHMS (Z : TimeZone) {tt : Nat} (small : tt < 2 ^ 32) :
    (localTimeStrHMS Z tt).length = 14 := by
  rw [localTimeStrHMS_eq Z small, length_fixedDigits]

/-- Only digits: none of the separators of a file name. -/
theorem notMem_localTimeStrHMS (Z : TimeZone) {tt : Nat} (small : tt < 2 ^ 32) {c : Char}
    (sep : c.isDigit = false) : c ∉ localTimeStrHMS Z tt := by
  rw [localTimeStrHMS_eq Z small]
  intro inside
  simp [isDigit_fixedDigits inside] at sep

/-- The strings of two seconds compare as the seconds do. -/
theorem localTimeStrHMS_lt_iff (Z : TimeZone) {s t : Nat} (small : s < 2 ^ 32) (small' : t < 2 ^ 32) :
    localTimeStrHMS Z s < localTimeStrHMS Z t ↔ s < t := by
  have keeps : ∀ {a b : Nat}, a < b → b < 2 ^ 32 →
      (Z.localtimeR a).number < (Z.localtimeR b).number := fun less fits =>
    Tm.number_lt_number (Z.inRange (less.trans fits)) (Z.inRange fits) (Z.ordered less fits)
  rw [localTimeStrHMS_eq Z small, localTimeStrHMS_eq Z small',
    fixedDigits_lt_iff (Z.inRange small).number_lt (Z.inRange small').number_lt]
  constructor
  · intro less
    rcases lt_trichotomy s t with ahead | rfl | behind
    · exact ahead
    · omega
    · have := keeps behind small
      omega
  · exact fun less => keeps less small'

end Timer

end RecommEngine.Util
