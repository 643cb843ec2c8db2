/-
# Util.StrUtil -- splitting and formatting strings

`SplitString` and `StringAppendF` of `util/string/str_util.cc`, over lists of
characters, with the two `printf` conversions the repository uses, and what is
left of a string that is handed on as a C string.
-/
import RecommEngine.Theory.Decimal

namespace RecommEngine.Util

set_option autoImplicit false

open Theory.Decimal

/-! ## SplitString -/

/-- The loop of `SplitString`; `rest` is the string from `last_pos` on. -/
def splitLoop (del : Char) (rest : List Char) : List (List Char) :=
  let seg := rest.takeWhile (· != del)
  let next := rest.drop (seg.length + 1)
  (if seg = [] then [] else [seg]) ++ if next = [] then [] else splitLoop del next
termination_by rest.length
decreasing_by
  rename_i more
  have filled : next.length ≠ 0 := by simpa using more
  simp only [next, List.length_drop] at filled ⊢
  omega

def splitString (str : List Char) (del : Char) (segs : List (List Char)) : List (List Char) :=
  if str = [] then segs else segs ++ splitLoop del str

@[simp] theorem splitLoop_nil (del : Char) : splitLoop del [] = [] := by
  rw [splitLoop]
  simp

/-- The loop on a string without the delimiter. -/
theorem splitLoop_of_notMem {del : Char} {seg : List Char} (free : del ∉ seg) (filled : seg ≠ []) :
    splitLoop del seg = [seg] := by
  have whole : seg.takeWhile (· != del) = seg := by
    rw [List.takeWhile_eq_self_iff]
    intro c inside
    simpa using ne_of_mem_of_not_mem inside free
  rw [splitLoop]
  simp [whole, filled]

/-- The loop on a string whose first delimiter comes after `seg`. -/
theorem splitLoop_append {del : Char} {seg : List Char} (free : del ∉ seg) (rest : List Char) :
    splitLoop del (seg ++ del :: rest) = (if seg = [] then [] else [seg]) ++ splitLoop del rest := by
  have upTo : (seg ++ del :: rest).takeWhile (· != del) = seg := by
    rw [List.takeWhile_append_of_pos]
    · simp
    · intro c inside
      simpa using ne_of_mem_of_not_mem inside free
  have behind : (seg ++ del :: rest).drop (seg.length + 1) = rest := by
    rw [← List.drop_drop, List.drop_left]
    rfl
  rw [splitLoop]
  simp only [upTo, behind]
  by_cases last : rest = [] <;> simp [last]

/-- The last segment, whatever stands in front of the last delimiter. -/
theorem getLast?_splitLoop {del : Char} {seg : List Char} (free : del ∉ seg) (filled : seg ≠ [])
    (front : List Char) : (splitLoop del (front ++ del :: seg)).getLast? = some seg := by
  by_cases more : del ∈ front
  · obtain ⟨first, rest, rfl, before⟩ := List.eq_append_cons_of_mem more
    have shorter := getLast?_splitLoop free filled rest
    rw [List.append_assoc, List.cons_append, splitLoop_append before, List.getLast?_append,
      shorter, Option.some_or]
  · rw [splitLoop_append more, splitLoop_of_notMem free filled]
    simp
termination_by front.length
decreasing_by
  subst_vars
  simp only [List.length_append, List.length_cons]
  omega

/-! ## C strings -/

/-- What a callee that takes `c_str()` sees: the string up to its first NUL. -/
def cStr (s : String) : String :=
  String.ofList (s.toList.takeWhile (· != '\x00'))

/-- `strncmp(a, b, n) == 0`. -/
def strncmpEq (a b : String) (n : Nat) : Bool :=
  (cStr a).toList.take n = (cStr b).toList.take n

/-! ## StringAppendF -/

def strBufSize : Nat := 1024

/-- The formatted text goes through a buffer of `strBufSize` bytes, the last of
which is the terminator. -/
def stringAppendF (dst formatted : List Char) : List Char :=
  dst ++ formatted.take (strBufSize - 1)

/-- The conversion of an `int` with a minimal width, padded with blanks. -/
def formatInt (width : Nat) (n : Int) : List Char :=
  if n < 0 then padLeft width ' ' ('-' :: Nat.toDigits 10 n.natAbs)
  else padLeft width ' ' (Nat.toDigits 10 n.toNat)

/-- The same with leading zeros, which stand behind the sign. -/
def formatInt0 (width : Nat) (n : Int) : List Char :=
  if n < 0 then '-' :: padLeft (width - 1) '0' (Nat.toDigits 10 n.natAbs)
  else padLeft width '0' (Nat.toDigits 10 n.toNat)

theorem formatInt0_eq {width : Nat} {n : Nat} (fits : n < 10 ^ width) (wide : 0 < width) :
    formatInt0 width n = fixedDigits width n := by
  rw [formatInt0, if_neg (by omega), Int.toNat_natCast, padLeft_toDigits fits wide]

theorem formatInt_eq (width : Nat) {n : Nat} (full : 10 ^ width ≤ n) (fits : n < 10 ^ (width + 1)) :
    formatInt (width + 1) n = fixedDigits (width + 1) n := by
  rw [formatInt, if_neg (by omega), Int.toNat_natCast, padLeft_full _ full,
    padLeft_toDigits fits (by omega)]

end RecommEngine.Util
