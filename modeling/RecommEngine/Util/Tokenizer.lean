/-
# Util.Tokenizer -- the boost functions that read configuration lists

Lists of servers and of buckets are split with `boost::tokenizer` over a
`char_separator`, which drops its separators and the empty tokens between them,
and their numbers are read with `boost::lexical_cast`.  A failed cast, an
exception in the source, is `none`.
-/
import Mathlib

namespace RecommEngine.Util

set_option autoImplicit false

/-- `boost::tokenizer` with a `char_separator` of the given characters. -/
def tokenizer (separators : List Char) (text : List Char) : List (List Char) :=
  (text.splitOnP (· ∈ separators)).filter (· ≠ [])

/-- A number without a sign. -/
def digitsValue (text : List Char) : Option Nat :=
  if text ≠ [] ∧ text.all Char.isDigit then
    some (text.foldl (fun n c => 10 * n + (c.toNat - '0'.toNat)) 0)
  else none

/-- `boost::lexical_cast<int>`. -/
def lexicalCastInt (text : List Char) : Option Int32 :=
  let signed : Option Int :=
    match text with
    | '-' :: digits => (digitsValue digits).map fun n => -(n : Int)
    | '+' :: digits => (digitsValue digits).map Int.ofNat
    | digits => (digitsValue digits).map Int.ofNat
  match signed with
  | some n => if -2 ^ 31 ≤ n ∧ n < 2 ^ 31 then some (Int32.ofInt n) else none
  | none => none

/-- `boost::lexical_cast<unsigned int>`, which takes a sign and negates modulo 2^32. -/
def lexicalCastUnsigned (text : List Char) : Option UInt32 :=
  let value (digits : List Char) : Option UInt32 :=
    match digitsValue digits with
    | some n => if n < 2 ^ 32 then some (UInt32.ofNat n) else none
    | none => none
  match text with
  | '-' :: digits => (value digits).map fun n => 0 - n
  | '+' :: digits => value digits
  | digits => value digits

end RecommEngine.Util
