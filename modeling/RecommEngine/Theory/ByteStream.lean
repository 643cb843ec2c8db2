/-
# Theory.ByteStream -- fixed-width integers and a sequential reader

Little-endian integers as byte lists, and a file input stream with sticky
failure.  A read that finds fewer bytes than it was asked for copies what there
is over the front of its target and fails the stream; a failed stream reads
nothing, so its target keeps the bytes it had.

While a file is read from its start, all three cases of a read are one:
`read_opened` says that the target is overwritten by the bytes left and that
the stream moves on by the width of the target.
-/
import Mathlib

namespace RecommEngine.Theory.ByteStream

set_option autoImplicit false

abbrev Bytes := List UInt8

/-- A variable or buffer of `width` bytes. -/
abbrev Cell (width : Nat) := List.Vector UInt8 width

/-! ## Little-endian integers -/

def encode : (width value : Nat) → Bytes
  | 0, _ => []
  | width + 1, value => UInt8.ofNat value :: encode width (value / 256)

def decode : Bytes → Nat
  | [] => 0
  | byte :: rest => byte.toNat + 256 * decode rest

@[simp] theorem length_encode (width value : Nat) : (encode width value).length = width := by
  induction width generalizing value with
  | zero => rfl
  | succ width ih => simp [encode, ih]

/-- The bytes of an integer variable. -/
def cell (width value : Nat) : Cell width :=
  ⟨encode width value, length_encode width value⟩

/-! ## Partial overwrites -/

/-- `bytes` copied over the front of `target`, as many as fit. -/
def overwrite {width : Nat} (target : Cell width) (bytes : Bytes) : Cell width :=
  ⟨bytes.take width ++ target.1.drop bytes.length, by
    have := target.2
    simp only [List.length_append, List.length_take, List.length_drop]
    omega⟩

@[simp] theorem overwrite_nil {width : Nat} (target : Cell width) : overwrite target [] = target :=
  Subtype.ext (by simp [overwrite])

structure InStream where
  rest : Bytes
  /-- What follows `rest` is a read error, not the end of the file. -/
  broken : Bool := false
  eof : Bool := false
  fail : Bool := false

/-- `istream::read` into a target of `width` bytes. -/
def InStream.read {width : Nat} (s : InStream) (target : Cell width) : Cell width × InStream :=
  if s.fail then
    (target, s)
  else if width ≤ s.rest.length then
    (overwrite target s.rest, { s with rest := s.rest.drop width })
  else
    (overwrite target s.rest, { s with rest := [], eof := !s.broken, fail := true })

/-- A file opened for reading of which `rest` is left; `spent` once a read has
run past that. -/
def InStream.opened (rest : Bytes) (broken spent : Bool) : InStream :=
  { rest, broken, eof := spent && !broken, fail := spent }

/-- One rule for every read of a file: full, short, or after a short one. -/
theorem InStream.read_opened {width : Nat} (rest : Bytes) (broken spent : Bool)
    (target : Cell width) (atEnd : spent = true → rest = []) :
    (opened rest broken spent).read target =
      (overwrite target rest,
        opened (rest.drop width) broken (spent || decide (rest.length < width))) := by
  cases spent with
  | true => simp [read, opened, atEnd rfl]
  | false =>
      by_cases covers : width ≤ rest.length
      · simp [read, opened, covers]
      · have past : rest.length < width := by omega
        have used : rest.drop width = [] := List.drop_eq_nil_of_le (by omega)
        simp [read, opened, covers, past, used]

/-- A file without read errors. -/
def InStream.ofFile (rest : Bytes) (spent : Bool) : InStream :=
  { rest, eof := spent, fail := spent }

end RecommEngine.Theory.ByteStream
