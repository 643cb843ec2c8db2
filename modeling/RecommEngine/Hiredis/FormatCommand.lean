/-
# Hiredis.FormatCommand -- commands from format strings

`redisvFormatCommand` goes through a format: a space ends a word, `%s` and `%b` put a
value into the word, any other conversion is left to `vsnprintf` (a parameter,
`print`).  Every word becomes one argument of the command.

* `build_eq`: the lengths that are added up beforehand are those that are written, so
  the assertion at the end holds, as long as an `int` holds the length.
* `scan_tokens`: the words are those of the format.  What stands in a value
  (spaces, line ends, `%`, zero bytes) is never looked at.
* `format_command_words`: so a command has one argument for each word of its format.

A read outside the format or outside an argument, and the failed assertion, are
`fault`.  Memory does not run out.
-/
import RecommEngine.Hiredis.Numeral

namespace RecommEngine.Hiredis

set_option autoImplicit false

open Theory.ByteStream (Bytes)

inductive FormatError where
  /-- `goto err`: the call returns -1. -/
  | err
  | fault
  deriving DecidableEq

/-- A variable argument in its eight bytes. -/
inductive VaArg where
  /-- A pointer to what can be read there. -/
  | pointer (data : Bytes)
  | word (w : Int64)
  | double (bits : UInt64)

/-- The type that a conversion reads from the list of arguments. -/
inductive ArgClass where
  | int
  | long
  | longLong
  | double

def vaPointer : List VaArg → Except FormatError (Bytes × List VaArg)
  | .pointer data :: ap => .ok (data, ap)
  | _ => .error .fault

def vaSize : List VaArg → Except FormatError (Nat × List VaArg)
  | .word w :: ap => .ok (w.toUInt64.toNat, ap)
  | _ => .error .fault

def vaNumber : ArgClass → List VaArg → Except FormatError (VaArg × List VaArg)
  | .double, .double bits :: ap => .ok (.double bits, ap)
  | .double, _ => .error .fault
  | _, .word w :: ap => .ok (.word w, ap)
  | _, _ => .error .fault

/-- The characters before the first zero byte. -/
def cString (data : Bytes) : Except FormatError Bytes :=
  if 0 ∈ data then .ok (data.takeWhile (· ≠ 0)) else .error .fault

/-! ## Conversions -/

def isIntFmt (c : UInt8) : Bool :=
  "diouxX".toList.any fun d => c = ascii d

def isDoubleFmt (c : UInt8) : Bool :=
  "eEfFgGaA".toList.any fun d => c = ascii d

/-- `if (*_p == c) _p++` -/
def skipOne (c : Char) : Bytes → Bytes
  | d :: p => if d = ascii c then p else d :: p
  | [] => []

def skipPrecision : Bytes → Bytes
  | d :: p => if d = ascii '.' then p.dropWhile isDigit else d :: p
  | [] => []

/-- Past the flags, the field width and the precision. -/
def skipModifiers (p : Bytes) : Bytes :=
  skipPrecision
    ((skipOne '+' (skipOne ' ' (skipOne '-' (skipOne '0' (skipOne '#' p))))).dropWhile isDigit)

/-- Where an integer conversion follows a size, and its type. -/
def sized (class_ : ArgClass) : Bytes → Option (Bytes × ArgClass)
  | c :: p => if isIntFmt c then some (c :: p, class_) else none
  | [] => none

/-- The format from the conversion character on, and what it reads. -/
def conversion : Bytes → Option (Bytes × ArgClass)
  -- strchr also finds the zero byte that ends its string
  | [] => some ([], .int)
  | c :: p =>
      if isIntFmt c then some (c :: p, .int)
      else if isDoubleFmt c then some (c :: p, .double)
      else if c = ascii 'h' then
        if p.head? = some (ascii 'h') then sized .int p.tail else sized .int p
      else if c = ascii 'l' then
        if p.head? = some (ascii 'l') then sized .longLong p.tail else sized .long p
      else none

structure FormatState where
  curarg : Bytes := []
  touched : Bool := false
  curargv : List Bytes := []
  ap : List VaArg

namespace FormatState

/-- The current argument is put into `curargv` if it was touched. -/
def endArg (s : FormatState) : FormatState :=
  if s.touched then { s with curarg := [], touched := false, curargv := s.curargv ++ [s.curarg] } else s

def cat (s : FormatState) (text : Bytes) : FormatState :=
  { s with curarg := s.curarg ++ text, touched := true }

end FormatState

variable (print : Bytes → VaArg → Bytes)

/-- The conversion that begins with the `%` before `p`: how much of `p` it takes. -/
def convert (p : Bytes) (s : FormatState) : Except FormatError (Nat × FormatState) :=
  if p.head? = some (ascii 's') then do
    let (data, ap) ← vaPointer s.ap
    let text ← cString data
    return (1, { s.cat text with ap })
  else if p.head? = some (ascii 'b') then do
    let (data, ap) ← vaPointer s.ap
    let (size, ap) ← vaSize ap
    if size ≤ data.length then return (1, { s.cat (data.take size) with ap }) else throw .fault
  else if p.head? = some (ascii '%') then
    return (1, s.cat [ascii '%'])
  else
    match conversion (skipModifiers p) with
    | none => throw .err
    | some (rest, class_) => do
        let (arg, ap) ← vaNumber class_ s.ap
        let l := p.length - rest.length + 1
        -- a longer conversion is read over, and the rest of it stays in the format
        if l + 1 < 14 then
          if l ≤ p.length then return (l, { s.cat (print (ascii '%' :: p.take l) arg) with ap })
          else throw .fault
        else return (1, { s.cat [] with ap })

/-- The loop over the format.  `skip` bytes of it belong to a conversion. -/
def scan : Bytes → Nat → FormatState → Except FormatError FormatState
  | [], _, s => .ok s
  | _ :: p, skip + 1, s => scan p skip s
  | c :: p, 0, s =>
      if c ≠ ascii '%' ∨ p = [] then
        if c = ascii ' ' then scan p 0 s.endArg else scan p 0 (s.cat [c])
      else
        match convert print p s with
        | .ok (skip, s) => scan p skip s
        | .error error => .error error

/-! ## The command at protocol level -/

/-- `do { len++; i /= 10; } while (i);` -/
def digitCount (i : Nat) : Nat :=
  if i < 10 then 1 else digitCount (i / 10) + 1

def intlen (i : Int32) : Nat :=
  (if i < 0 then 1 else 0) + digitCount i.toInt.natAbs

def bulklen (len : Nat) : Nat :=
  1 + intlen (Int32.ofNat len) + 2 + len + 2

def bulk (arg : Bytes) : Bytes :=
  ascii '$' :: (decimal arg.length ++ crlf ++ (arg ++ crlf))

/-- The arguments as the server expects them. -/
def multibulk (argv : List Bytes) : Bytes :=
  ascii '*' :: (signedDecimal (Int32.ofNat argv.length).toInt ++ crlf ++ (argv.map bulk).flatten)

/-- The length that is added up in an `int` before anything is written. -/
def totlen (argv : List Bytes) : Int32 :=
  (argv.map fun arg => Int32.ofNat (bulklen arg.length)).foldl (· + ·) 0 +
    Int32.ofNat (1 + intlen (Int32.ofNat argv.length) + 2)

/-- `assert(pos == totlen)`; neither is an `int` if the command is too long for one. -/
def build (argv : List Bytes) : Except FormatError (Int32 × Bytes) :=
  if (multibulk argv).length < 2 ^ 31 ∧ Int32.ofNat (multibulk argv).length = totlen argv then
    .ok (totlen argv, multibulk argv)
  else .error .fault

def redisvFormatCommand (format : Bytes) (ap : List VaArg) : Except FormatError (Int32 × Bytes) :=
  match scan print format 0 { ap } with
  | .ok s => build s.endArg.curargv
  | .error error => .error error

/-! ## The length -/

theorem digitCount_eq (n : Nat) : digitCount n = (decimal n).length := by
  induction n using decimal_induction with
  | one n small => rw [digitCount, if_pos small, decimal_of_lt small, List.length_singleton]
  | more n large ih =>
      rw [digitCount, if_neg (by omega), decimal_of_ge large, List.length_append, ih]
      rfl

theorem intlen_ofNat {n : Nat} (fits : n < 2 ^ 31) : intlen (Int32.ofNat n) = (decimal n).length := by
  have value := Int32.toInt_ofNat_of_lt fits
  have notBelow : ¬ Int32.ofNat n < 0 := by
    rw [Int32.lt_iff_toInt_lt, value]
    simp
  rw [intlen, if_neg notBelow, value, Int.natAbs_natCast, digitCount_eq, Nat.zero_add]

theorem bulklen_eq {arg : Bytes} (fits : arg.length < 2 ^ 31) :
    bulklen arg.length = (bulk arg).length := by
  rw [bulklen, intlen_ofNat fits, bulk]
  simp [crlf]
  omega

theorem signedDecimal_ofNat {n : Nat} (fits : n < 2 ^ 31) :
    signedDecimal (Int32.ofNat n).toInt = decimal n := by
  rw [Int32.toInt_ofNat_of_lt fits, signedDecimal, if_neg (by simp), Int.natAbs_natCast]

theorem foldl_add_ofNat (lens : List Nat) (start : Nat) :
    (lens.map Int32.ofNat).foldl (· + ·) (Int32.ofNat start) = Int32.ofNat (start + lens.sum) := by
  induction lens generalizing start with
  | nil => simp
  | cons len lens ih =>
      rw [List.map_cons, List.foldl_cons, ← Int32.ofNat_add, ih, List.sum_cons, Nat.add_assoc]

/-- The command is short enough for an `int`. -/
def Fits (argv : List Bytes) : Prop :=
  (multibulk argv).length < 2 ^ 31

instance (argv : List Bytes) : Decidable (Fits argv) := inferInstanceAs (Decidable (_ < _))

theorem length_le_of_mem {argv : List Bytes} {arg : Bytes} (inside : arg ∈ argv) :
    arg.length ≤ (multibulk argv).length := by
  have part : (bulk arg).length ≤ ((argv.map bulk).flatten).length :=
    (List.sublist_flatten_of_mem (List.mem_map_of_mem inside)).length_le
  have here : arg.length ≤ (bulk arg).length := by
    simp [bulk]
    omega
  rw [multibulk, List.length_cons, List.length_append]
  omega

theorem count_le_length (argv : List Bytes) : argv.length ≤ (multibulk argv).length := by
  have each : ∀ len ∈ (argv.map bulk).map List.length, 1 ≤ len := by
    simp [bulk]
  have count := List.length_le_sum_of_one_le _ each
  rw [List.length_map, List.length_map, ← List.length_flatten] at count
  rw [multibulk, List.length_cons, List.length_append]
  omega

theorem totlen_eq {argv : List Bytes} (fits : Fits argv) :
    totlen argv = Int32.ofNat (multibulk argv).length := by
  have lens : (argv.map fun arg => Int32.ofNat (bulklen arg.length)) =
      ((argv.map bulk).map List.length).map Int32.ofNat := by
    rw [List.map_map, List.map_map]
    refine List.map_congr_left fun arg inside => ?_
    have := length_le_of_mem inside
    exact congrArg Int32.ofNat (bulklen_eq (this.trans_lt fits))
  have count := (count_le_length argv).trans_lt fits
  have sum := foldl_add_ofNat ((argv.map bulk).map List.length) 0
  have zero : Int32.ofNat 0 = 0 := rfl
  rw [zero] at sum
  rw [totlen, lens, sum, ← Int32.ofNat_add, intlen_ofNat count, multibulk,
    signedDecimal_ofNat count]
  congr 1
  simp [crlf, List.length_flatten]
  omega

/-- The assertion holds. -/
theorem build_eq {argv : List Bytes} (fits : Fits argv) :
    build argv = .ok (Int32.ofNat (multibulk argv).length, multibulk argv) := by
  rw [build, totlen_eq fits, if_pos ⟨fits, rfl⟩]

/-! ## The words of a format -/

/-- A character that stands for itself in a format. -/
def Plainly (c : UInt8) : Prop :=
  c ≠ ascii ' ' ∧ c ≠ ascii '%' ∧ c ≠ 0

instance (c : UInt8) : Decidable (Plainly c) := inferInstanceAs (Decidable (_ ∧ _))

/-- A format, piece by piece, with the values for its conversions. -/
inductive Token where
  | space
  | literal (c : UInt8) (plain : Plainly c)
  | percent
  /-- `%s`. -/
  | str (text : Bytes) (ended : 0 ∉ text)
  /-- `%b`. -/
  | bytes (data : Bytes) (size : data.length < 2 ^ 63)
  /-- `%d`. -/
  | int (w : Int64)

namespace Token

/-- The format string. -/
def format : Token → Bytes
  | .space => [ascii ' ']
  | .literal c _ => [c]
  | .percent => [ascii '%', ascii '%']
  | .str _ _ => [ascii '%', ascii 's']
  | .bytes _ _ => [ascii '%', ascii 'b']
  | .int _ => [ascii '%', ascii 'd']

/-- The variable arguments. -/
def args : Token → List VaArg
  | .space => []
  | .literal _ _ => []
  | .percent => []
  | .str text _ => [.pointer (text ++ [0])]
  | .bytes data _ => [.pointer data, .word (Int64.ofNat data.length)]
  | .int w => [.word w]

/-- What it puts into its word. -/
def text : Token → Bytes
  | .space => []
  | .literal c _ => [c]
  | .percent => [ascii '%']
  | .str text _ => text
  | .bytes data _ => data
  | .int w => signedDecimal w.toInt32.toInt

def isSpace : Token → Bool
  | .space => true
  | _ => false

end Token

/-- The words between the spaces of a format, with the values filled in. -/
def words (tokens : List Token) : List Bytes :=
  ((tokens.splitOnP Token.isSpace).filter (! ·.isEmpty)).map fun word => word.flatMap Token.text

/-- The state after a token. -/
def FormatState.token (s : FormatState) (t : Token) : FormatState :=
  { (if t.isSpace then s.endArg else s.cat t.text) with ap := s.ap.drop t.args.length }

/-- `vsnprintf` on `%d`: the `int` in the low half of the slot. -/
def PrintsInt : Prop :=
  ∀ w, print [ascii '%', ascii 'd'] (.word w) = signedDecimal w.toInt32.toInt

variable {print}

/-- A conversion of one character. -/
theorem scan_conversion {c : UInt8} {p : Bytes} {s s' : FormatState}
    (converted : convert print (c :: p) s = .ok (1, s')) :
    scan print (ascii '%' :: c :: p) 0 s = scan print p 0 s' := by
  rw [scan, if_neg (by simp), converted]
  rfl

theorem scan_literal {c : UInt8} (notPercent : c ≠ ascii '%') (notSpace : c ≠ ascii ' ') (p : Bytes)
    (s : FormatState) : scan print (c :: p) 0 s = scan print p 0 (s.cat [c]) := by
  rw [scan, if_pos (Or.inl notPercent), if_neg notSpace]

theorem cString_terminated {text : Bytes} (ended : 0 ∉ text) : cString (text ++ [0]) = .ok text := by
  have taken : (text ++ [0]).takeWhile (fun c => decide (c ≠ 0)) = text := by
    rw [List.takeWhile_append_of_pos fun c inside => ?_]
    · simp
    · simpa using fun zero : c = 0 => ended (zero ▸ inside)
  rw [cString, if_pos (by simp), taken]

theorem convert_str {text : Bytes} (ended : 0 ∉ text) (p : Bytes) {s : FormatState} {ap : List VaArg}
    (next : s.ap = .pointer (text ++ [0]) :: ap) :
    convert print (ascii 's' :: p) s = .ok (1, { s.cat text with ap }) := by
  rw [convert, List.head?_cons, if_pos rfl, next]
  show (cString (text ++ [0]) >>= fun text => pure (1, { s.cat text with ap })) = _
  rw [cString_terminated ended]
  rfl

theorem toNat_ofNat_size {n : Nat} (fits : n < 2 ^ 63) : (Int64.ofNat n).toUInt64.toNat = n := by
  rw [Int64.toUInt64_ofNat', UInt64.toNat_ofNat']
  omega

theorem convert_bytes {data : Bytes} (size : data.length < 2 ^ 63) (p : Bytes) {s : FormatState}
    {ap : List VaArg} (next : s.ap = .pointer data :: .word (Int64.ofNat data.length) :: ap) :
    convert print (ascii 'b' :: p) s = .ok (1, { s.cat data with ap }) := by
  rw [convert, List.head?_cons, if_neg (by decide), if_pos rfl, next]
  show (if (Int64.ofNat data.length).toUInt64.toNat ≤ data.length then
    pure (1, { s.cat (data.take (Int64.ofNat data.length).toUInt64.toNat) with ap }) else throw _) = _
  rw [toNat_ofNat_size size, if_pos le_rfl, List.take_length]
  rfl

theorem convert_percent (p : Bytes) (s : FormatState) :
    convert print (ascii '%' :: p) s = .ok (1, s.cat [ascii '%']) := by
  rw [convert, List.head?_cons, if_neg (by decide), if_neg (by decide), if_pos rfl]
  rfl

theorem convert_int (printsInt : PrintsInt print) {w : Int64} (p : Bytes) {s : FormatState}
    {ap : List VaArg} (next : s.ap = .word w :: ap) :
    convert print (ascii 'd' :: p) s =
      .ok (1, { s.cat (signedDecimal w.toInt32.toInt) with ap }) := by
  have found : conversion (skipModifiers (ascii 'd' :: p)) = some (ascii 'd' :: p, .int) := rfl
  rw [convert, List.head?_cons, if_neg (by decide), if_neg (by decide), if_neg (by decide), found, next]
  have one : (ascii 'd' :: p).length - (ascii 'd' :: p).length + 1 = 1 := by omega
  show (if (ascii 'd' :: p).length - (ascii 'd' :: p).length + 1 + 1 < 14 then _ else _) = _
  rw [one, if_pos (by decide), if_pos (by simp), ← printsInt w]
  rfl

/-- A token of the format takes its own bytes and its own arguments. -/
theorem scan_token (printsInt : PrintsInt print) (t : Token) (p : Bytes) (s : FormatState)
    {ap : List VaArg} (next : s.ap = t.args ++ ap) :
    scan print (t.format ++ p) 0 s = scan print p 0 (s.token t) := by
  have rest : s.ap.drop t.args.length = ap := by rw [next, List.drop_left]
  rw [FormatState.token, rest]
  cases t with
  | space =>
      have same : s.endArg.ap = s.ap := by
        unfold FormatState.endArg
        split <;> rfl
      show scan print (ascii ' ' :: p) 0 s = scan print p 0 { s.endArg with ap }
      rw [scan, if_pos (Or.inl (by decide)), if_pos rfl]
      rw [Token.args, List.nil_append, ← same] at next
      rw [← next]
  | literal c plain =>
      rw [Token.args, List.nil_append] at next
      rw [← next]
      exact scan_literal plain.2.1 plain.1 p s
  | percent =>
      rw [Token.args, List.nil_append] at next
      rw [← next]
      exact scan_conversion (convert_percent p s)
  | str text ended => exact scan_conversion (convert_str ended p next)
  | bytes data size => exact scan_conversion (convert_bytes size p next)
  | int w => exact scan_conversion (convert_int printsInt p next)

/-- The words of the format: the loop looks at no value. -/
theorem scan_tokens (printsInt : PrintsInt print) (tokens : List Token) (s : FormatState)
    (args : s.ap = tokens.flatMap Token.args) :
    scan print (tokens.flatMap Token.format) 0 s = .ok (tokens.foldl FormatState.token s) := by
  induction tokens generalizing s with
  | nil => rfl
  | cons t tokens ih =>
      rw [List.flatMap_cons] at args ⊢
      rw [scan_token printsInt t _ s args, List.foldl_cons]
      refine ih _ ?_
      show s.ap.drop t.args.length = _
      rw [args, List.drop_left]

/-- A word is put into the arguments when it ends, unless nothing belongs to it. -/
theorem FormatState.endArg_word {s : FormatState} {word : List Token}
    (curarg : s.curarg = word.flatMap Token.text) (touched : s.touched = ! word.isEmpty) :
    s.endArg.curarg = [] ∧ s.endArg.touched = false ∧
      s.endArg.curargv = s.curargv ++
        ([word].filter (! ·.isEmpty)).map fun word => word.flatMap Token.text := by
  cases word with
  | nil =>
      have untouched : s.touched = false := touched
      rw [endArg, if_neg (by simp [untouched])]
      exact ⟨curarg, untouched, (List.append_nil _).symm⟩
  | cons t word =>
      have isTouched : s.touched = true := touched
      rw [endArg, if_pos isTouched, curarg]
      exact ⟨rfl, rfl, rfl⟩

/-- The arguments once the format has ended, when `word` was the word so far. -/
theorem endArg_tokens (tokens word : List Token) (s : FormatState)
    (curarg : s.curarg = word.flatMap Token.text) (touched : s.touched = ! word.isEmpty) :
    (tokens.foldl FormatState.token s).endArg.curargv =
      s.curargv ++ ((((tokens.splitOnP Token.isSpace).modifyHead (word ++ ·)).filter
        (! ·.isEmpty)).map fun word => word.flatMap Token.text) := by
  induction tokens generalizing word s with
  | nil => simpa using (FormatState.endArg_word curarg touched).2.2
  | cons t tokens ih =>
      rw [List.foldl_cons, List.splitOnP_cons_eq_if_modifyHead]
      cases spaced : t.isSpace with
      | true =>
          obtain ⟨noText, untouched, argv⟩ := FormatState.endArg_word curarg touched
          have token : s.token t = { s.endArg with ap := s.ap.drop t.args.length } := by
            rw [FormatState.token, spaced, if_pos rfl]
          have same : (tokens.splitOnP Token.isSpace).modifyHead ([] ++ ·) =
              tokens.splitOnP Token.isSpace := by
            cases tokens.splitOnP Token.isSpace <;> rfl
          rw [if_pos rfl, ih [] (s.token t) (by rw [token]; exact noText)
            (by rw [token]; exact untouched), same, token]
          show s.endArg.curargv ++ _ = _
          rw [argv, List.append_assoc, ← List.map_append, ← List.filter_append]
          simp
      | false =>
          have token : s.token t = { s.cat t.text with ap := s.ap.drop t.args.length } := by
            rw [FormatState.token, spaced, if_neg (by simp)]
          rw [if_neg (by simp), ih (word ++ [t]) (s.token t)
            (by rw [token]; simp [FormatState.cat, curarg])
            (by rw [token]; simp [FormatState.cat]), token, List.modifyHead_modifyHead]
          simp [FormatState.cat, Function.comp_def]

/-- The words of a format are the arguments that are written. -/
theorem redisvFormatCommand_tokens (printsInt : PrintsInt print) (tokens : List Token) :
    redisvFormatCommand print (tokens.flatMap Token.format) (tokens.flatMap Token.args) =
      build (words tokens) := by
  have argv : (tokens.foldl FormatState.token { ap := tokens.flatMap Token.args }).endArg.curargv =
      words tokens := by
    rw [endArg_tokens tokens [] _ rfl rfl, words]
    cases tokens.splitOnP Token.isSpace <;> rfl
  rw [redisvFormatCommand, scan_tokens printsInt tokens _ rfl]
  dsimp only
  rw [argv]

/-- **A command has one argument for each word of its format.**  Whatever bytes the
values hold, none of them splits an argument, ends it or joins it to another. -/
theorem format_command_words (printsInt : PrintsInt print) (tokens : List Token)
    (fits : Fits (words tokens)) :
    redisvFormatCommand print (tokens.flatMap Token.format) (tokens.flatMap Token.args) =
      .ok (Int32.ofNat (multibulk (words tokens)).length, multibulk (words tokens)) := by
  rw [redisvFormatCommand_tokens printsInt, build_eq fits]

/-- A `vsnprintf` that knows `%d`. -/
def printInt (_ : Bytes) : VaArg → Bytes
  | .word w => signedDecimal w.toInt32.toInt
  | _ => []

/-- `"X %b %d"` with the value `" \r\n%"` and the number 7: three arguments. -/
theorem format_command_words_value :
    ∃ len, redisvFormatCommand printInt
      [ascii 'X', ascii ' ', ascii '%', ascii 'b', ascii ' ', ascii '%', ascii 'd']
      [.pointer [ascii ' ', cr, lf, ascii '%'], .word (Int64.ofNat 4), .word 7] =
    .ok (len, multibulk [[ascii 'X'], [ascii ' ', cr, lf, ascii '%'], [ascii '7']]) := by
  obtain ⟨tokens, here⟩ : ∃ tokens : List Token, tokens = [.literal (ascii 'X') (by decide), .space,
    .bytes [ascii ' ', cr, lf, ascii '%'] (by decide), .space, .int 7] := ⟨_, rfl⟩
  have words_eq : words tokens = [[ascii 'X'], [ascii ' ', cr, lf, ascii '%'], [ascii '7']] := by
    rw [here]
    decide
  have printsInt : PrintsInt printInt := fun _ => rfl
  have formatted := format_command_words printsInt tokens (by rw [words_eq]; decide)
  rw [words_eq] at formatted
  subst here
  exact ⟨_, formatted⟩

end RecommEngine.Hiredis
