/-
# RedisServer.CommandStream -- the commands of a stream are the commands executed

A client sends commands one after another, and the server reads them in whatever pieces
come, none longer than it asks for.

* `string2ll_decimal`, `strchr_line`: the lengths and counts are read back.
* `readBulks_outcome`: the arguments of a command, as far as they are there.
* `processInputBufferFor_served`: a call executes the commands that are complete and then
  waits inside the next one, or it stops behind a `QUIT` or a command that blocks.
* `commands_executed`: so the server executes exactly the commands whose bytes have all
  come, in order, up to the first of that kind.  It never answers with a protocol
  error, although the limit of 64k is on the whole buffer and not on what is left of it:
  what it asks for in one read keeps the buffer of a command with small arguments below
  that, and a large argument ends the buffer it is in.
* `readQueryFromClient_waiting`: the same for commands that are all answered at once.
-/
import RecommEngine.RedisServer.Networking
import RecommEngine.Hiredis.FormatCommand
import RecommEngine.Theory.Pipeline

namespace RecommEngine.RedisServer

set_option autoImplicit false

open Theory
open Theory.ByteStream (Bytes)
open Hiredis

/-! ## Numbers and lines -/

theorem le_appendDigits (v : Nat) (digits : Bytes) : v ≤ appendDigits v digits := by
  induction digits generalizing v with
  | nil => simp
  | cons c digits ih =>
      have := ih (v * 10 + digit c)
      rw [appendDigits_cons]
      omega

theorem string2llDigits_eq {digits : Bytes} (all : ∀ c ∈ digits, isDigit c = true) {v : Nat}
    (fits : appendDigits v digits < 2 ^ 64) :
    string2llDigits v digits = some (appendDigits v digits) := by
  induction digits generalizing v with
  | nil => rfl
  | cons c digits ih =>
      rw [appendDigits_cons] at fits ⊢
      have := le_appendDigits (v * 10 + digit c) digits
      rw [string2llDigits, if_pos (all c List.mem_cons_self), if_neg (by omega), if_neg (by omega),
        ih (fun d inside => all d (List.mem_cons_of_mem _ inside)) fits]

theorem digitChar_ne_zero {d : Nat} (positive : 0 < d) (small : d < 10) :
    ascii d.digitChar ≠ ascii '0' := by
  have table : ∀ d < 10, 0 < d → ascii d.digitChar ≠ ascii '0' := by decide
  exact table d small positive

/-- A numeral has no leading zero, unless it is one. -/
theorem decimal_head_ne_zero {n : Nat} (positive : 0 < n) :
    (decimal n).head? ≠ some (ascii '0') := by
  induction n using decimal_induction with
  | one n small =>
      rw [decimal_of_lt small]
      simpa using digitChar_ne_zero positive small
  | more n large ih =>
      obtain ⟨c, digits, split⟩ := List.exists_cons_of_ne_nil (decimal_ne_nil (n / 10))
      have front := ih (by omega)
      rw [decimal_of_ge large]
      rw [split] at front ⊢
      simpa using front

theorem string2llUnsigned_decimal {n : Nat} (positive : 0 < n) (fits : n < 2 ^ 64) :
    string2llUnsigned (decimal n) = some n := by
  have all : ∀ c ∈ decimal n, isDigit c = true := fun c => isDigit_of_mem_decimal
  have head := decimal_head_ne_zero positive
  have value := appendDigits_decimal n
  obtain ⟨c, digits, split⟩ := List.exists_cons_of_ne_nil (decimal_ne_nil n)
  rw [split] at all head value ⊢
  rw [appendDigits_cons, Nat.zero_mul, Nat.zero_add] at value
  have notZero : c ≠ ascii '0' := by simpa using head
  rw [string2llUnsigned, if_pos ⟨all c List.mem_cons_self, notZero⟩,
    string2llDigits_eq (fun d inside => all d (List.mem_cons_of_mem _ inside)) (by omega), value]

theorem string2ll_decimal {n : Nat} (fits : n < 2 ^ 63) : string2ll (decimal n) = some (n : Int) := by
  by_cases zero : n = 0
  · subst zero
    decide
  · have minus : (decimal n).head? ≠ some (ascii '-') := by
      intro head
      exact not_mem_decimal (by decide) n (List.mem_of_head? head)
    have notZero : decimal n ≠ [ascii '0'] := by
      intro same
      have head := decimal_head_ne_zero (by omega : 0 < n)
      rw [same] at head
      exact head rfl
    rw [string2ll, if_neg notZero, if_neg minus, string2llUnsigned_decimal (by omega) (by omega),
      Option.bind_some, if_neg (by omega)]

/-- A text in which a line end is found where it was put. -/
def Plain (text : Bytes) : Prop :=
  cr ∉ text ∧ 0 ∉ text

theorem takeWhile_plain {text : Bytes} (plain : Plain text) (more : Bytes) :
    (text ++ more).takeWhile (fun c => decide (c ≠ 0)) =
      text ++ more.takeWhile (fun c => decide (c ≠ 0)) := by
  rw [List.takeWhile_append_of_pos fun c inside => ?_]
  simpa using fun zero : c = 0 => plain.2 (zero ▸ inside)

theorem idxOf?_line {text : Bytes} (none_ : cr ∉ text) (more : Bytes) :
    (text ++ cr :: more).idxOf? cr = some text.length := by
  induction text with
  | nil => simp [List.idxOf?_cons]
  | cons c text ih =>
      have notHere : (c == cr) = false := by simpa using fun same : c = cr => none_ (by simp [same])
      have later := ih fun inside => none_ (List.mem_cons_of_mem _ inside)
      rw [List.cons_append, List.idxOf?_cons, notHere, later]
      rfl

theorem strchr_line {text : Bytes} (plain : Plain text) (more : Bytes) :
    strchr (text ++ cr :: more) cr = some text.length := by
  have notZero : decide (cr ≠ 0) = true := by decide
  rw [strchr, takeWhile_plain plain, List.takeWhile_cons, if_pos notZero, idxOf?_line plain.1]

theorem strchr_none {v : Bytes} (none_ : cr ∉ v) : strchr v cr = none := by
  rw [strchr, List.idxOf?_eq_none_iff]
  exact fun inside => none_ ((List.takeWhile_prefix _).subset inside)

/-- The line that a count or a length stands in. -/
def header (byte : UInt8) (n : Nat) : Bytes :=
  byte :: decimal n

theorem header_plain {byte : UInt8} (notEnd : byte ≠ cr) (notZero : byte ≠ 0) (n : Nat) :
    Plain (header byte n) := by
  have noEnd : cr ∉ decimal n := not_mem_decimal (by decide) n
  have noZero : (0 : UInt8) ∉ decimal n := not_mem_decimal (by decide) n
  simp [Plain, header, noEnd, noZero, notEnd.symm, notZero.symm]

/-- A line is there, or its end is not: then no search for one gets past it. -/
theorem line_cases {line v f tail : Bytes} (plain : Plain line)
    (whole : v ++ f = line ++ (crlf ++ tail)) :
    (∃ v', v = line ++ (crlf ++ v') ∧ v' ++ f = tail) ∨
      v.length < line.length + 2 ∧
        (strchr v cr = none ∨ ∃ n, strchr v cr = some n ∧ v.length < n + 2) := by
  rw [← List.append_assoc] at whole
  rcases List.append_eq_append_iff.mp whole with ⟨a, lineEnd, _⟩ | ⟨v', split, rest⟩
  · by_cases all : a = []
    · subst all
      rw [List.append_nil] at lineEnd
      refine Or.inl ⟨[], ?_, ?_⟩
      · simp [← lineEnd]
      · simp_all
    · have short : v.length < line.length + 2 := by
        have lengths := congrArg List.length lineEnd
        have some_ : 0 < a.length := List.length_pos_iff.mpr all
        simp [crlf] at lengths
        omega
      refine Or.inr ⟨short, ?_⟩
      have isPrefix : v <+: line ++ crlf := ⟨a, lineEnd.symm⟩
      -- what is there of the line has no end in it, or ends in its first byte
      by_cases inside : v.length ≤ line.length
      · have part := List.prefix_of_prefix_length_le isPrefix (List.prefix_append line crlf) inside
        exact Or.inl (strchr_none fun found => plain.1 (part.subset found))
      · obtain ⟨more, rfl⟩ := List.prefix_of_prefix_length_le (List.prefix_append line crlf) isPrefix
          (by omega)
        rw [List.length_append] at short inside
        obtain ⟨c, rfl⟩ := List.length_eq_one_iff.mp (by omega : more.length = 1)
        rw [List.append_assoc, List.append_cancel_left_eq] at lineEnd
        have last : cr = c := (List.cons.inj lineEnd).1
        rw [← last]
        exact Or.inr ⟨line.length, strchr_line plain [], by simp⟩
  · exact Or.inl ⟨v', by rw [split, List.append_assoc], rest.symm⟩

/-! ## The arguments of a command -/

namespace RedisClient

variable {σ : Type}

/-- The length of an argument, where it is in the buffer. -/
theorem readBulklen_outcome {c : RedisClient σ} {pos n : Nat} {f tail : Bytes}
    (unknown : c.bulklen = none) (small : c.querybuf.length ≤ inlineMaxSize)
    (fits : n ≤ 512 * 1024 * 1024)
    (whole : c.querybuf.drop pos ++ f = header (ascii '$') n ++ (crlf ++ tail)) :
    (c.readBulklen pos = (.stop, c, pos) ∧
        (c.querybuf.drop pos).length < (header (ascii '$') n).length + 2) ∨
      ∃ querybuf pos', c.readBulklen pos = (.go, { c with querybuf, bulklen := some n }, pos') ∧
        querybuf.drop pos' ++ f = tail ∧ querybuf.length ≤ c.querybuf.length := by
  have plain : Plain (header (ascii '$') n) := header_plain (by decide) (by decide) n
  rw [readBulklen, if_neg (by simp [unknown])]
  rcases line_cases plain whole with ⟨v', split, rest⟩ | ⟨short, search⟩
  · right
    have there : (header (ascii '$') n).length + 2 ≤ c.querybuf.length - pos := by
      rw [← List.length_drop, split]
      simp [crlf]
    have number : (c.querybuf.drop (pos + 1)).take ((header (ascii '$') n).length - 1) = decimal n := by
      rw [← List.drop_drop, split]
      simp [header]
    have past : c.querybuf.drop (pos + ((header (ascii '$') n).length + 2)) = v' := by
      rw [← List.drop_drop, split, ← List.append_assoc, ← line_length, List.drop_left]
    have first : (c.querybuf.drop pos).head? = some (ascii '$') := by
      rw [split]
      rfl
    have found : strchr (c.querybuf.drop pos) cr = some (header (ascii '$') n).length := by
      rw [split]
      exact strchr_line plain (lf :: v')
    rw [found]
    dsimp only
    rw [if_neg (by omega), if_neg (by simp [first]), number, string2ll_decimal (by omega)]
    dsimp only
    rw [if_neg (by omega), Int.toNat_natCast, past]
    split
    · refine ⟨v', 0, rfl, rest, ?_⟩
      rw [← past, List.length_drop]
      omega
    · exact ⟨c.querybuf, _, rfl, by rw [past]; exact rest, le_rfl⟩
  · left
    rcases search with none_ | ⟨newline, found, early⟩
    · rw [none_]
      dsimp only
      rw [if_neg (by omega)]
      exact ⟨rfl, short⟩
    · rw [found]
      dsimp only
      rw [List.length_drop] at early
      rw [if_pos (by omega)]
      exact ⟨rfl, short⟩

/-- The buffer is below the limit, or it is all of one large argument. -/
def Bounded (c : RedisClient σ) (pos : Nat) : Prop :=
  c.querybuf.length ≤ inlineMaxSize ∨
    pos = 0 ∧ ∃ n, c.bulklen = some n ∧ mbulkBigArg ≤ n ∧ c.querybuf.length ≤ n + 2

/-- An argument that is complete. -/
theorem takeBulk_eq {c : RedisClient σ} {pos : Nat} {arg f tail : Bytes}
    (bulklen : c.bulklen = some arg.length) (bounded : c.Bounded pos)
    (there : arg.length + 2 ≤ c.querybuf.length - pos)
    (whole : c.querybuf.drop pos ++ f = arg ++ (crlf ++ tail)) :
    ∃ querybuf pos', c.takeBulk pos arg.length =
        ({ c with
          argv := c.argv ++ [arg], querybuf, bulklen := none
          multibulklen := c.multibulklen - 1 }, pos') ∧
      querybuf.drop pos' ++ f = tail ∧ querybuf.length ≤ inlineMaxSize := by
  obtain ⟨v', split, rest⟩ : ∃ v', c.querybuf.drop pos = arg ++ (crlf ++ v') ∧ v' ++ f = tail := by
    rw [← List.append_assoc] at whole
    rcases List.append_eq_append_iff.mp whole with ⟨a, lineEnd, after⟩ | ⟨v', split, rest⟩
    · have lengths := congrArg List.length lineEnd
      rw [line_length, List.length_append, List.length_drop] at lengths
      obtain rfl : a = [] := List.length_eq_zero_iff.mp (by omega)
      rw [List.append_nil] at lineEnd
      exact ⟨[], by simp [← lineEnd], after⟩
    · exact ⟨v', by rw [split, List.append_assoc], rest.symm⟩
  have taken : (c.querybuf.drop pos).take arg.length = arg := by rw [split, List.take_left]
  rw [takeBulk]
  split
  · rename_i fast
    obtain ⟨rfl, -, just⟩ := fast
    rw [List.drop_zero] at taken split
    have nothing : v' = [] := by
      have lengths := congrArg List.length split
      simp [crlf] at lengths
      exact List.length_eq_zero_iff.mp (by omega)
    refine ⟨[], 0, by rw [taken], ?_, Nat.zero_le _⟩
    rw [← rest, nothing]
    rfl
  · rename_i slow
    refine ⟨c.querybuf, _, by rw [taken], ?_, ?_⟩
    · rw [← List.drop_drop, split, ← List.append_assoc, ← line_length, List.drop_left]
      exact rest
    · rcases bounded with small | ⟨rfl, n, same, large, short⟩
      · exact small
      · cases bulklen.symm.trans same
        exact absurd ⟨rfl, large, by omega⟩ slow

/-- Inside a command: `rest` are the arguments that were not read. -/
structure Reading (s : σ) (out : Bytes) (cmd rest : List Bytes) (c : RedisClient σ) : Prop where
  session : c.session = s
  reply : c.reply = out
  noError : c.closeAfterReply = false
  unblocked : c.blocked = false
  kept : c.freed = false
  reqtype : c.reqtype = some .multibulk
  args : cmd = c.argv ++ rest
  left : c.multibulklen = rest.length
  bulklen : ∀ n ∈ c.bulklen, ∃ arg ∈ rest.head?, n = arg.length

/-- The bytes of the arguments that were not read, without a length that was. -/
def owed (c : RedisClient σ) : List Bytes → Bytes
  | [] => []
  | arg :: rest =>
      (if c.bulklen.isSome then arg ++ crlf else bulk arg) ++ (rest.map bulk).flatten

theorem owed_unknown {c : RedisClient σ} (unknown : c.bulklen = none) (rest : List Bytes) :
    c.owed rest = (rest.map bulk).flatten := by
  cases rest with
  | nil => rfl
  | cons arg rest => simp [owed, unknown]

theorem bulk_eq (arg : Bytes) :
    bulk arg = header (ascii '$') arg.length ++ (crlf ++ (arg ++ crlf)) := by
  simp [bulk, header]

/-- How the loop over the arguments ends: after the last, or where one is incomplete. -/
inductive BulksOutcome (s : σ) (out : Bytes) (cmd : List Bytes) (f tail : Bytes) :
    Flow × RedisClient σ × Nat → Prop
  | done {c : RedisClient σ} {pos : Nat} (reading : Reading s out cmd [] c)
      (known : c.bulklen = none) (whole : c.querybuf.drop pos ++ f = tail)
      (small : c.querybuf.length ≤ inlineMaxSize) : BulksOutcome s out cmd f tail (.go, c, pos)
  | waits {c : RedisClient σ} {pos : Nat} (rest : List Bytes) (reading : Reading s out cmd rest c)
      (some_ : rest ≠ []) (whole : c.querybuf.drop pos ++ f = c.owed rest ++ tail)
      (short : (c.querybuf.drop pos).length < (c.owed rest).length)
      (bound : (c.querybuf.drop pos).length < c.bulklen.getD 16 + 2) :
      BulksOutcome s out cmd f tail (.stop, c, pos)

/-- No more than nine digits. -/
theorem length_header_le {n : Nat} (fits : n ≤ 512 * 1024 * 1024) (byte : UInt8) :
    (header byte n).length ≤ 10 := by
  have digits : (Nat.toDigits 10 n).length ≤ 9 :=
    (Nat.length_toDigits_le_iff (by norm_num) (by norm_num)).mpr (by omega)
  rw [header, List.length_cons, decimal, List.length_map]
  omega

theorem Reading.next {s : σ} {out : Bytes} {cmd rest : List Bytes} {arg : Bytes}
    {c : RedisClient σ} (reading : Reading s out cmd (arg :: rest) c) (querybuf : Bytes) :
    Reading s out cmd rest { c with
      argv := c.argv ++ [arg], querybuf, bulklen := none, multibulklen := c.multibulklen - 1 } :=
  { reading with
    args := by simp [reading.args]
    left := by simp [reading.left]
    bulklen := by simp }

theorem Reading.argv_eq {s : σ} {out : Bytes} {cmd : List Bytes} {c : RedisClient σ}
    (reading : Reading s out cmd [] c) : c.argv = cmd := by
  rw [reading.args, List.append_nil]

/-- Once the length of an argument is read, it is as if it had been known. -/
theorem readBulks_go {left : Nat} {c c' : RedisClient σ} {pos pos' : Nat}
    (go : c.readBulklen pos = (.go, c', pos')) (known : c'.bulklen.isSome = true) :
    readBulks (left + 1) c pos = readBulks (left + 1) c' pos' := by
  have again : c'.readBulklen pos' = (.go, c', pos') := by
    rw [readBulklen, if_pos known]
  rw [readBulks, go, readBulks, again]

theorem readBulks_outcome {s : σ} {out f tail : Bytes} {cmd rest : List Bytes}
    (sizes : ∀ arg ∈ rest, arg.length ≤ 512 * 1024 * 1024) {c : RedisClient σ} {pos : Nat}
    (reading : Reading s out cmd rest c) (bounded : c.Bounded pos)
    (whole : c.querybuf.drop pos ++ f = c.owed rest ++ tail) :
    BulksOutcome s out cmd f tail (readBulks rest.length c pos) := by
  induction rest generalizing c pos with
  | nil =>
      have known : c.bulklen = none := by
        rw [Option.eq_none_iff_forall_ne_some]
        intro n is
        obtain ⟨arg, inside, -⟩ := reading.bulklen n is
        cases inside
      refine .done reading known whole ?_
      rcases bounded with small | ⟨-, n, is, -⟩
      · exact small
      · rw [known] at is
        cases is
  | cons arg rest ih =>
      have fits := sizes arg List.mem_cons_self
      have later := fun arg inside => sizes arg (List.mem_cons_of_mem _ inside)
      -- the argument, once its length is known
      have known : ∀ {c : RedisClient σ} {pos : Nat}, Reading s out cmd (arg :: rest) c →
          c.bulklen = some arg.length → c.Bounded pos →
          c.querybuf.drop pos ++ f = arg ++ (crlf ++ ((rest.map bulk).flatten ++ tail)) →
          BulksOutcome s out cmd f tail (readBulks (rest.length + 1) c pos) := by
        intro c pos reading bulklen bounded whole
        rw [readBulks, readBulklen, if_pos (by simp [bulklen])]
        dsimp only
        have owes : c.owed (arg :: rest) = arg ++ crlf ++ (rest.map bulk).flatten := by
          rw [owed, bulklen, Option.isSome_some, if_pos rfl]
        rw [readBulk, bulklen]
        dsimp only
        by_cases short : c.querybuf.length - pos < arg.length + 2
        · rw [if_pos short]
          refine .waits (arg :: rest) reading (by simp) ?_ ?_ ?_
          · rw [whole, owes]
            simp
          · rw [owes, List.length_append, line_length, List.length_drop]
            omega
          · rw [bulklen, Option.getD_some, List.length_drop]
            omega
        · rw [if_neg short]
          obtain ⟨querybuf, pos', taken, rest_, small⟩ := takeBulk_eq bulklen bounded (by omega) whole
          rw [taken]
          refine ih later (reading.next querybuf) (Or.inl small) ?_
          rw [rest_, owed_unknown rfl]
      rw [List.length_cons]
      cases bulklen : c.bulklen with
      | some n =>
          obtain ⟨_, ⟨rfl⟩, rfl⟩ := reading.bulklen n bulklen
          refine known reading bulklen bounded ?_
          rw [whole, owed, bulklen]
          simp
      | none =>
          have small : c.querybuf.length ≤ inlineMaxSize := by
            rcases bounded with small | ⟨-, n, is, -⟩
            · exact small
            · rw [bulklen] at is
              cases is
          have owes : c.owed (arg :: rest) = header (ascii '$') arg.length ++
              (crlf ++ (arg ++ (crlf ++ (rest.map bulk).flatten))) := by
            rw [owed, bulklen, bulk_eq]
            simp
          have whole' : c.querybuf.drop pos ++ f = header (ascii '$') arg.length ++
              (crlf ++ (arg ++ (crlf ++ ((rest.map bulk).flatten ++ tail)))) := by
            rw [whole, owes]
            simp
          rcases readBulklen_outcome bulklen small fits whole' with ⟨stop, short⟩ |
            ⟨querybuf, pos', go, rest_, fewer⟩
          · rw [readBulks, stop]
            refine .waits (arg :: rest) reading (by simp) whole ?_ ?_
            · rw [owes, List.length_append, List.length_append, List.length_append]
              simp only [crlf, List.length_cons, List.length_nil]
              omega
            · have := length_header_le fits (ascii '$')
              rw [bulklen, Option.getD_none]
              omega
          · rw [readBulks_go go rfl]
            exact known { reading with bulklen := by simp } rfl (Or.inl (by dsimp only; omega)) rest_

/-! ## One command -/

/-- A command the server takes: at least one argument, and not too many or too long. -/
structure Acceptable (cmd : List Bytes) : Prop where
  some_ : cmd ≠ []
  count : cmd.length ≤ 1024 * 1024
  sizes : ∀ arg ∈ cmd, arg.length ≤ 512 * 1024 * 1024

theorem multibulk_eq {cmd : List Bytes} (count : cmd.length ≤ 1024 * 1024) :
    multibulk cmd = header (ascii '*') cmd.length ++ (crlf ++ (cmd.map bulk).flatten) := by
  rw [multibulk, signedDecimal_ofNat (by omega), header]
  simp

/-- Between two commands. -/
structure Idle (s : σ) (out : Bytes) (c : RedisClient σ) : Prop where
  session : c.session = s
  reply : c.reply = out
  noError : c.closeAfterReply = false
  unblocked : c.blocked = false
  kept : c.freed = false
  reqtype : c.reqtype = none ∨ c.reqtype = some .multibulk
  argv : c.argv = []
  left : c.multibulklen = 0
  bulklen : c.bulklen = none

/-- The commands `cmds` are to come, in what is in the buffer and in `f`, and the first
of them is not complete. -/
inductive Waiting (s : σ) (out : Bytes) : List (List Bytes) → Bytes → RedisClient σ → Prop
  | idle {cmds : List (List Bytes)} {f : Bytes} {c : RedisClient σ} (idle : Idle s out c)
      (whole : c.querybuf ++ f = (cmds.map multibulk).flatten)
      (short : ∀ next ∈ cmds.head?, c.querybuf.length < (multibulk next).length)
      (bound : c.querybuf.length < 18) : Waiting s out cmds f c
  | reading {cmd rest : List Bytes} {cmds : List (List Bytes)} {f : Bytes} {c : RedisClient σ}
      (reading : Reading s out cmd rest c) (some_ : rest ≠ [])
      (whole : c.querybuf ++ f = c.owed rest ++ (cmds.map multibulk).flatten)
      (short : c.querybuf.length < (c.owed rest).length)
      (bound : c.querybuf.length < c.bulklen.getD 16 + 2) : Waiting s out (cmd :: cmds) f c

/-- What a call on the first command comes to. -/
inductive CommandOutcome (s : σ) (out : Bytes) (cmd : List Bytes) (cmds : List (List Bytes))
    (f : Bytes) : Bool × RedisClient σ → Prop
  | done {c : RedisClient σ} (reading : Reading s out cmd [] c)
      (whole : c.querybuf ++ f = (cmds.map multibulk).flatten)
      (small : c.querybuf.length ≤ inlineMaxSize) : CommandOutcome s out cmd cmds f (true, c)
  | waits {c : RedisClient σ} (waiting : Waiting s out (cmd :: cmds) f c) :
      CommandOutcome s out cmd cmds f (false, c)

theorem Reading.trim {s : σ} {out : Bytes} {cmd rest : List Bytes} {c : RedisClient σ}
    (reading : Reading s out cmd rest c) (querybuf : Bytes) :
    Reading s out cmd rest { c with querybuf } :=
  { reading with }

/-- The arguments after the count. -/
theorem readBulks_command {s : σ} {out f : Bytes} {cmd rest : List Bytes} {cmds : List (List Bytes)}
    (acceptable : Acceptable cmd) {c : RedisClient σ} {pos : Nat} (reading : Reading s out cmd rest c)
    (bounded : c.Bounded pos)
    (whole : c.querybuf.drop pos ++ f = c.owed rest ++ (cmds.map multibulk).flatten) :
    CommandOutcome s out cmd cmds f (match readBulks c.multibulklen c pos with
      | (.fail, c, _) => (false, c)
      | (_, c, pos) =>
          (decide (c.multibulklen = 0), { c with querybuf := c.querybuf.drop pos })) := by
  have sizes : ∀ arg ∈ rest, arg.length ≤ 512 * 1024 * 1024 := by
    intro arg inside
    refine acceptable.sizes arg ?_
    rw [reading.args]
    exact List.mem_append_right _ inside
  have outcome := readBulks_outcome sizes reading bounded whole
  rw [reading.left]
  generalize readBulks rest.length c pos = out' at outcome
  cases outcome with
  | @done c pos reading known whole small =>
      have complete : decide (c.multibulklen = 0) = true := decide_eq_true reading.left
      dsimp only
      rw [complete]
      refine .done (reading.trim (c.querybuf.drop pos)) whole ?_
      rw [List.length_drop]
      omega
  | @waits c pos rest reading some_ whole short bound =>
      have incomplete : decide (c.multibulklen = 0) = false := by
        rw [reading.left]
        simpa using some_
      dsimp only
      rw [incomplete]
      exact .waits (.reading (reading.trim (c.querybuf.drop pos)) some_ whole short bound)

theorem processBuffer_reading {s : σ} {out f : Bytes} {cmd rest : List Bytes}
    {cmds : List (List Bytes)} (acceptable : Acceptable cmd) {c : RedisClient σ}
    (reading : Reading s out cmd rest c) (some_ : rest ≠ []) (bounded : c.Bounded 0)
    (whole : c.querybuf ++ f = c.owed rest ++ (cmds.map multibulk).flatten) :
    CommandOutcome s out cmd cmds f c.processBuffer := by
  have left : c.multibulklen ≠ 0 := by
    rw [reading.left]
    simpa using some_
  have same : { c with reqtype := some .multibulk } = c := by
    rw [← reading.reqtype]
  simp only [processBuffer, reading.reqtype, Option.getD_some]
  rw [same, processMultibulkBuffer, readMultibulklen, if_pos left]
  exact readBulks_command acceptable reading bounded whole

/-- The count of a command, where it is in the buffer. -/
theorem readMultibulklen_outcome {c : RedisClient σ} {n : Nat} {f tail : Bytes}
    (left : c.multibulklen = 0) (small : c.querybuf.length ≤ inlineMaxSize) (positive : 0 < n)
    (count : n ≤ 1024 * 1024) (whole : c.querybuf ++ f = header (ascii '*') n ++ (crlf ++ tail)) :
    (c.readMultibulklen = (.fail, c, 0) ∧ c.querybuf.length < (header (ascii '*') n).length + 2) ∨
      ∃ pos, c.readMultibulklen = (.go, { c with multibulklen := n }, pos) ∧
        c.querybuf.drop pos ++ f = tail := by
  have plain : Plain (header (ascii '*') n) := header_plain (by decide) (by decide) n
  rw [readMultibulklen, if_neg (by simp [left])]
  rcases line_cases plain whole with ⟨v', split, rest⟩ | ⟨short, search⟩
  · right
    have there : (header (ascii '*') n).length + 2 ≤ c.querybuf.length := by
      rw [split]
      simp [crlf]
    have number : (c.querybuf.drop 1).take ((header (ascii '*') n).length - 1) = decimal n := by
      rw [split]
      simp [header]
    have past : c.querybuf.drop ((header (ascii '*') n).length + 2) = v' := by
      rw [split, ← List.append_assoc, ← line_length, List.drop_left]
    have found : strchr c.querybuf cr = some (header (ascii '*') n).length := by
      rw [split]
      exact strchr_line plain (lf :: v')
    rw [found]
    dsimp only
    rw [if_neg (by omega), number, string2ll_decimal (by omega)]
    dsimp only
    rw [if_neg (by omega), if_neg (by omega), Int.toNat_natCast]
    exact ⟨_, rfl, by rw [past]; exact rest⟩
  · left
    rcases search with none_ | ⟨newline, found, early⟩
    · rw [none_]
      dsimp only
      rw [if_neg (by omega)]
      exact ⟨rfl, short⟩
    · rw [found]
      dsimp only
      rw [if_pos early]
      exact ⟨rfl, short⟩

theorem processBuffer_idle {s : σ} {out f : Bytes} {cmd : List Bytes}
    {cmds : List (List Bytes)} (acceptable : Acceptable cmd) {c : RedisClient σ}
    (idle : Idle s out c) (some_ : c.querybuf ≠ []) (small : c.querybuf.length ≤ inlineMaxSize)
    (whole : c.querybuf ++ f = multibulk cmd ++ (cmds.map multibulk).flatten) :
    CommandOutcome s out cmd cmds f c.processBuffer := by
  have positive : 0 < cmd.length := List.length_pos_iff.mpr acceptable.some_
  have first : c.querybuf.head? = some (ascii '*') := by
    obtain ⟨byte, querybuf, split⟩ := List.exists_cons_of_ne_nil some_
    rw [split] at whole ⊢
    exact congrArg some (List.cons.inj whole).1
  have reqtype : c.reqtype.getD
      (if c.querybuf.head? = some (ascii '*') then ReqType.multibulk else .inline) = .multibulk := by
    rcases idle.reqtype with unknown | known
    · rw [unknown, Option.getD_none, if_pos first]
    · rw [known, Option.getD_some]
  obtain ⟨begun, begun_eq⟩ : ∃ begun, begun = { c with reqtype := some ReqType.multibulk } := ⟨_, rfl⟩
  have sameBuf : begun.querybuf = c.querybuf := by rw [begun_eq]
  have whole' : begun.querybuf ++ f = header (ascii '*') cmd.length ++
      (crlf ++ ((cmd.map bulk).flatten ++ (cmds.map multibulk).flatten)) := by
    rw [sameBuf, whole, multibulk_eq acceptable.count]
    simp
  simp only [processBuffer, reqtype]
  rw [← begun_eq, processMultibulkBuffer]
  rcases readMultibulklen_outcome (by rw [begun_eq]; exact idle.left) (by rwa [sameBuf]) positive
    acceptable.count whole' with ⟨fail, short⟩ | ⟨pos, go, rest⟩
  · rw [fail]
    have digits := length_header_le (by have := acceptable.count; omega : cmd.length ≤ 512 * 1024 * 1024)
      (ascii '*')
    refine .waits (.idle ?_ (by rw [sameBuf, whole]; rfl) ?_ (by omega))
    · rw [begun_eq]
      exact { idle with reqtype := Or.inr rfl }
    · rintro _ ⟨rfl⟩
      rw [multibulk_eq acceptable.count, List.length_append, List.length_append]
      simp only [crlf, List.length_cons, List.length_nil]
      omega
  · rw [go]
    have reading : Reading s out cmd cmd { begun with multibulklen := cmd.length } := by
      rw [begun_eq]
      exact { idle with
        reqtype := rfl
        args := by simp [idle.argv]
        left := rfl
        bulklen := by simp [idle.bulklen] }
    have unknown : ({ begun with multibulklen := cmd.length } : RedisClient σ).bulklen = none := by
      rw [begun_eq]
      exact idle.bulklen
    refine readBulks_command acceptable reading (Or.inl (by rw [← sameBuf] at small; exact small)) ?_
    rw [owed_unknown unknown]
    exact rest

/-! ## The commands of a stream -/

variable (execute : σ → List Bytes → Option RedisReply × σ)

/-- What a command is answered, and the state behind it. -/
def serve (s : σ) (cmd : List Bytes) : Option RedisReply × σ :=
  if isQuit cmd then (some (.status (text "OK")), s) else execute s cmd

/-- Behind this command no other is executed. -/
def Stops (s : σ) (cmd : List Bytes) : Prop :=
  isQuit cmd = true ∨ (execute s cmd).1 = none

instance (s : σ) (cmd : List Bytes) : Decidable (Stops execute s cmd) :=
  inferInstanceAs (Decidable (isQuit cmd = true ∨ (execute s cmd).1 = none))

/-- The commands of a list that are executed: up to the first that stops the others. -/
def executed : σ → List (List Bytes) → List (List Bytes)
  | _, [] => []
  | s, cmd :: cmds =>
      cmd :: if Stops execute s cmd then [] else executed (serve execute s cmd).2 cmds

/-- None of the commands stops the others. -/
def Goes : σ → List (List Bytes) → Prop
  | _, [] => True
  | s, cmd :: cmds => ¬ Stops execute s cmd ∧ Goes (serve execute s cmd).2 cmds

/-- What the server writes for some commands. -/
def written (s : σ) (cmds : List (List Bytes)) : Bytes :=
  ((Pipeline.answers (serve execute) s cmds).map fun answer =>
    (answer.2.map encode).getD []).flatten

section Stopping

variable {execute} {s : σ} {cmd : List Bytes} {cmds more : List (List Bytes)}

theorem written_append : written execute s (cmds ++ more) =
    written execute s cmds ++ written execute (Pipeline.after (serve execute) s cmds) more := by
  simp [written, Pipeline.answers_append]

theorem Goes.append (goes : Goes execute s cmds)
    (later : Goes execute (Pipeline.after (serve execute) s cmds) more) :
    Goes execute s (cmds ++ more) := by
  induction cmds generalizing s with
  | nil => exact later
  | cons cmd cmds ih => exact ⟨goes.1, ih goes.2 later⟩

theorem Goes.executed_append (goes : Goes execute s cmds) : executed execute s (cmds ++ more) =
    cmds ++ executed execute (Pipeline.after (serve execute) s cmds) more := by
  induction cmds generalizing s with
  | nil => rfl
  | cons cmd cmds ih =>
      rw [List.cons_append, executed, if_neg goes.1, ih goes.2]
      rfl

theorem Goes.executed_eq (goes : Goes execute s cmds) : executed execute s cmds = cmds := by
  have all : executed execute s (cmds ++ []) = cmds ++ [] := goes.executed_append
  rwa [List.append_nil] at all

theorem Goes.executed_stops (goes : Goes execute s cmds)
    (stops : Stops execute (Pipeline.after (serve execute) s cmds) cmd) :
    executed execute s (cmds ++ cmd :: more) = cmds ++ [cmd] := by
  rw [goes.executed_append, executed, if_pos stops]

theorem Goes.not_stops (goes : Goes execute s (cmds ++ cmd :: more)) :
    ¬ Stops execute (Pipeline.after (serve execute) s cmds) cmd := by
  induction cmds generalizing s with
  | nil => exact goes.1
  | cons first cmds ih => exact ih goes.2

end Stopping

/-- The commands `cmds` are to come, and the buffer is not too long. -/
inductive Pending (s : σ) (out : Bytes) : List (List Bytes) → Bytes → RedisClient σ → Prop
  | idle {cmds : List (List Bytes)} {f : Bytes} {c : RedisClient σ} (idle : Idle s out c)
      (whole : c.querybuf ++ f = (cmds.map multibulk).flatten)
      (small : c.querybuf.length ≤ inlineMaxSize) : Pending s out cmds f c
  | reading {cmd rest : List Bytes} {cmds : List (List Bytes)} {f : Bytes} {c : RedisClient σ}
      (reading : Reading s out cmd rest c) (some_ : rest ≠ [])
      (whole : c.querybuf ++ f = c.owed rest ++ (cmds.map multibulk).flatten)
      (bounded : c.Bounded 0) : Pending s out (cmd :: cmds) f c

theorem owed_pos {c : RedisClient σ} {rest : List Bytes} (some_ : rest ≠ []) :
    0 < (c.owed rest).length := by
  obtain ⟨arg, rest, rfl⟩ := List.exists_cons_of_ne_nil some_
  rw [owed, List.length_append]
  split
  · rw [line_length]
    omega
  · rw [bulk, List.length_cons]
    omega

/-- There is nothing to do on an empty buffer. -/
theorem Pending.waiting {s : σ} {out f : Bytes} {cmds : List (List Bytes)} {c : RedisClient σ}
    (pending : Pending s out cmds f c) (empty : c.querybuf = []) : Waiting s out cmds f c := by
  have zero : c.querybuf.length = 0 := List.length_eq_zero_iff.mpr empty
  cases pending with
  | idle idle whole small =>
      refine .idle idle whole ?_ (by omega)
      intro next _
      rw [zero, multibulk, List.length_cons]
      omega
  | reading reading some_ whole bounded =>
      refine .reading reading some_ whole ?_ (by omega)
      rw [zero]
      exact owed_pos some_

/-- The first command, with less of the buffer left than there was. -/
theorem Pending.processBuffer {s : σ} {out f : Bytes} {cmds : List (List Bytes)}
    (acceptable : ∀ cmd ∈ cmds, Acceptable cmd) {c : RedisClient σ}
    (pending : Pending s out cmds f c) (some_ : c.querybuf ≠ []) :
    (c.blocked = false ∧ c.closeAfterReply = false) ∧ ∃ cmd later, cmds = cmd :: later ∧
      CommandOutcome s out cmd later f c.processBuffer ∧
      (later.map multibulk).flatten.length < c.querybuf.length + f.length := by
  cases pending with
  | idle idle whole small =>
      have lengths := congrArg List.length whole
      rw [List.length_append] at lengths
      cases cmds with
      | nil =>
          have := List.length_pos_iff.mpr some_
          simp only [List.map_nil, List.flatten_nil, List.length_nil] at lengths
          omega
      | cons cmd later =>
          have outcome := processBuffer_idle (acceptable cmd List.mem_cons_self) idle some_ small whole
          refine ⟨⟨idle.unblocked, idle.noError⟩, cmd, later, rfl, outcome, ?_⟩
          rw [lengths, List.map_cons, List.flatten_cons, List.length_append, multibulk,
            List.length_cons]
          omega
  | @reading cmd rest later _ _ reading restSome whole bounded =>
      have outcome := processBuffer_reading (acceptable cmd List.mem_cons_self) reading restSome
        bounded whole
      refine ⟨⟨reading.unblocked, reading.noError⟩, cmd, later, rfl, outcome, ?_⟩
      have lengths := congrArg List.length whole
      rw [List.length_append, List.length_append] at lengths
      have := owed_pos (c := c) restSome
      omega

/-- A command that is complete and does not stop: it is executed, and the next one begins. -/
theorem Reading.run {execute : σ → List Bytes → Option RedisReply × σ} {s : σ} {out f : Bytes}
    {cmd : List Bytes} {later : List (List Bytes)} {c : RedisClient σ}
    (reading : Reading s out cmd [] c) (goes : ¬ Stops execute s cmd)
    (whole : c.querybuf ++ f = (later.map multibulk).flatten)
    (small : c.querybuf.length ≤ inlineMaxSize) :
    (c.runCommand execute).querybuf = c.querybuf ∧
      Pending (serve execute s cmd).2 (out ++ written execute s [cmd]) later f
        (c.runCommand execute) := by
  rw [Stops, not_or] at goes
  obtain ⟨notQuit, answered⟩ := goes
  obtain ⟨reply, is⟩ := Option.ne_none_iff_exists'.mp answered
  have run : execute c.session c.argv = (some reply, (execute s cmd).2) := by
    rw [reading.session, reading.argv_eq, ← is]
  have serves : serve execute s cmd = (some reply, (execute s cmd).2) := by
    rw [serve, if_neg notQuit, ← is]
  rw [runCommand, processCommand, if_neg (by rwa [reading.argv_eq]), run]
  refine ⟨rfl, .idle ⟨?_, ?_, reading.noError, reading.unblocked, reading.kept, Or.inl rfl, rfl,
    rfl, rfl⟩ whole small⟩
  · rw [serves]
    rfl
  · simp [written, Pipeline.answers, serves, resetClient, addReply, reading.reply]

/-- Nothing more is executed: the client is blocked, or its connection is to be closed. -/
structure Stopped (s : σ) (out : Bytes) (c : RedisClient σ) : Prop where
  session : c.session = s
  reply : c.reply = out
  flag : c.blocked = true ∨ c.closeAfterReply = true

theorem Stopped.processInputBufferFor {s : σ} {out : Bytes} {c : RedisClient σ}
    (stopped : Stopped s out c) (fuel : Nat) :
    RedisClient.processInputBufferFor execute fuel c = c := by
  cases fuel with
  | zero => rfl
  | succ fuel =>
      rw [RedisClient.processInputBufferFor]
      split
      · rfl
      · split
        · rfl
        · rename_i unblocked
          rw [if_pos (stopped.flag.resolve_left unblocked)]

/-- A command that is complete and stops. -/
theorem Reading.stop {execute : σ → List Bytes → Option RedisReply × σ} {s : σ} {out : Bytes}
    {cmd : List Bytes} {c : RedisClient σ} (reading : Reading s out cmd [] c)
    (stops : Stops execute s cmd) :
    (c.runCommand execute).querybuf = c.querybuf ∧
      Stopped (serve execute s cmd).2 (out ++ written execute s [cmd]) (c.runCommand execute) := by
  by_cases quit : isQuit cmd = true
  · rw [runCommand, processCommand, if_pos (by rwa [reading.argv_eq])]
    refine ⟨rfl, ?_, ?_, Or.inr rfl⟩
    · simp [addReply, serve, quit, reading.session]
    · simp [addReply, written, Pipeline.answers, serve, quit, reading.reply]
  · have silent : (execute s cmd).1 = none := stops.resolve_left quit
    have run : execute c.session c.argv = (none, (execute s cmd).2) := by
      rw [reading.session, reading.argv_eq, ← silent]
    rw [runCommand, processCommand, if_neg (by rwa [reading.argv_eq]), run]
    refine ⟨rfl, ?_, ?_, Or.inl rfl⟩
    · simp [resetClient, serve, quit]
    · simp [resetClient, written, Pipeline.answers, serve, quit, silent, reading.reply]

/-- How far the commands `cmds` are: some are executed, and the next one is not complete or
will not be executed. -/
inductive Served (s : σ) (out : Bytes) (cmds : List (List Bytes)) (f : Bytes) :
    RedisClient σ → Prop
  | waits {c : RedisClient σ} (done left : List (List Bytes)) (split : cmds = done ++ left)
      (goes : Goes execute s done)
      (waiting : Waiting (Pipeline.after (serve execute) s done) (out ++ written execute s done)
        left f c) : Served s out cmds f c
  | stopped {c : RedisClient σ} (done : List (List Bytes)) (cmd : List Bytes)
      (left : List (List Bytes)) (split : cmds = done ++ cmd :: left) (goes : Goes execute s done)
      (stops : Stops execute (Pipeline.after (serve execute) s done) cmd)
      (whole : c.querybuf ++ f = (left.map multibulk).flatten)
      (stopped : Stopped (Pipeline.after (serve execute) s (done ++ [cmd]))
        (out ++ written execute s (done ++ [cmd])) c) : Served s out cmds f c

/-- Some commands are executed before. -/
theorem Served.after {execute : σ → List Bytes → Option RedisReply × σ} {s : σ} {out f : Bytes}
    {first later : List (List Bytes)} {c : RedisClient σ} (goes : Goes execute s first)
    (served : Served execute (Pipeline.after (serve execute) s first)
      (out ++ written execute s first) later f c) : Served execute s out (first ++ later) f c := by
  cases served with
  | waits done left split goes' waiting =>
      refine .waits (first ++ done) left (by rw [split, List.append_assoc]) (goes.append goes') ?_
      rwa [Pipeline.after_append, written_append, ← List.append_assoc]
  | stopped done cmd left split goes' stops whole stopped =>
      refine .stopped (first ++ done) cmd left (by rw [split, List.append_assoc])
        (goes.append goes') (by rwa [Pipeline.after_append]) whole ?_
      rwa [List.append_assoc, Pipeline.after_append, written_append, ← List.append_assoc]

/-- Nothing is executed. -/
theorem Served.of_waiting {s : σ} {out f : Bytes} {cmds : List (List Bytes)} {c : RedisClient σ}
    (waiting : Waiting s out cmds f c) : Served execute s out cmds f c := by
  refine .waits [] cmds rfl trivial ?_
  simpa [written, Pipeline.answers] using waiting

/-- A call executes the commands that are complete, up to one that stops. -/
theorem processInputBufferFor_served {fuel : Nat} {s : σ} {out f : Bytes} {cmds : List (List Bytes)}
    (acceptable : ∀ cmd ∈ cmds, Acceptable cmd) {c : RedisClient σ} (pending : Pending s out cmds f c)
    (enough : c.querybuf.length ≤ fuel) :
    Served execute s out cmds f (processInputBufferFor execute fuel c) := by
  induction fuel generalizing s out cmds c with
  | zero =>
      have empty : c.querybuf = [] := List.length_eq_zero_iff.mp (by omega)
      exact .of_waiting execute (pending.waiting empty)
  | succ fuel ih =>
      rw [processInputBufferFor]
      split
      · rename_i empty
        exact .of_waiting execute (pending.waiting empty)
      · rename_i some_
        obtain ⟨⟨unblocked, noError⟩, cmd, later, rfl, outcome, fewer⟩ :=
          pending.processBuffer acceptable some_
        rw [if_neg (by simp [unblocked]), if_neg (by simp [noError])]
        generalize c.processBuffer = result at outcome
        cases outcome with
        | @done c' reading whole small =>
            have some_ := (acceptable cmd List.mem_cons_self).some_
            dsimp only
            rw [if_neg (by rwa [reading.argv_eq])]
            by_cases stops : Stops execute s cmd
            · obtain ⟨querybuf, stopped⟩ := reading.stop stops
              rw [stopped.processInputBufferFor execute]
              exact .stopped [] cmd later rfl trivial stops (by rw [querybuf]; exact whole) stopped
            · obtain ⟨querybuf, pending'⟩ := reading.run stops whole small
              have lengths := congrArg List.length whole
              rw [List.length_append] at lengths
              have shorter : (c'.runCommand execute).querybuf.length ≤ fuel := by
                rw [querybuf]
                omega
              have goes : Goes execute s [cmd] := ⟨stops, trivial⟩
              exact .after goes (ih
                (fun cmd inside => acceptable cmd (List.mem_cons_of_mem _ inside)) pending' shorter)
        | waits waiting => exact .of_waiting execute waiting

/-- What was asked for keeps the buffer short enough. -/
theorem Waiting.pending {s : σ} {out bytes f : Bytes} {cmds : List (List Bytes)}
    (acceptable : ∀ cmd ∈ cmds, Acceptable cmd) {c : RedisClient σ}
    (waiting : Waiting s out cmds (bytes ++ f) c) (asked : bytes.length ≤ c.readlen) :
    Pending s out cmds f { c with querybuf := c.querybuf ++ bytes } ∧
      (c.querybuf ++ bytes).length ≤ maxQuerybufLen := by
  have limits : iobufLen = 16384 ∧ inlineMaxSize = 65536 ∧ mbulkBigArg = 32768 ∧
      maxQuerybufLen = 1073741824 := by decide
  cases waiting with
  | idle idle whole short bound =>
      rw [readlen, idle.bulklen] at asked
      dsimp only at asked
      have small : (c.querybuf ++ bytes).length ≤ inlineMaxSize := by
        rw [List.length_append]
        omega
      refine ⟨.idle { idle with } ?_ small, by omega⟩
      rw [List.append_assoc]
      exact whole
  | @reading cmd rest later _ _ reading some_ whole short bound =>
      have cut : ({ c with querybuf := c.querybuf ++ bytes } : RedisClient σ).querybuf ++ f =
          c.owed rest ++ (later.map multibulk).flatten := by
        rw [← whole]
        exact List.append_assoc ..
      have trimmed := reading.trim (c.querybuf ++ bytes)
      obtain known | ⟨n, known⟩ := Option.eq_none_or_eq_some c.bulklen
      · rw [readlen, known] at asked
        rw [known, Option.getD_none] at bound
        dsimp only at asked
        have small : (c.querybuf ++ bytes).length ≤ inlineMaxSize := by
          rw [List.length_append]
          omega
        exact ⟨.reading trimmed some_ cut (Or.inl small), by omega⟩
      · obtain ⟨arg, first, rfl⟩ := reading.bulklen n known
        have fits : arg.length ≤ 512 * 1024 * 1024 := by
          refine (acceptable cmd List.mem_cons_self).sizes arg ?_
          rw [reading.args]
          exact List.mem_append_right _ (List.mem_of_head? first)
        have left : c.multibulklen ≠ 0 := by
          rw [reading.left]
          simpa using some_
        rw [readlen, known] at asked
        rw [known, Option.getD_some] at bound
        dsimp only at asked
        split at asked
        · rename_i large
          have all : (c.querybuf ++ bytes).length ≤ arg.length + 2 := by
            rw [List.length_append]
            omega
          exact ⟨.reading trimmed some_ cut (Or.inr ⟨rfl, _, known, large.2.2, all⟩), by omega⟩
        · rename_i notLarge
          have smallArg : arg.length < mbulkBigArg := by
            by_contra large
            exact notLarge ⟨reading.reqtype, left, not_lt.mp large⟩
          have small : (c.querybuf ++ bytes).length ≤ inlineMaxSize := by
            rw [List.length_append]
            omega
          exact ⟨.reading trimmed some_ cut (Or.inl small), by omega⟩

/-- A read: the commands that became complete are executed. -/
theorem readQueryFromClient_served {s : σ} {out bytes f : Bytes} {cmds : List (List Bytes)}
    (acceptable : ∀ cmd ∈ cmds, Acceptable cmd) {c : RedisClient σ}
    (waiting : Waiting s out cmds (bytes ++ f) c) (asked : bytes.length ≤ c.readlen) :
    Served execute s out cmds f (c.readQueryFromClient execute bytes) := by
  obtain ⟨pending, fits⟩ := waiting.pending acceptable asked
  rw [readQueryFromClient]
  dsimp only
  rw [if_neg (by omega)]
  exact processInputBufferFor_served execute acceptable pending le_rfl

/-- Once stopped, a read leaves the bytes in the buffer. -/
theorem Stopped.readQueryFromClient {s : σ} {out : Bytes} {c : RedisClient σ}
    (stopped : Stopped s out c) (bytes : Bytes) :
    Stopped s out (c.readQueryFromClient execute bytes) ∧
      (c.readQueryFromClient execute bytes).querybuf = c.querybuf ++ bytes := by
  have fuller : Stopped s out { c with querybuf := c.querybuf ++ bytes } := { stopped with }
  rw [RedisClient.readQueryFromClient]
  dsimp only
  split
  · exact ⟨{ stopped with }, rfl⟩
  · rw [processInputBuffer, fuller.processInputBufferFor execute]
    exact ⟨fuller, rfl⟩

/-- A client whose bytes come in these pieces. -/
def readPieces (c : RedisClient σ) (pieces : List Bytes) : RedisClient σ :=
  pieces.foldl (fun c piece => c.readQueryFromClient execute piece) c

/-- No piece is longer than what the server asked for when it came. -/
def Asked (c : RedisClient σ) : List Bytes → Prop
  | [] => True
  | piece :: pieces =>
      piece.length ≤ c.readlen ∧ Asked (c.readQueryFromClient execute piece) pieces

theorem readPieces_stopped {s : σ} {out : Bytes} {c : RedisClient σ} (stopped : Stopped s out c)
    (pieces : List Bytes) :
    Stopped s out (c.readPieces execute pieces) ∧
      (c.readPieces execute pieces).querybuf = c.querybuf ++ pieces.flatten := by
  induction pieces generalizing c with
  | nil => exact ⟨stopped, by simp [readPieces]⟩
  | cons piece pieces ih =>
      obtain ⟨stopped', querybuf⟩ := stopped.readQueryFromClient execute piece
      obtain ⟨stopped'', all⟩ := ih stopped'
      exact ⟨stopped'', all.trans (by rw [querybuf]; simp)⟩

theorem readPieces_served {s : σ} {out f : Bytes} {cmds : List (List Bytes)} {pieces : List Bytes}
    (acceptable : ∀ cmd ∈ cmds, Acceptable cmd) {c : RedisClient σ}
    (waiting : Waiting s out cmds (pieces.flatten ++ f) c) (asked : Asked execute c pieces) :
    Served execute s out cmds f (c.readPieces execute pieces) := by
  induction pieces generalizing s out cmds c with
  | nil => exact .of_waiting execute waiting
  | cons piece pieces ih =>
      rw [List.flatten_cons, List.append_assoc] at waiting
      have served := readQueryFromClient_served execute acceptable waiting asked.1
      obtain ⟨-, later⟩ := asked
      rw [readPieces, List.foldl_cons, ← readPieces]
      generalize c.readQueryFromClient execute piece = next at served later
      cases served with
      | waits done left split goes waiting' =>
          subst split
          exact .after goes (ih (fun cmd inside => acceptable cmd (List.mem_append_right _ inside))
            waiting' later)
      | stopped done cmd left split goes stops whole stopped =>
          obtain ⟨stopped', querybuf⟩ := readPieces_stopped execute stopped pieces
          refine .stopped done cmd left split goes stops ?_ stopped'
          rw [querybuf, List.append_assoc]
          exact whole

theorem owed_suffix (c : RedisClient σ) (rest : List Bytes) :
    c.owed rest <:+ (rest.map bulk).flatten := by
  cases rest with
  | nil => exact List.suffix_rfl
  | cons arg rest =>
      rw [owed, List.map_cons, List.flatten_cons]
      split
      · refine ⟨header (ascii '$') arg.length ++ crlf, ?_⟩
        rw [bulk_eq]
        simp
      · exact List.suffix_rfl

/-- The bytes that came of the commands that are to come: less than the first has. -/
theorem Waiting.incomplete {s : σ} {out f : Bytes} {cmds : List (List Bytes)} {c : RedisClient σ}
    (acceptable : ∀ cmd ∈ cmds, Acceptable cmd) (waiting : Waiting s out cmds f c) :
    ∃ read, read ++ f = (cmds.map multibulk).flatten ∧
      ∀ next ∈ cmds.head?, read.length < (multibulk next).length := by
  cases waiting with
  | idle idle whole short bound => exact ⟨c.querybuf, whole, short⟩
  | @reading cmd rest later _ _ reading some_ whole short bound =>
      obtain ⟨before, split⟩ : c.owed rest <:+ multibulk cmd := by
        rw [multibulk_eq (acceptable cmd List.mem_cons_self).count, reading.args, List.map_append,
          List.flatten_append, ← List.append_assoc, ← List.append_assoc]
        exact (c.owed_suffix rest).trans (List.suffix_append _ _)
      refine ⟨before ++ c.querybuf, ?_, ?_⟩
      · rw [List.map_cons, List.flatten_cons, ← split, List.append_assoc, whole, List.append_assoc]
      · rintro _ ⟨rfl⟩
        rw [← split, List.length_append, List.length_append]
        omega

theorem Waiting.state {s : σ} {out f : Bytes} {cmds : List (List Bytes)} {c : RedisClient σ}
    (waiting : Waiting s out cmds f c) :
    c.session = s ∧ c.reply = out ∧ c.closeAfterReply = false ∧ c.freed = false := by
  cases waiting with
  | idle idle => exact ⟨idle.session, idle.reply, idle.noError, idle.kept⟩
  | reading reading => exact ⟨reading.session, reading.reply, reading.noError, reading.kept⟩

/-- One more command is on its way. -/
theorem Waiting.append {s : σ} {out f : Bytes} {cmds : List (List Bytes)} {c : RedisClient σ}
    (waiting : Waiting s out cmds f c) (cmd : List Bytes) :
    Waiting s out (cmds ++ [cmd]) (f ++ multibulk cmd) c := by
  cases waiting with
  | idle idle whole short bound =>
      refine .idle idle (by simp [← whole]) ?_ bound
      cases cmds with
      | nil =>
          have empty : c.querybuf = [] := (List.append_eq_nil_iff.mp whole).1
          rintro _ ⟨rfl⟩
          rw [empty]
          exact Nat.zero_lt_succ _
      | cons first cmds => exact short
  | reading reading some_ whole short bound =>
      exact .reading reading some_ (by rw [← List.append_assoc, whole]; simp) short bound

/-- The output buffer does not matter to what is read. -/
theorem Waiting.writes {s : σ} {out f : Bytes} {cmds : List (List Bytes)} {c : RedisClient σ}
    (waiting : Waiting s out cmds f c) (reply : Bytes) :
    Waiting s reply cmds f { c with reply } := by
  cases waiting with
  | idle idle whole short bound => exact .idle { idle with reply := rfl } whole short bound
  | reading reading some_ whole short bound =>
      exact .reading { reading with reply := rfl } some_ whole short bound

/-- It asks for something. -/
theorem Waiting.readlen_pos {s : σ} {out f : Bytes} {cmds : List (List Bytes)} {c : RedisClient σ}
    (waiting : Waiting s out cmds f c) : 0 < c.readlen := by
  have positive : 0 < iobufLen := by decide
  rw [readlen]
  cases waiting with
  | idle idle =>
      rw [idle.bulklen]
      exact positive
  | reading reading some_ whole short bound =>
      split
      · rename_i n known
        rw [known, Option.getD_some] at bound
        split <;> omega
      · exact positive

/-- A stream that is cut holds some commands and less than the next. -/
theorem exists_complete {cmds : List (List Bytes)} {read f : Bytes}
    (whole : read ++ f = (cmds.map multibulk).flatten) :
    ∃ done left rest, cmds = done ++ left ∧ read = (done.map multibulk).flatten ++ rest ∧
      ∀ next ∈ left.head?, rest.length < (multibulk next).length := by
  induction cmds generalizing read with
  | nil => exact ⟨[], [], read, rfl, rfl, by simp⟩
  | cons cmd cmds ih =>
      by_cases short : read.length < (multibulk cmd).length
      · exact ⟨[], cmd :: cmds, read, rfl, rfl, by simpa using short⟩
      · rw [List.map_cons, List.flatten_cons] at whole
        obtain ⟨more, rfl⟩ : multibulk cmd <+: read :=
          List.prefix_of_prefix_length_le ⟨_, whole.symm⟩ ⟨f, rfl⟩ (by omega)
        rw [List.append_assoc, List.append_cancel_left_eq] at whole
        obtain ⟨done, left, rest, rfl, split, short⟩ := ih whole
        exact ⟨cmd :: done, left, rest, rfl, by simp [split], short⟩

theorem not_complete {done : List (List Bytes)} {next : List Bytes} {rest : Bytes}
    (short : rest.length < (multibulk next).length) :
    ¬ ((done ++ [next]).map multibulk).flatten <+: (done.map multibulk).flatten ++ rest := by
  intro more
  have lengths := more.length_le
  rw [List.map_append, List.flatten_append, List.length_append, List.length_append] at lengths
  simp only [List.map_cons, List.map_nil, List.flatten_cons, List.flatten_nil, List.append_nil] at lengths
  omega

/-- **The server executes the commands that have come**, up to the first that is `QUIT` or
blocks the client.  Some commands, written one after another, come in pieces no longer
than the server asks for.  Of those whose bytes have all come it has executed these,
each once and in order, and written their replies.  As long as none of them was of
that kind, it has not answered with a protocol error and not closed the connection. -/
theorem commands_executed (s : σ) (cmds : List (List Bytes))
    (acceptable : ∀ cmd ∈ cmds, Acceptable cmd) (pieces : List Bytes)
    (asked : Asked execute { session := s } pieces)
    (sent : pieces.flatten <+: (cmds.map multibulk).flatten) :
    ∃ done left, cmds = done ++ left ∧
      (done.map multibulk).flatten <+: pieces.flatten ∧
      (∀ next ∈ left.head?, ¬ ((done ++ [next]).map multibulk).flatten <+: pieces.flatten) ∧
      (readPieces execute { session := s } pieces).session =
        Pipeline.after (serve execute) s (executed execute s done) ∧
      (readPieces execute { session := s } pieces).reply =
        written execute s (executed execute s done) ∧
      (Goes execute s done →
        (readPieces execute { session := s } pieces).closeAfterReply = false ∧
        (readPieces execute { session := s } pieces).freed = false) := by
  obtain ⟨f, whole⟩ := sent
  have start : Waiting s [] cmds (pieces.flatten ++ f) { session := s } := by
    refine .idle ⟨rfl, rfl, rfl, rfl, rfl, Or.inl rfl, rfl, rfl, rfl⟩ whole ?_
      (by show 0 < 18; omega)
    intro next _
    exact Nat.zero_lt_succ _
  have served := readPieces_served execute acceptable start asked
  generalize readPieces execute { session := s } pieces = c at served
  cases served with
  | waits done left split goes waiting =>
      subst split
      obtain ⟨read, rest, short⟩ := waiting.incomplete fun cmd inside =>
        acceptable cmd (List.mem_append_right _ inside)
      have received : pieces.flatten = (done.map multibulk).flatten ++ read := by
        rw [List.map_append, List.flatten_append, ← rest, ← List.append_assoc,
          List.append_cancel_right_eq] at whole
        exact whole
      obtain ⟨session, reply, noError, kept⟩ := waiting.state
      rw [received]
      refine ⟨done, left, rfl, List.prefix_append _ _, ?_, ?_, ?_, fun _ => ⟨noError, kept⟩⟩
      · exact fun next first => not_complete (short next first)
      · rw [goes.executed_eq, session]
      · rw [goes.executed_eq, reply, List.nil_append]
  | stopped first cmd later split goes stops rest stopped =>
      subst split
      obtain ⟨more, left, tail, rfl, split, short⟩ := exists_complete rest
      have received : pieces.flatten = ((first ++ cmd :: more).map multibulk).flatten ++ tail := by
        have cut : (first ++ cmd :: (more ++ left)).map multibulk =
            (first ++ [cmd]).map multibulk ++ (more ++ left).map multibulk := by simp
        rw [cut, List.flatten_append, ← rest, split, ← List.append_assoc,
          List.append_cancel_right_eq] at whole
        rw [whole]
        simp
      rw [received]
      refine ⟨first ++ cmd :: more, left, by simp, List.prefix_append _ _, ?_, ?_, ?_, ?_⟩
      · exact fun next inside => not_complete (short next inside)
      · rw [goes.executed_stops stops, stopped.session]
      · rw [goes.executed_stops stops, stopped.reply, List.nil_append]
      · exact fun all => absurd stops all.not_stops

/-- `*1 $1 A`, cut inside a line end: the command is executed after the second piece. -/
theorem commands_executed_two_pieces :
    (readPieces (fun n _ => (some (.integer 7), n + 1)) { session := 0 }
      [[ascii '*', ascii '1', cr, lf, ascii '$', ascii '1', cr], [lf, ascii 'A', cr, lf]]).session =
        (1 : Nat) := by
  obtain ⟨done, left, split, -, maximal, session, -⟩ := commands_executed
    (fun n _ => (some (.integer 7), n + 1)) 0 [[[ascii 'A']]]
    (by rintro _ ⟨⟩; exact ⟨by decide, by decide, by decide⟩; contradiction)
    [[ascii '*', ascii '1', cr, lf, ascii '$', ascii '1', cr], [lf, ascii 'A', cr, lf]]
    ⟨by decide, by decide, trivial⟩ (by decide)
  rw [session]
  cases done with
  | nil =>
      rw [List.nil_append] at split
      subst split
      exact absurd (by decide) (maximal _ rfl)
  | cons cmd done =>
      obtain ⟨rfl, rfl, -⟩ : cmd = [[ascii 'A']] ∧ done = [] ∧ left = [] := by
        simpa using split.symm
      rfl

/-- Behind a `quit` nothing is executed, and the connection will be closed. -/
example : (readPieces (fun n _ => (some (.integer 7), n + 1)) { session := 0 }
    [multibulk [text "quit"] ++ multibulk [text "A"]]).session = (0 : Nat) := by decide +kernel

/-! ## Commands that are answered at once -/

section Answered

variable (execute : σ → List Bytes → RedisReply × σ)

/-- A server that answers every command at once. -/
def answering (s : σ) (cmd : List Bytes) : Option RedisReply × σ :=
  (some (execute s cmd).1, (execute s cmd).2)

/-- What it writes for some commands. -/
def replies (s : σ) (cmds : List (List Bytes)) : Bytes :=
  ((Pipeline.answers execute s cmds).map fun answer => encode answer.2).flatten

variable {execute} {s : σ} {cmds : List (List Bytes)}

theorem serve_answering {cmd : List Bytes} (notQuit : isQuit cmd = false) :
    serve (answering execute) s cmd = (some (execute s cmd).1, (execute s cmd).2) := by
  rw [serve, notQuit]
  rfl

theorem not_stops_answering {cmd : List Bytes} (notQuit : isQuit cmd = false) :
    ¬ Stops (answering execute) s cmd := by
  simp [Stops, notQuit, answering]

theorem after_answering (noQuit : ∀ cmd ∈ cmds, isQuit cmd = false) :
    Pipeline.after (serve (answering execute)) s cmds = Pipeline.after execute s cmds := by
  induction cmds generalizing s with
  | nil => rfl
  | cons cmd cmds ih =>
      rw [List.forall_mem_cons] at noQuit
      rw [Pipeline.after_cons, Pipeline.after_cons, serve_answering noQuit.1, ih noQuit.2]

theorem written_answering (noQuit : ∀ cmd ∈ cmds, isQuit cmd = false) :
    written (answering execute) s cmds = replies execute s cmds := by
  induction cmds generalizing s with
  | nil => rfl
  | cons cmd cmds ih =>
      rw [List.forall_mem_cons] at noQuit
      have later := ih (s := (execute s cmd).2) noQuit.2
      simp only [written, replies] at later
      simp [written, replies, Pipeline.answers, serve_answering noQuit.1, later]

variable (execute)

/-- A read executes the commands that became complete, and waits inside the next. -/
theorem readQueryFromClient_waiting {out bytes f : Bytes}
    (acceptable : ∀ cmd ∈ cmds, Acceptable cmd) (noQuit : ∀ cmd ∈ cmds, isQuit cmd = false)
    {c : RedisClient σ} (waiting : Waiting s out cmds (bytes ++ f) c)
    (asked : bytes.length ≤ c.readlen) :
    ∃ done left, cmds = done ++ left ∧
      Waiting (Pipeline.after execute s done) (out ++ replies execute s done) left f
        (c.readQueryFromClient (answering execute) bytes) := by
  have served := readQueryFromClient_served (answering execute) acceptable waiting asked
  generalize c.readQueryFromClient (answering execute) bytes = next at served
  cases served with
  | waits done left split goes waiting =>
      have noQuit' : ∀ cmd ∈ done, isQuit cmd = false := by
        intro cmd inside
        exact noQuit cmd (by rw [split]; exact List.mem_append_left _ inside)
      rw [after_answering noQuit', written_answering noQuit'] at waiting
      exact ⟨done, left, split, waiting⟩
  | stopped done cmd left split goes stops =>
      have notQuit := noQuit cmd (by simp [split])
      exact absurd stops (not_stops_answering notQuit)

end Answered

end RedisClient

end RecommEngine.RedisServer
