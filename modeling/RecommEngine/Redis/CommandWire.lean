/-
# Redis.CommandWire -- the client's commands on the wire

`redispp.cc` gives every command to hiredis as a format with its arguments.

* `Command.formatted`: the bytes of a command are its name and its values, one argument
  each, whatever the values hold.
* `client_commands_distinct`: different commands have different bytes.
* `model_of_connection`: the pipeline that `Redis.Hiredis` models is what a client and a
  server do over a connection: the replies the calls return are, in turn, those that
  the model holds unread after the same commands.
-/
import RecommEngine.Redis.Hiredis
import RecommEngine.Redis.Connection

namespace RecommEngine.Redis

set_option autoImplicit false

open Theory
open Theory.ByteStream (Bytes)
open Hiredis
open RedisServer (isQuit text)
open RedisServer.RedisClient (Acceptable)

/-- The bytes at `data()` of a string. -/
def blob (s : String) : Bytes :=
  s.toByteArray.data.toList

/-- A value of a command: `%b` with a length, or `%d`. -/
inductive Value where
  | bytes (s : String)
  | int (n : Int)

namespace Value

def format : Value → Bytes
  | .bytes _ => text " %b"
  | .int _ => text " %d"

/-- A length is cast to eight bytes, and so is a number. -/
def args : Value → List VaArg
  | .bytes s => [.pointer (blob s), .word (Int64.ofNat (blob s).length)]
  | .int n => [.word (Int64.ofInt n)]

def text : Value → Bytes
  | .bytes s => blob s
  | .int n => signedDecimal n

/-- What the types of the client allow: a number is an `int`. -/
def InRange : Value → Prop
  | .bytes _ => True
  | .int n => -2 ^ 31 ≤ n ∧ n < 2 ^ 31

end Value

namespace Command

def format : Command → String
  | .ping => "PING"
  | .get _ => "GET %b"
  | .set _ _ => "SET %b %b"
  | .setex _ _ _ => "SETEX %b %d %b"
  | .del _ => "DEL %b"
  | .hset _ _ _ => "HSET %b %b %b"
  | .expire _ _ => "EXPIRE %b %d"
  | .hget _ _ => "HGET %b %b"
  | .hgetall _ => "HGETALL %b"
  | .lpush _ _ => "LPUSH %b %b"
  | .rpush _ _ => "RPUSH %b %b"
  | .lpop _ => "LPOP %b"
  | .rpop _ => "RPOP %b"
  | .multi => "MULTI"
  | .exec => "EXEC"

def values : Command → List Value
  | .ping => []
  | .get key => [.bytes key]
  | .set key value => [.bytes key, .bytes value]
  | .setex key life value => [.bytes key, .int life, .bytes value]
  | .del key => [.bytes key]
  | .hset key field value => [.bytes key, .bytes field, .bytes value]
  | .expire key life => [.bytes key, .int life]
  | .hget key field => [.bytes key, .bytes field]
  | .hgetall key => [.bytes key]
  | .lpush key value => [.bytes key, .bytes value]
  | .rpush key value => [.bytes key, .bytes value]
  | .lpop key => [.bytes key]
  | .rpop key => [.bytes key]
  | .multi => []
  | .exec => []

def name : Command → String
  | .ping => "PING"
  | .get _ => "GET"
  | .set _ _ => "SET"
  | .setex _ _ _ => "SETEX"
  | .del _ => "DEL"
  | .hset _ _ _ => "HSET"
  | .expire _ _ => "EXPIRE"
  | .hget _ _ => "HGET"
  | .hgetall _ => "HGETALL"
  | .lpush _ _ => "LPUSH"
  | .rpush _ _ => "RPUSH"
  | .lpop _ => "LPOP"
  | .rpop _ => "RPOP"
  | .multi => "MULTI"
  | .exec => "EXEC"

/-- The variable arguments of the call. -/
def args (cmd : Command) : List VaArg :=
  cmd.values.flatMap Value.args

/-- The arguments that the server should get. -/
def argv (cmd : Command) : List Bytes :=
  text cmd.name :: cmd.values.map Value.text

theorem format_eq (cmd : Command) :
    text cmd.format = text cmd.name ++ cmd.values.flatMap Value.format := by
  cases cmd <;>
    (simp only [format, name, values, List.flatMap_cons, List.flatMap_nil, Value.format]; decide)

end Command

/-! ## One argument for each value -/

/-- The name of a command in its format. -/
def literals (name : Bytes) (plain : ∀ c ∈ name, Plainly c) : List Token :=
  name.attach.map fun c => .literal c.1 (plain c.1 c.2)

theorem literals_flatMap {β : Type} {name : Bytes} (plain : ∀ c ∈ name, Plainly c)
    (f : Token → List β) (g : UInt8 → List β)
    (same : ∀ (c : UInt8) (plainly : Plainly c), f (.literal c plainly) = g c) :
    (literals name plain).flatMap f = name.flatMap g := by
  rw [literals, List.flatMap_map]
  conv_rhs => rw [← List.attach_map_subtype_val name, List.flatMap_map]
  exact List.flatMap_congr fun c _ => same c.1 (plain c.1 c.2)

theorem literals_format {name : Bytes} (plain : ∀ c ∈ name, Plainly c) :
    (literals name plain).flatMap Token.format = name := by
  rw [literals_flatMap plain Token.format (fun c => [c]) fun _ _ => rfl, List.flatMap_singleton']

theorem literals_text {name : Bytes} (plain : ∀ c ∈ name, Plainly c) :
    (literals name plain).flatMap Token.text = name := by
  rw [literals_flatMap plain Token.text (fun c => [c]) fun _ _ => rfl, List.flatMap_singleton']

theorem literals_args {name : Bytes} (plain : ∀ c ∈ name, Plainly c) :
    (literals name plain).flatMap Token.args = [] := by
  rw [literals_flatMap plain Token.args (fun _ => []) fun _ _ => rfl]
  simp

/-- A value in a format. -/
theorem value_token {v : Value} (inRange : v.InRange) (size : v.text.length < 2 ^ 63) :
    ∃ t : Token, t.isSpace = false ∧ v.format = text " " ++ t.format ∧ t.args = v.args ∧
      t.text = v.text := by
  have formatBytes : text " %b" = text " " ++ [ascii '%', ascii 'b'] := by decide
  have formatInt : text " %d" = text " " ++ [ascii '%', ascii 'd'] := by decide
  cases v with
  | bytes s => exact ⟨.bytes (blob s) size, rfl, formatBytes, rfl, rfl⟩
  | int n =>
      refine ⟨.int (Int64.ofInt n), rfl, formatInt, rfl, ?_⟩
      show signedDecimal (Int64.ofInt n).toInt32.toInt = signedDecimal n
      rw [Int64.toInt32_ofInt, Int32.toInt_ofInt_of_le inRange.1 inRange.2]

/-- The values of a command, after a word. -/
theorem values_tokens {values : List Value} (inRange : ∀ v ∈ values, v.InRange)
    (sizes : ∀ v ∈ values, v.text.length < 2 ^ 63) :
    ∃ tokens : List Token, tokens.flatMap Token.format = values.flatMap Value.format ∧
      tokens.flatMap Token.args = values.flatMap Value.args ∧
      ∀ word : List Token, word ≠ [] → (∀ t ∈ word, t.isSpace = false) →
        words (word ++ tokens) = word.flatMap Token.text :: values.map Value.text := by
  induction values with
  | nil =>
      refine ⟨[], rfl, rfl, ?_⟩
      intro word some_ noSpace
      have single : word.splitOnP Token.isSpace = [word] :=
        List.splitOnP_eq_singleton fun t inside => noSpace t inside
      simp [words, single, some_]
  | cons v values ih =>
      obtain ⟨t, notSpace, format, args, text_⟩ := value_token (inRange v List.mem_cons_self)
        (sizes v List.mem_cons_self)
      obtain ⟨tokens, formats, argss, split⟩ := ih
        (fun v inside => inRange v (List.mem_cons_of_mem _ inside))
        (fun v inside => sizes v (List.mem_cons_of_mem _ inside))
      refine ⟨.space :: t :: tokens, ?_, ?_, ?_⟩
      · have space : Token.space.format = text " " := by decide
        simp [formats, format, space]
      · have none_ : Token.space.args = [] := rfl
        simp [none_, args, argss]
      · intro word some_ noSpace
        have first : (word ++ .space :: t :: tokens).splitOnP Token.isSpace =
            word :: (t :: tokens).splitOnP Token.isSpace :=
          List.splitOnP_append_cons_of_forall_mem (fun t inside => noSpace t inside) _ rfl _
        have later := split [t] (by simp) (by simpa using notSpace)
        rw [words, first]
        rw [words] at later
        simp only [List.singleton_append] at later
        simp [later, some_, text_]

namespace Command

theorem plain_name (cmd : Command) : text cmd.name ≠ [] ∧ ∀ c ∈ text cmd.name, Plainly c := by
  cases cmd <;> (simp only [name]; decide +kernel)

/-- The command that a call of the client writes. -/
theorem formatted {print : Bytes → VaArg → Bytes} (printsInt : PrintsInt print)
    (cmd : Command) (inRange : ∀ v ∈ cmd.values, v.InRange) (fits : Fits cmd.argv) :
    redisvFormatCommand print (text cmd.format) cmd.args =
      .ok (Int32.ofNat (multibulk cmd.argv).length, multibulk cmd.argv) := by
  obtain ⟨nameSome, plain⟩ := cmd.plain_name
  have sizes : ∀ v ∈ cmd.values, v.text.length < 2 ^ 63 := by
    intro v inside
    have member : v.text ∈ cmd.argv := List.mem_cons_of_mem _ (List.mem_map_of_mem inside)
    have := (length_le_of_mem member).trans_lt fits
    omega
  obtain ⟨tokens, formats, args, split⟩ := values_tokens inRange sizes
  have words_eq : words (literals (text cmd.name) plain ++ tokens) = cmd.argv := by
    have noSpace : ∀ t ∈ literals (text cmd.name) plain, t.isSpace = false := by
      intro t inside
      obtain ⟨c, -, rfl⟩ := List.mem_map.mp inside
      rfl
    rw [split _ (by simpa [literals] using nameSome) noSpace, literals_text]
    rfl
  have formatted := redisvFormatCommand_tokens printsInt (literals (text cmd.name) plain ++ tokens)
  rw [List.flatMap_append, List.flatMap_append, literals_format, literals_args, List.nil_append,
    formats, args, words_eq, ← cmd.format_eq, build_eq fits] at formatted
  exact formatted

/-- A call of the client appends these bytes to the output buffer. -/
theorem appended {print : Bytes → VaArg → Bytes} (printsInt : PrintsInt print) (cmd : Command)
    (inRange : ∀ v ∈ cmd.values, v.InRange) (fits : Fits cmd.argv) (context : Hiredis.RedisContext) :
    context.redisvAppendCommand print (text cmd.format) cmd.args =
      some (true, context.appendFormatted (multibulk cmd.argv)) := by
  rw [Hiredis.RedisContext.redisvAppendCommand, cmd.formatted printsInt inRange fits]

end Command

/-! ## Different commands -/

/-- A command is the array of its arguments, as a server would write it. -/
theorem wire_multibulk {argv : List Bytes} (fits : Fits argv) :
    Wire 0 (.array (argv.map .string)) (multibulk argv) := by
  have count := (count_le_length argv).trans_lt fits
  have bytes : multibulk argv = encode (.array (argv.map .string)) := by
    rw [multibulk, encode, encodeAll_eq, signedDecimal_ofNat count, List.length_map, List.map_map]
    congr 4
  rw [bytes]
  refine wire_encode ?_ ?_
  · rw [WellFormed, allWellFormed_iff]
    refine ⟨by simpa using count, ?_⟩
    intro reply inside
    obtain ⟨arg, member, rfl⟩ := List.mem_map.mp inside
    have := (length_le_of_mem member).trans_lt fits
    show arg.length < 2 ^ 63
    omega
  · have flat : nestingAll (argv.map .string) ≤ 0 := by
      rw [nestingAll_le]
      simp [nesting]
    rw [nesting]
    omega

theorem multibulk_inj {argv argv' : List Bytes} (fits : Fits argv) (fits' : Fits argv')
    (same : multibulk argv = multibulk argv') : argv = argv' := by
  have wire' := wire_multibulk fits'
  rw [← same] at wire'
  have replies := (wire_multibulk fits).unique wire'
  have injective : Function.Injective RedisReply.string := fun _ _ => RedisReply.string.inj
  exact injective.list_map (RedisReply.array.inj replies)

@[simp] theorem blob_inj {a b : String} : blob a = blob b ↔ a = b := by
  constructor
  · intro same
    have data : a.toByteArray.data = b.toByteArray.data := Array.toList_inj.mp same
    exact String.toByteArray_inj.mp (ByteArray.ext data)
  · rintro rfl
    rfl

theorem decimal_inj {a b : Nat} (same : decimal a = decimal b) : a = b := by
  rw [← appendDigits_decimal a, same, appendDigits_decimal]

@[simp] theorem signedDecimal_inj {a b : Int} : signedDecimal a = signedDecimal b ↔ a = b := by
  constructor
  · intro same
    have noSign : ∀ n, ascii '-' ∉ decimal n := not_mem_decimal (by decide)
    unfold signedDecimal at same
    split at same
    · split at same
      · have := decimal_inj (List.cons.inj same).2
        omega
      · exact absurd (same ▸ List.mem_cons_self) (noSign b.natAbs)
    · split at same
      · exact absurd (same ▸ List.mem_cons_self) (noSign a.natAbs)
      · have := decimal_inj same
        omega
  · rintro rfl
    rfl

namespace Command

def names : List String :=
  ["PING", "GET", "SET", "SETEX", "DEL", "HSET", "EXPIRE", "HGET", "HGETALL", "LPUSH", "RPUSH",
    "LPOP", "RPOP", "MULTI", "EXEC"]

theorem name_mem (cmd : Command) : cmd.name ∈ names := by
  cases cmd <;> simp [name, names]

theorem name_inj {cmd cmd' : Command} (same : text cmd.name = text cmd'.name) :
    cmd.name = cmd'.name := by
  have table : ∀ a ∈ names, ∀ b ∈ names, text a = text b → a = b := by decide +kernel
  exact table _ cmd.name_mem _ cmd'.name_mem same

theorem argv_inj {cmd cmd' : Command} (same : cmd.argv = cmd'.argv) : cmd = cmd' := by
  obtain ⟨names_, values_⟩ := List.cons.inj same
  have sameName := name_inj names_
  cases cmd <;> cases cmd' <;> simp_all [name, values, Value.text]

/-- **Different commands have different bytes.**  No key, field or value can make one
command look like another. -/
theorem client_commands_distinct {print : Bytes → VaArg → Bytes} (printsInt : PrintsInt print)
    (cmd cmd' : Command) (inRange : ∀ v ∈ cmd.values, v.InRange)
    (inRange' : ∀ v ∈ cmd'.values, v.InRange) (fits : Fits cmd.argv) (fits' : Fits cmd'.argv)
    (same : redisvFormatCommand print (text cmd.format) cmd.args =
      redisvFormatCommand print (text cmd'.format) cmd'.args) : cmd = cmd' := by
  rw [cmd.formatted printsInt inRange fits, cmd'.formatted printsInt inRange' fits'] at same
  have bytes : multibulk cmd.argv = multibulk cmd'.argv := by
    injection same with same
    exact (Prod.mk.inj same).2
  exact argv_inj (multibulk_inj fits fits' bytes)

/-- `GET "a b"` is not `SET "a" "b"`. -/
theorem client_commands_distinct_spaces :
    redisvFormatCommand printInt (text (get "a b").format) (get "a b").args ≠
      redisvFormatCommand printInt (text (set "a" "b").format) (set "a" "b").args := by
  intro same
  have printsInt : PrintsInt printInt := fun _ => rfl
  cases client_commands_distinct printsInt (get "a b") (set "a" "b") (by simp [values, Value.InRange])
    (by simp [values, Value.InRange]) (by decide +kernel) (by decide +kernel) same

end Command

/-! ## The model of the connection -/

section Model

variable {σ : Type} (execute : σ → List Bytes → RedisReply × σ) (view : RedisReply → Reply)

/-- What the server answers to a command of the client, as the client sees it. -/
def served (s : σ) (cmd : Command) : Reply × σ :=
  (view (execute s cmd.argv).1, (execute s cmd.argv).2)

theorem answers_served (s : σ) (cmds : List Command) :
    (Pipeline.answers (served execute view) s cmds).map Prod.snd =
      (Link.answered execute s (cmds.map Command.argv)).map view := by
  induction cmds generalizing s with
  | nil => rfl
  | cons cmd cmds ih =>
      have later := ih (execute s cmd.argv).2
      simp only [Link.answered, List.map_map] at later ⊢
      simp only [Pipeline.answers, List.map_cons, served]
      rw [← later]
      rfl

/-- A client's command is never a `QUIT`, so the server answers it if its values are not
too long. -/
theorem Command.answerable (cmd : Command)
    (small : ∀ v ∈ cmd.values, v.text.length ≤ 512 * 1024 * 1024) : Link.Answerable cmd.argv where
  acceptable := by
    refine ⟨List.cons_ne_nil _ _, ?_, ?_⟩
    · cases cmd <;> simp [argv, values]
    · intro arg inside
      rcases List.mem_cons.mp inside with rfl | inside
      · have table : ∀ name ∈ names, (text name).length ≤ 512 * 1024 * 1024 := by decide +kernel
        exact table _ cmd.name_mem
      · obtain ⟨v, member, rfl⟩ := List.mem_map.mp inside
        exact small v member
  noQuit := by
    have table : ∀ name ∈ names, ∀ args, isQuit (text name :: args) = false := by
      intro name member args
      fin_cases member <;> rfl
    exact table _ cmd.name_mem _

/-- **The pipeline model is what the connection does.**  The replies that the calls on a
connection return are, in turn, those that are unread in the model once the same
commands were appended.  The commands are `Sendable` if no value is longer than 512 MB
(`Command.answerable`), and the server answers each at once with a `Proper` reply. -/
theorem model_of_connection {execute : σ → List Bytes → RedisReply × σ} (view : RedisReply → Reply)
    (proper : Link.Proper execute) {s : σ} (events : List Event)
    (along : Run.Along (Link.step execute) Link.Sendable { server := { session := s } } events)
    (cmds : List Command)
    (appended : (Run.run (Link.step execute) { server := { session := s } } events).sent =
      cmds.map Command.argv) :
    (Run.run (Link.step execute) { server := { session := s } } events).caller.got.map view <+:
      (cmds.foldl (redisAppendCommand (served execute view)) { session := s }).unread.map Prod.snd := by
  obtain ⟨done, left, fed, linked⟩ := Link.linked_run proper along
  rw [RedisContext.unread_append_all _ rfl, answers_served, ← appended, linked.sent,
    Link.answered_append, List.map_append]
  exact ((linked.got_prefix proper).map view).trans (List.prefix_append _ _)

theorem model_of_connection_two :
    (Run.run (Link.step Link.pong) { server := { session := 0 } } Link.twoCommands).caller.got.map
        (fun _ => Reply.status "PONG") <+:
      ([Command.ping, .ping].foldl (redisAppendCommand (served Link.pong fun _ => .status "PONG"))
        { session := 0 }).unread.map Prod.snd :=
  model_of_connection (fun _ => .status "PONG") Link.pong_proper Link.twoCommands Link.twoCommands_sendable
    [.ping, .ping] (by decide +kernel)

end Model

end RecommEngine.Redis
