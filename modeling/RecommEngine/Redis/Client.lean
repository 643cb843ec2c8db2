/-
# Redis.Client -- the methods of the redis client

`redispp.cc` over `Hiredis`.  A single method sends one command and interprets
its reply (`oneCommand`); `HashSetEx` sends up to two.  A batch method is a
transaction (`transaction`): it appends MULTI and its commands, sends EXEC with a
call that returns the reply to MULTI, reads one reply per queued command and then
the reply to EXEC.  A queued reply that is not `QUEUED` ends the method there.

A method that indexes a vector out of its range or fails a CHECK has no result;
it is a `Fault`.  Loop counters, an `int` in the source, are natural numbers: a batch has
fewer than 2^31 elements.
-/
import RecommEngine.Util.StrUtil
import RecommEngine.Redis.Hiredis

namespace RecommEngine.Redis

set_option autoImplicit false

open Std (ExtTreeMap)
open Theory Util

inductive Fault where
  | outOfRange
  | checkFailed
  deriving DecidableEq

structure Client (σ : Type) where
  ctx : Option (RedisContext σ)
  lastError : String := ""

def notConnected : String := "redis not connected"

def unexpectedReply (reply : Reply) : String :=
  "unexpected reply, type: " ++ toString reply.type

/-- A status reply whose text is equal to `word` up to the length of the text. -/
def Reply.statusIs (reply : Reply) (word : String) : Bool :=
  match reply with
  | .status str => strncmpEq word str str.length
  | _ => false

namespace Client

variable {σ α : Type} (answer : σ → Command → Reply × σ)

/-! ## Single methods -/

/-- What the single methods share: `interpret` gives the result and the error
text for a reply. -/
def oneCommand (c : Client σ) (failed : α) (cmd : Command)
    (interpret : Reply → Except Fault (α × String)) : Except Fault (α × Client σ) :=
  match c.ctx with
  | none => .ok (failed, { c with lastError := notConnected })
  | some ctx =>
      match redisCommand answer ctx cmd with
      | (none, ctx) => .ok (failed, ⟨some ctx, ctx.errstr⟩)
      | (some reply, ctx) => (interpret reply).map fun out => (out.1, ⟨some ctx, out.2⟩)

def ping (c : Client σ) : Except Fault (Bool × Client σ) :=
  oneCommand answer c false .ping fun reply =>
    .ok (if reply.str = "PONG" then (true, "")
      else (false, "unknown reply for PING: " ++ reply.str))

def setEx (c : Client σ) (key value : String) (lifeInSeconds : Int) :
    Except Fault (Bool × Client σ) :=
  oneCommand answer c false
    (if lifeInSeconds > 0 then .setex key lifeInSeconds value else .set key value) fun reply =>
      .ok (if reply.statusIs "OK" then (true, "") else (false, unexpectedReply reply))

/-- A value that may be absent: the return code with the value. -/
def interpretValue (absent : String) : Reply → Except Fault ((Int × String) × String)
  | .error str => .ok ((-1, ""), str)
  | .string str => .ok ((0, str), "")
  | .nil => .ok ((1, ""), absent)
  | _ => .ok ((-1, ""), "")

def get (c : Client σ) (key : String) : Except Fault ((Int × String) × Client σ) :=
  oneCommand answer c (-1, "") (.get key) (interpretValue "the key doesn't exist")

def delete (c : Client σ) (key : String) : Except Fault (Int × Client σ) :=
  oneCommand answer c (-1) (.del key) fun reply =>
    match reply with
    | .integer _ => .ok (0, "")
    | .error str => .ok (-1, str)
    | _ => .ok (-1, "")

def hashGet (c : Client σ) (key field : String) : Except Fault ((Int × String) × Client σ) :=
  oneCommand answer c (-1, "") (.hget key field) (interpretValue "the key-field doesn't exist")

def listPopLeft (c : Client σ) (key : String) : Except Fault ((Int × String) × Client σ) :=
  oneCommand answer c (-1, "") (.lpop key) (interpretValue "the key doesn't exist")

def listPopRight (c : Client σ) (key : String) : Except Fault ((Int × String) × Client σ) :=
  oneCommand answer c (-1, "") (.rpop key) (interpretValue "the key doesn't exist")

/-- The answer and the length written to `*list_length`, if it is. -/
def interpretLength : Reply → Except Fault ((Bool × Option Int32) × String)
  | .error str => .ok ((false, none), str)
  | .integer integer => .ok ((true, some (Int32.ofInt integer)), "")
  | _ => .ok ((false, none), "")

def listPushLeft (c : Client σ) (key value : String) :
    Except Fault ((Bool × Option Int32) × Client σ) :=
  oneCommand answer c (false, none) (.lpush key value) interpretLength

def listPushRight (c : Client σ) (key value : String) :
    Except Fault ((Bool × Option Int32) × Client σ) :=
  oneCommand answer c (false, none) (.rpush key value) interpretLength

/-- An integer reply among `expected`. -/
def interpretInteger (expected : List Int) : Reply → Except Fault (Bool × String)
  | .integer integer =>
      .ok (if integer ∈ expected then (true, "") else (false, unexpectedReply (.integer integer)))
  | reply => .ok (false, unexpectedReply reply)

/-- The HSET and, for a positive life time, an EXPIRE after it. -/
def hashSetEx (c : Client σ) (key field value : String) (lifeInSeconds : Int) :
    Except Fault (Bool × Client σ) := do
  let (stored, c) ← oneCommand answer c false (.hset key field value) (interpretInteger [0, 1])
  if stored ∧ 0 < lifeInSeconds then
    oneCommand answer c false (.expire key lifeInSeconds) (interpretInteger [1])
  else
    return (stored, c)

abbrev FieldValues := ExtTreeMap String String

/-- The loop over the field-value pairs, with its CHECKs: the elements are even
in number and all of them strings. -/
def fieldValues : FieldValues → List Reply → Except Fault FieldValues
  | pairs, [] => .ok pairs
  | pairs, .string field :: .string value :: rest => fieldValues (pairs.insert field value) rest
  | _, _ => .error .checkFailed

def interpretFields : Reply → Except Fault ((Int × FieldValues) × String)
  | .array [] => .ok ((1, ∅), "the key dosen't exist")
  | .array element => do
      let pairs ← fieldValues ∅ element
      return ((0, pairs), "")
  | reply => .ok ((-1, ∅), unexpectedReply reply)

def hashGetAllFields (c : Client σ) (key : String) :
    Except Fault ((Int × FieldValues) × Client σ) :=
  oneCommand answer c (-1, ∅) (.hgetall key) interpretFields

/-! ## Batch methods -/

/-- The replies to `n` queued commands; the text of the first failure, if any. -/
def readQueued : Nat → RedisContext σ → Option String × RedisContext σ
  | 0, ctx => (none, ctx)
  | n + 1, ctx =>
      match redisGetReply ctx none with
      | (none, ctx) => (some ctx.errstr, ctx)
      | (some reply, ctx) =>
          if reply.statusIs "QUEUED" then readQueued n ctx
          else (some (unexpectedReply reply), ctx)

/-- What the batch methods share: `queued` reads the replies to `cmds`, and
`interpret` gives the result and the error text for the reply to EXEC. -/
def transaction (c : Client σ) (failed : α) (cmds : Except Fault (List Command))
    (queued : RedisContext σ → Option String × RedisContext σ)
    (interpret : Reply → Except Fault (α × String)) : Except Fault (α × Client σ) :=
  match c.ctx, cmds with
  | none, _ => .ok (failed, { c with lastError := notConnected })
  | some _, .error fault => .error fault
  | some ctx, .ok cmds =>
      let ctx := (Command.multi :: cmds).foldl (redisAppendCommand answer) ctx
      -- the reply to MULTI is not looked at
      match redisCommand answer ctx .exec with
      | (none, ctx) => .ok (failed, ⟨some ctx, ctx.errstr⟩)
      | (some _, ctx) =>
          match queued ctx with
          | (some error, ctx) => .ok (failed, ⟨some ctx, error⟩)
          | (none, ctx) =>
              match redisGetReply ctx none with
              | (none, ctx) => .ok (failed, ⟨some ctx, ctx.errstr⟩)
              | (some reply, ctx) => (interpret reply).map fun out => (out.1, ⟨some ctx, out.2⟩)

/-- The setters only look at the type of the reply to EXEC. -/
def interpretExec : Reply → Except Fault (Bool × String)
  | .array _ => .ok (true, "")
  | reply => .ok (false, unexpectedReply reply)

/-- The commands of `MultiSetEx`, which indexes the life times by the keys; there
are as many values as keys. -/
def setCommands (keys values : List String) (lifeInSeconds : List Int) :
    Except Fault (List Command) :=
  if lifeInSeconds.length < keys.length then
    .error .outOfRange
  else
    .ok ((keys.zip values).zipWith
      (fun (key, value) life => if life > 0 then .setex key life value else .set key value)
      lifeInSeconds)

def multiSetEx (c : Client σ) (keys values : List String) (lifeInSeconds : List Int) :
    Except Fault (Bool × Client σ) :=
  if c.ctx.isSome ∧ keys.length ≠ values.length then
    .ok (false, { c with lastError := "#keys != #values" })
  else
    transaction answer c false (setCommands keys values lifeInSeconds) (readQueued keys.length)
      interpretExec

/-- The replies to `n` pairs of queued commands.  The second of a pair is read into
the variable that holds the first, so a read that fails finds the first again. -/
def readQueuedPairs : Nat → RedisContext σ → Option String × RedisContext σ
  | 0, ctx => (none, ctx)
  | n + 1, ctx =>
      match redisGetReply ctx none with
      | (none, ctx) => (some ctx.errstr, ctx)
      | (some reply, ctx) =>
          if reply.statusIs "QUEUED" then
            match redisGetReply ctx (some reply) with
            | (none, ctx) => (some ctx.errstr, ctx)
            | (some reply, ctx) =>
                if reply.statusIs "QUEUED" then readQueuedPairs n ctx
                else (some (unexpectedReply reply), ctx)
          else (some (unexpectedReply reply), ctx)

/-- The commands of `MultiHashSetEx`, whose three vectors have one length. -/
def hsetCommands (keys fields values : List String) (lifeInSeconds : Int) : List Command :=
  (keys.zip (fields.zip values)).flatMap fun (key, field, value) =>
    .hset key field value :: if lifeInSeconds > 0 then [.expire key lifeInSeconds] else []

def multiHashSetEx (c : Client σ) (keys fields values : List String) (lifeInSeconds : Int) :
    Except Fault (Bool × Client σ) :=
  if c.ctx.isSome ∧ keys.length ≠ values.length then
    .ok (false, { c with lastError := "#keys != #values" })
  else if c.ctx.isSome ∧ keys.length ≠ fields.length then
    .ok (false, { c with lastError := "#keys != #fields" })
  else
    transaction answer c false (.ok (hsetCommands keys fields values lifeInSeconds))
      (if lifeInSeconds > 0 then readQueuedPairs keys.length else readQueued keys.length)
      interpretExec

/-- The loop over the elements of the reply to EXEC.  The error texts it sets are
overwritten by the empty text of the array. -/
def interpretElements (n : Nat) (failed : Bool × List α × List Int)
    (element : Reply → Except Fault (Int × α)) :
    Reply → Except Fault ((Bool × List α × List Int) × String)
  | .array elements =>
      if elements.length ≠ n then
        .ok (failed, unexpectedReply (.array elements))
      else do
        let results ← elements.mapM element
        let okNum := results.countP fun result => result.1 = 0
        return ((okNum = n, results.map Prod.snd, results.map Prod.fst), "")
  | reply => .ok (failed, unexpectedReply reply)

/-- The result vectors before any element is written. -/
def noResults (n : Nat) (value : α) : Bool × List α × List Int :=
  (false, List.replicate n value, List.replicate n (-1))

/-- A batch method that gets one value for each of `n` keys. -/
def multiValues (c : Client σ) (n : Nat) (cmds : Except Fault (List Command)) (value : α)
    (element : Reply → Except Fault (Int × α)) :
    Except Fault ((Bool × List α × List Int) × Client σ) :=
  transaction answer c (noResults n value) cmds (readQueued n)
    (interpretElements n (noResults n value) element)

/-- A reply of another type leaves the element as it was. -/
def elementValue : Reply → Except Fault (Int × String)
  | .error _ => .ok (-1, "")
  | .string str => .ok (0, str)
  | .nil => .ok (1, "")
  | _ => .ok (-1, "")

def multiGet (c : Client σ) (keys : List String) :
    Except Fault ((Bool × List String × List Int) × Client σ) :=
  multiValues answer c keys.length (.ok (keys.map .get)) "" elementValue

def multiListPopLeft (c : Client σ) (keys : List String) :
    Except Fault ((Bool × List String × List Int) × Client σ) :=
  multiValues answer c keys.length (.ok (keys.map .lpop)) "" elementValue

def multiListPopRight (c : Client σ) (keys : List String) :
    Except Fault ((Bool × List String × List Int) × Client σ) :=
  multiValues answer c keys.length (.ok (keys.map .rpop)) "" elementValue

/-- The commands of `MultiHashGet`, which indexes the fields by the keys. -/
def hgetCommands (keys fields : List String) : Except Fault (List Command) :=
  if fields.length < keys.length then .error .outOfRange
  else .ok (keys.zipWith Command.hget fields)

def multiHashGet (c : Client σ) (keys fields : List String) :
    Except Fault ((Bool × List String × List Int) × Client σ) :=
  multiValues answer c keys.length (hgetCommands keys fields) "" elementValue

def elementFields : Reply → Except Fault (Int × FieldValues)
  | .error _ => .ok (-1, ∅)
  | .array [] => .ok (1, ∅)
  | .array element => do
      let pairs ← fieldValues ∅ element
      return (0, pairs)
  | .nil => .ok (1, ∅)
  | _ => .ok (-1, ∅)

def multiHashGetAllFields (c : Client σ) (keys : List String) :
    Except Fault ((Bool × List FieldValues × List Int) × Client σ) :=
  multiValues answer c keys.length (.ok (keys.map .hgetall)) ∅ elementFields

/-! ## On a connection with nothing unread -/

/-- All that a transaction sends. -/
def inTransaction (cmds : List Command) : List Command :=
  .multi :: (cmds ++ [.exec])

/-- The commands queued behind a MULTI, with their replies. -/
def queuedReplies (s : σ) (cmds : List Command) : List (Command × Reply) :=
  Pipeline.answers answer (answer s .multi).2 cmds

def execReply (s : σ) (cmds : List Command) : Reply :=
  (answer (Pipeline.after answer s (.multi :: cmds)) .exec).1

theorem answers_inTransaction (s : σ) (cmds : List Command) :
    Pipeline.answers answer s (inTransaction cmds) =
      (.multi, (answer s .multi).1) ::
        (queuedReplies answer s cmds ++ [(.exec, execReply answer s cmds)]) := by
  simp [inTransaction, Pipeline.answers, Pipeline.answers_append, queuedReplies, execReply]

/-- The context of a transaction that has read the reply to MULTI. -/
def afterMulti (ctx : RedisContext σ) (cmds : List Command) : RedisContext σ :=
  ((inTransaction cmds).foldl (redisAppendCommand answer) ctx).readTo
    [(.multi, (answer ctx.session .multi).1)]
    (queuedReplies answer ctx.session cmds ++ [(.exec, execReply answer ctx.session cmds)])

@[simp] theorem length_queuedReplies (s : σ) (cmds : List Command) :
    (queuedReplies answer s cmds).length = cmds.length :=
  Pipeline.length_answers answer _ cmds

theorem arriving_afterMulti (ctx : RedisContext σ) (cmds : List Command) :
    (afterMulti answer ctx cmds).arriving = ctx.arriving :=
  RedisContext.arriving_append_all answer ctx (inTransaction cmds)

theorem unread_afterMulti (ctx : RedisContext σ) (cmds : List Command) :
    (afterMulti answer ctx cmds).unread =
      queuedReplies answer ctx.session cmds ++ [(.exec, execReply answer ctx.session cmds)] := rfl

theorem redisCommand_exec {ctx : RedisContext σ} (unbroken : ctx.arriving = none)
    (allRead : ctx.unread = []) (cmds : List Command) :
    redisCommand answer ((Command.multi :: cmds).foldl (redisAppendCommand answer) ctx) .exec =
      (some (answer ctx.session .multi).1, afterMulti answer ctx cmds) := by
  have unread := RedisContext.unread_append_all answer allRead (inTransaction cmds)
  rw [answers_inTransaction] at unread
  have next := redisGetReply_next _
    ((RedisContext.arriving_append_all answer ctx _).trans unbroken) unread none
  rw [afterMulti, ← next, redisCommand]
  simp [inTransaction]

variable {answer}

theorem oneCommand_settled {c : Client σ} {ctx : RedisContext σ} (connected : c.ctx = some ctx)
    (unbroken : ctx.arriving = none) (allRead : ctx.unread = []) (failed : α) (cmd : Command)
    (interpret : Reply → Except Fault (α × String)) :
    oneCommand answer c failed cmd interpret =
      (interpret (answer ctx.session cmd).1).map fun out =>
        (out.1, ⟨some (ctx.exchange answer [cmd]), out.2⟩) := by
  simp [oneCommand, connected, redisCommand_settled answer unbroken allRead]

theorem readQueued_accepted {ctx : RedisContext σ} (unbroken : ctx.arriving = none)
    {queued left : List (Command × Reply)} (unread : ctx.unread = queued ++ left)
    (accepted : ∀ q ∈ queued, q.2.statusIs "QUEUED") :
    readQueued queued.length ctx = (none, ctx.readTo queued left) := by
  induction queued generalizing ctx with
  | nil =>
      simp only [List.nil_append] at unread
      simp [readQueued, RedisContext.readTo, Pipeline.readTo, ← unread]
  | cons q queued ih =>
      rw [List.cons_append] at unread
      have first : q.2.statusIs "QUEUED" = true := accepted q (by simp)
      have rest := @ih (ctx.readTo [q] (queued ++ left)) unbroken rfl
        fun q' inside => accepted q' (List.mem_cons_of_mem _ inside)
      rw [List.length_cons, readQueued, redisGetReply_next ctx unbroken unread]
      simp only [first, if_true]
      rw [rest, RedisContext.readTo_readTo]
      rfl

/-- A reply that is not accepted ends the loop, with all that follows unread. -/
theorem readQueued_rejected {ctx : RedisContext σ} (unbroken : ctx.arriving = none)
    {queued left : List (Command × Reply)} (unread : ctx.unread = queued ++ left)
    (rejected : ¬ ∀ q ∈ queued, q.2.statusIs "QUEUED") :
    ∃ error ctx', readQueued queued.length ctx = (some error, ctx') ∧ left <:+ ctx'.unread := by
  induction queued generalizing ctx with
  | nil => simp at rejected
  | cons q queued ih =>
      rw [List.cons_append] at unread
      rw [List.length_cons, readQueued, redisGetReply_next ctx unbroken unread]
      cases first : q.2.statusIs "QUEUED" with
      | true =>
          simp only [first, if_true]
          exact @ih (ctx.readTo [q] (queued ++ left)) unbroken rfl
            fun rest => rejected (by simpa [first] using rest)
      | false =>
          simp only [first, Bool.false_eq_true, if_false]
          exact ⟨_, _, rfl, List.suffix_append _ _⟩

/-- Where no read fails the pairs are read like any other replies. -/
theorem readQueuedPairs_eq {n : Nat} {ctx : RedisContext σ} (unbroken : ctx.arriving = none)
    (enough : 2 * n ≤ ctx.unread.length) : readQueuedPairs n ctx = readQueued (2 * n) ctx := by
  induction n generalizing ctx with
  | zero => rfl
  | succ n ih =>
      match unread : ctx.unread with
      | [] => simp [unread] at enough
      | [q] =>
          simp only [unread, List.length_singleton] at enough
          omega
      | q :: q' :: left =>
          have first := redisGetReply_next ctx unbroken unread none
          have second := redisGetReply_next (ctx.readTo [q] (q' :: left)) unbroken rfl
          have rest := @ih ((ctx.readTo [q] (q' :: left)).readTo [q'] left) unbroken (by
            simp only [unread, List.length_cons] at enough
            show 2 * n ≤ left.length
            omega)
          rw [readQueuedPairs, show 2 * (n + 1) = 2 * n + 1 + 1 by omega, readQueued, first]
          simp only [second, rest, readQueued]

/-- The loop over the queued replies, on a connection that does not break. -/
def Reads (queued : RedisContext σ → Option String × RedisContext σ) (n : Nat) : Prop :=
  ∀ ctx, ctx.arriving = none → n ≤ ctx.unread.length → queued ctx = readQueued n ctx

theorem reads_readQueued {n m : Nat} (same : n = m) : Reads (readQueued n : RedisContext σ → _) m :=
  fun _ _ _ => by rw [same]

/-- A transaction up to the loop over its queued replies. -/
theorem transaction_queued {c : Client σ} {ctx : RedisContext σ} (connected : c.ctx = some ctx)
    (unbroken : ctx.arriving = none) (allRead : ctx.unread = []) {cmds : List Command}
    {queued : RedisContext σ → Option String × RedisContext σ} (reads : Reads queued cmds.length)
    (failed : α) (interpret : Reply → Except Fault (α × String)) :
    transaction answer c failed (.ok cmds) queued interpret =
      match readQueued cmds.length (afterMulti answer ctx cmds) with
      | (some error, ctx) => .ok (failed, ⟨some ctx, error⟩)
      | (none, ctx) =>
          match redisGetReply ctx none with
          | (none, ctx) => .ok (failed, ⟨some ctx, ctx.errstr⟩)
          | (some reply, ctx) => (interpret reply).map fun out => (out.1, ⟨some ctx, out.2⟩) := by
  have same := reads (afterMulti answer ctx cmds)
    ((arriving_afterMulti answer ctx cmds).trans unbroken) (by simp [unread_afterMulti])
  simp only [transaction, connected, redisCommand_exec answer unbroken allRead, same]

/-- A transaction whose commands are all queued reads all its replies. -/
theorem transaction_accepted {c : Client σ} {ctx : RedisContext σ} (connected : c.ctx = some ctx)
    (unbroken : ctx.arriving = none) (allRead : ctx.unread = []) {cmds : List Command}
    {queued : RedisContext σ → Option String × RedisContext σ} (reads : Reads queued cmds.length)
    (accepted : ∀ q ∈ queuedReplies answer ctx.session cmds, q.2.statusIs "QUEUED")
    (failed : α) (interpret : Reply → Except Fault (α × String)) :
    transaction answer c failed (.ok cmds) queued interpret =
      (interpret (execReply answer ctx.session cmds)).map fun out =>
        (out.1, ⟨some (ctx.exchange answer (inTransaction cmds)), out.2⟩) := by
  have stillUnbroken := (arriving_afterMulti answer ctx cmds).trans unbroken
  have loop := readQueued_accepted stillUnbroken (unread_afterMulti answer ctx cmds) accepted
  have last := redisGetReply_next
    ((afterMulti answer ctx cmds).readTo (queuedReplies answer ctx.session cmds)
      [(.exec, execReply answer ctx.session cmds)]) stillUnbroken rfl none
  rw [length_queuedReplies] at loop
  have whole : ((afterMulti answer ctx cmds).readTo (queuedReplies answer ctx.session cmds)
      [(.exec, execReply answer ctx.session cmds)]).readTo
        [(.exec, execReply answer ctx.session cmds)] [] =
      ctx.exchange answer (inTransaction cmds) := by
    rw [afterMulti, RedisContext.readTo_readTo, RedisContext.readTo_readTo,
      ← RedisContext.readTo_append_all, answers_inTransaction]
    rfl
  simp only [transaction_queued connected unbroken allRead reads, loop, last, whole]

/-- A transaction with a command that is not queued leaves the reply to EXEC unread. -/
theorem transaction_rejected {c : Client σ} {ctx : RedisContext σ} (connected : c.ctx = some ctx)
    (unbroken : ctx.arriving = none) (allRead : ctx.unread = []) {cmds : List Command}
    {queued : RedisContext σ → Option String × RedisContext σ} (reads : Reads queued cmds.length)
    (rejected : ¬ ∀ q ∈ queuedReplies answer ctx.session cmds, q.2.statusIs "QUEUED")
    (failed : α) (interpret : Reply → Except Fault (α × String)) :
    ∃ error ctx', transaction answer c failed (.ok cmds) queued interpret =
      .ok (failed, ⟨some ctx', error⟩) ∧ ctx'.unread ≠ [] := by
  have stillUnbroken := (arriving_afterMulti answer ctx cmds).trans unbroken
  obtain ⟨error, ctx', stop, left⟩ :=
    readQueued_rejected stillUnbroken (unread_afterMulti answer ctx cmds) rejected
  rw [length_queuedReplies] at stop
  rw [transaction_queued connected unbroken allRead reads, stop]
  refine ⟨error, ctx', rfl, ?_⟩
  intro none
  simp [none] at left

end Client

end RecommEngine.Redis
