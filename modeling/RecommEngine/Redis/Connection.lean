/-
# Redis.Connection -- a client, a server and the bytes between them

A blocking hiredis client (`Hiredis.Context`) and the server (`RedisServer.Networking`) on
one connection.  The sockets carry bytes in order; every `read` and `write`, on either
side, moves some of them, as many as it likes within what its caller asks for, and
the events come in any order.

The commands are those that the server takes and that do not end the connection
(`Sendable`); each is answered at once, with a reply the client can read (`Proper`).  A
`QUIT` or a command that blocks is left to `RedisServer.CommandStream`.

`Linked` says where the bytes of the commands and of the replies are: sent and not
executed, executed and not read, read and not returned.  It holds in every run
(`linked_run`), and gives

* `replies_in_turn`: what `redisGetReply` returns, call after call, are the replies to
  the commands in the order they were appended, and neither side sees a protocol
  error.  This is the pipeline that `Redis.Hiredis` is built on.
* `getReply_returns`: a client that waits in `redisGetReply` for a reply it is owed does not
  wait for ever: there is always a way to deliver what is in transit, and then the
  call returns that reply.
-/
import RecommEngine.Hiredis.Context
import RecommEngine.RedisServer.CommandStream
import RecommEngine.Theory.Run

namespace RecommEngine.Redis

set_option autoImplicit false

open Theory
open Theory.ByteStream (Bytes)
open Hiredis
open RedisServer
open RedisServer.RedisClient (Acceptable Waiting answering replies)

/-- Both ends, and what is in transit.  `sent` records the commands appended. -/
structure Link (σ : Type) where
  caller : RedisCaller := {}
  toServer : Bytes := []
  toClient : Bytes := []
  server : RedisClient σ
  sent : List (List Bytes) := []

inductive Event where
  /-- A command that was formatted goes to the output buffer. -/
  | append (cmd : List Bytes)
  | redisGetReply
  /-- `write` takes up to `n` bytes. -/
  | clientWrites (n : Nat)
  | clientWriteFails
  /-- `read` gives up to `n` bytes. -/
  | clientReads (n : Nat)
  | clientReadFails
  | clientReadsEof
  | serverReads (n : Nat)
  | serverWrites (n : Nat)

namespace Link

variable {σ : Type} (execute : σ → List Bytes → RedisReply × σ)

def clientWrites (l : Link σ) (n : Nat) : Link σ :=
  let obuf := l.caller.context.obuf
  let k := if l.caller.context.err.isSome then 0 else n
  { l with caller := l.caller.turnWrite (.written n), toServer := l.toServer ++ obuf.take k }

/-- A read of 16k, which blocks while there is nothing; with an error nothing is read. -/
def clientReads (l : Link σ) (n : Nat) : Link σ :=
  let k := if l.caller.context.err.isSome then 0 else min n (1024 * 16)
  let bytes := l.toClient.take k
  if bytes = [] ∧ l.caller.context.err.isSome = false then l
  else { l with caller := l.caller.turnRead (.bytes bytes), toClient := l.toClient.drop k }

def serverReads (l : Link σ) (n : Nat) : Link σ :=
  let k := min n l.server.readlen
  let bytes := l.toServer.take k
  if bytes = [] then l
  else
    { l with
      server := l.server.readQueryFromClient (answering execute) bytes, toServer := l.toServer.drop k }

def serverWrites (l : Link σ) (n : Nat) : Link σ :=
  { l with
    server := { l.server with reply := l.server.reply.drop n }
    toClient := l.toClient ++ l.server.reply.take n }

/-- An event that its side is not at is none. -/
def step (l : Link σ) : Event → Link σ
  | .append cmd =>
      if l.caller.phase = .outside then
        { l with
          caller := { l.caller with context := l.caller.context.appendFormatted (multibulk cmd) }
          sent := l.sent ++ [cmd] }
      else l
  | .redisGetReply =>
      if l.caller.phase = .outside then { l with caller := l.caller.redisGetReply } else l
  | .clientWrites n => if l.caller.phase = .writing then l.clientWrites n else l
  | .clientWriteFails =>
      if l.caller.phase = .writing then { l with caller := l.caller.turnWrite .failed } else l
  | .clientReads n => if l.caller.phase = .reading then l.clientReads n else l
  | .clientReadFails =>
      if l.caller.phase = .reading then { l with caller := l.caller.turnRead .failed } else l
  | .clientReadsEof =>
      if l.caller.phase = .reading then { l with caller := l.caller.turnRead .eof } else l
  | .serverReads n => l.serverReads execute n
  | .serverWrites n => l.serverWrites n

/-- A command that the server takes, and that does not end the connection. -/
structure Answerable (cmd : List Bytes) : Prop where
  acceptable : Acceptable cmd
  noQuit : isQuit cmd = false

/-- What a client may append. -/
def Sendable (_ : Link σ) : Event → Prop
  | .append cmd => Answerable cmd
  | _ => True

/-! ## Where the bytes are -/

/-- The commands `sent` are `done`, which were executed, and those to come; the replies
to `done` are `fed` to the client's reader, in transit, or in the server's buffer.  A
client inside `redisGetReply` has asked the reader, and there was no reply; one in its
second loop has written all it had. -/
structure Linked (s : σ) (l : Link σ) (done left : List (List Bytes)) (fed : Bytes) : Prop where
  sent : l.sent = done ++ left
  answerable : ∀ cmd ∈ l.sent, Answerable cmd
  waiting : Waiting (Pipeline.after execute s done) l.server.reply left
    (l.toServer ++ l.caller.context.obuf) l.server
  bytes : fed ++ (l.toClient ++ l.server.reply) = replies execute s done
  ready : l.caller.context.reader.Ready
  parsed : parser.Steps ⟨.ok [RedisReader.root], fed⟩ l.caller.got l.caller.context.reader.config
  asked : l.caller.phase ≠ .outside → parser.Waits l.caller.context.reader.config
  flushed : l.caller.phase = .reading → l.caller.context.obuf = []

/-! ## The reader -/

section Reader

variable {rs : List RedisReply} (wellFormed : ∀ reply ∈ rs, WellFormed reply)
  (shallow : ∀ reply ∈ rs, Shallow reply)

include wellFormed shallow

/-- On the bytes of some replies the parser is on its way through them. -/
theorem parsed_split {fed rest : Bytes} (bytes : fed ++ rest = (rs.map encode).flatten)
    {got : List RedisReply} {c : Incremental.Config ParserState UInt8}
    (parsed : parser.Steps ⟨.ok [RedisReader.root], fed⟩ got c) :
    ∃ left, parser.Steps (c.more rest) left ⟨.ok [RedisReader.root], []⟩ ∧ rs = got ++ left := by
  have run := root_steps_all (wires_of_shallow wellFormed shallow) []
  rw [List.append_nil, ← bytes] at run
  exact (parsed.append rest).split run rfl

theorem not_parsed_error {fed rest : Bytes} (bytes : fed ++ rest = (rs.map encode).flatten)
    {got : List RedisReply} {error : ReaderError} {left : Bytes} :
    ¬ parser.Steps ⟨.ok [RedisReader.root], fed⟩ got ⟨.error error, left⟩ := by
  intro parsed
  obtain ⟨_, stuck, -⟩ := parsed_split wellFormed shallow bytes parsed
  cases stuck with
  | head first _ => cases first

/-- A call for a reply: the next one, or none because its bytes have not all come. -/
theorem getReplyFromReader_cases {fed rest : Bytes} (bytes : fed ++ rest = (rs.map encode).flatten)
    {got : List RedisReply} (context : Hiredis.RedisContext) (ready : context.reader.Ready)
    (parsed : parser.Steps ⟨.ok [RedisReader.root], fed⟩ got context.reader.config) :
    ∃ reply reader, context.redisGetReplyFromReader = (true, reply, { context with reader }) ∧
      reader.Ready ∧ parser.Steps ⟨.ok [RedisReader.root], fed⟩ (got ++ reply.toList) reader.config ∧
      (reply = none → parser.Waits reader.config) := by
  have outcome := RedisReader.redisReaderGetReply_outcome ready
  rw [Hiredis.RedisContext.redisGetReplyFromReader]
  generalize context.reader.redisReaderGetReply = out at outcome
  cases outcome with
  | @reply after reply ready' emptied run fewer =>
      exact ⟨some reply, after, rfl, ready', parsed.trans run, by simp⟩
  | @waits after ready' run waits =>
      exact ⟨none, after, rfl, ready', parsed.trans run, fun _ => waits⟩
  | fails error left stopped run =>
      exact absurd (parsed.trans run) (not_parsed_error wellFormed shallow bytes)

end Reader

/-! ## Every event keeps it -/

variable {execute} {s : σ} {l : Link σ} {done left : List (List Bytes)} {fed : Bytes}

/-- The replies to some commands. -/
def answered (execute : σ → List Bytes → RedisReply × σ) (s : σ) (cmds : List (List Bytes)) :
    List RedisReply :=
  (Pipeline.answers execute s cmds).map Prod.snd

theorem replies_eq (cmds : List (List Bytes)) :
    replies execute s cmds = ((answered execute s cmds).map encode).flatten := by
  simp [replies, answered, Function.comp_def]

theorem replies_append (cmds more : List (List Bytes)) :
    replies execute s (cmds ++ more) =
      replies execute s cmds ++ replies execute (Pipeline.after execute s cmds) more := by
  simp [replies, Pipeline.answers_append]

/-- Every reply is one that a client can read: well formed, and no array nests more than
eight deep. -/
def Proper (execute : σ → List Bytes → RedisReply × σ) : Prop :=
  ∀ s cmd, WellFormed (execute s cmd).1 ∧ Shallow (execute s cmd).1

theorem Proper.answered {execute : σ → List Bytes → RedisReply × σ} (proper : Proper execute) (s : σ)
    (cmds : List (List Bytes)) :
    (∀ reply ∈ answered execute s cmds, WellFormed reply) ∧
      ∀ reply ∈ answered execute s cmds, Shallow reply := by
  induction cmds generalizing s with
  | nil => simp [Link.answered, Pipeline.answers]
  | cons cmd cmds ih =>
      have first := proper s cmd
      have later := ih (execute s cmd).2
      simp only [Link.answered, Pipeline.answers, List.map_cons, List.mem_cons, forall_eq_or_imp]
      exact ⟨⟨first.1, later.1⟩, ⟨first.2, later.2⟩⟩

theorem Linked.append (linked : Linked execute s l done left fed) {cmd : List Bytes}
    (answerable : Answerable cmd) (outside : l.caller.phase = .outside) :
    Linked execute s { l with
      caller := { l.caller with context := l.caller.context.appendFormatted (multibulk cmd) }
      sent := l.sent ++ [cmd] } done (left ++ [cmd]) fed where
  sent := by simp [linked.sent]
  answerable := by
    intro cmd inside
    rcases List.mem_append.mp inside with before | here
    · exact linked.answerable cmd before
    · rw [List.mem_singleton.mp here]
      exact answerable
  waiting := by
    have more := linked.waiting.append cmd
    rwa [List.append_assoc] at more
  bytes := linked.bytes
  ready := linked.ready
  parsed := linked.parsed
  asked := linked.asked
  flushed := by simp [outside]

theorem Linked.answerable_left (linked : Linked execute s l done left fed) :
    ∀ cmd ∈ left, Answerable cmd := by
  intro cmd inside
  refine linked.answerable cmd ?_
  rw [linked.sent]
  exact List.mem_append_right _ inside

/-- What a client does to its context and its reader, without moving bytes. -/
theorem Linked.withCaller (linked : Linked execute s l done left fed) {caller : RedisCaller}
    (obuf : caller.context.obuf = l.caller.context.obuf) (ready : caller.context.reader.Ready)
    (parsed : parser.Steps ⟨.ok [RedisReader.root], fed⟩ caller.got caller.context.reader.config)
    (asked : caller.phase ≠ .outside → parser.Waits caller.context.reader.config)
    (flushed : caller.phase = .reading → caller.context.obuf = []) :
    Linked execute s { l with caller } done left fed :=
  { linked with
    waiting := by
      show Waiting _ _ _ (l.toServer ++ caller.context.obuf) _
      rw [obuf]
      exact linked.waiting
    ready
    parsed
    asked
    flushed }

/-- A call of `redisGetReply` returns. -/
theorem Linked.returned (linked : Linked execute s l done left fed) {context : Hiredis.RedisContext}
    {reply : Option RedisReply} (obuf : context.obuf = l.caller.context.obuf)
    (ready : context.reader.Ready)
    (parsed : parser.Steps ⟨.ok [RedisReader.root], fed⟩ (l.caller.got ++ reply.toList)
      context.reader.config) :
    Linked execute s { l with caller := .returns context l.caller.got reply } done left fed :=
  linked.withCaller obuf ready parsed (fun inside => absurd rfl inside) (by simp [RedisCaller.returns])

theorem Linked.redisGetReply (proper : Proper execute) (linked : Linked execute s l done left fed) :
    Linked execute s { l with caller := l.caller.redisGetReply } done left fed := by
  have bytes := linked.bytes
  rw [replies_eq] at bytes
  obtain ⟨reply, reader, taken, ready, parsed, waits⟩ := getReplyFromReader_cases
    (proper.answered s done).1 (proper.answered s done).2 bytes l.caller.context linked.ready linked.parsed
  cases reply with
  | none =>
      have same : l.caller.redisGetReply =
          { l.caller with context := { l.caller.context with reader }, phase := .writing } := by
        rw [RedisCaller.redisGetReply, taken]
      rw [same]
      exact linked.withCaller rfl ready (by simpa using parsed) (fun _ => waits rfl) (by simp)
  | some reply =>
      have same : l.caller.redisGetReply =
          .returns { l.caller.context with reader } l.caller.got (some reply) := by
        rw [RedisCaller.redisGetReply, taken]
      rw [same]
      exact linked.returned rfl ready parsed

/-- A write moves the front of the output buffer, or nothing if there was an error. -/
theorem turnWrite_written (c : RedisCaller) (n : Nat) :
    ∃ phase, c.turnWrite (.written n) =
        { context := { c.context with
            obuf := c.context.obuf.drop (if c.context.err.isSome then 0 else n) }
          phase, got := c.got } ∧
      (c.phase = .writing → phase = .reading →
        c.context.obuf.drop (if c.context.err.isSome then 0 else n) = []) := by
  rw [RedisCaller.turnWrite]
  obtain clean | ⟨error, broken⟩ := Option.eq_none_or_eq_some c.context.err
  · rw [Hiredis.RedisContext.redisBufferWrite_clean clean, if_neg (by simp [clean])]
    cases all : decide ((c.context.obuf.drop n).length = 0) with
    | true => exact ⟨.reading, rfl, fun _ _ => List.length_eq_zero_iff.mp (of_decide_eq_true all)⟩
    | false => exact ⟨c.phase, rfl, fun writing reading => by simp [writing] at reading⟩
  · rw [Hiredis.RedisContext.redisBufferWrite, if_pos (by simp [broken]), if_pos (by simp [broken])]
    exact ⟨.outside, by simp [RedisCaller.returns], by simp⟩

theorem turnWrite_failed (c : RedisCaller) :
    ∃ err phase, c.turnWrite .failed = { context := { c.context with err }, phase, got := c.got } ∧
      (phase = .reading → c.context.obuf = []) := by
  rw [RedisCaller.turnWrite]
  by_cases broken : c.context.err.isSome
  · rw [Hiredis.RedisContext.redisBufferWrite, if_pos broken]
    exact ⟨c.context.err, .outside, by simp [RedisCaller.returns], by simp⟩
  · rw [Hiredis.RedisContext.redisBufferWrite, if_neg broken]
    by_cases some_ : c.context.obuf.length > 0
    · rw [if_pos some_]
      exact ⟨some .io, .outside, by simp [RedisCaller.returns, Hiredis.RedisContext.setError], by simp⟩
    · rw [if_neg some_]
      exact ⟨c.context.err, .reading, rfl, fun _ => List.length_eq_zero_iff.mp (by omega)⟩

theorem turnRead_failed (c : RedisCaller) {nread : ReadResult} (none_ : nread = .failed ∨ nread = .eof) :
    ∃ err, c.turnRead nread = .returns { c.context with err } c.got none := by
  by_cases broken : c.context.err.isSome
  · have early : c.context.redisBufferRead nread = (false, c.context) := by
      unfold Hiredis.RedisContext.redisBufferRead
      rw [if_pos broken]
    rw [RedisCaller.turnRead, early]
    exact ⟨c.context.err, rfl⟩
  · rcases none_ with rfl | rfl
    · rw [RedisCaller.turnRead, Hiredis.RedisContext.redisBufferRead, if_neg broken]
      exact ⟨some .io, rfl⟩
    · rw [RedisCaller.turnRead, Hiredis.RedisContext.redisBufferRead, if_neg broken]
      exact ⟨some .eof, rfl⟩

theorem Linked.clientWrites (linked : Linked execute s l done left fed)
    (inside : l.caller.phase = .writing) (n : Nat) :
    Linked execute s (l.clientWrites n) done left fed := by
  obtain ⟨phase, same, flushed⟩ := turnWrite_written l.caller n
  rw [Link.clientWrites, same]
  exact { linked with
    asked := fun _ => linked.asked (by simp [inside])
    flushed := flushed inside
    waiting := by
      dsimp only
      rw [List.append_assoc, List.take_append_drop]
      exact linked.waiting }

theorem Linked.clientWriteFails (linked : Linked execute s l done left fed)
    (inside : l.caller.phase = .writing) :
    Linked execute s { l with caller := l.caller.turnWrite .failed } done left fed := by
  obtain ⟨err, phase, same, flushed⟩ := turnWrite_failed l.caller
  rw [same]
  exact linked.withCaller rfl linked.ready linked.parsed (fun _ => linked.asked (by simp [inside])) flushed

theorem Linked.clientReadFails (linked : Linked execute s l done left fed) {nread : ReadResult}
    (none_ : nread = .failed ∨ nread = .eof) :
    Linked execute s { l with caller := l.caller.turnRead nread } done left fed := by
  obtain ⟨err, same⟩ := turnRead_failed l.caller none_
  rw [same]
  exact linked.returned rfl linked.ready (by simpa using linked.parsed)

/-- A piece of the replies is fed to the reader, and the next reply is taken if it is there. -/
theorem Linked.feed (proper : Proper execute) (linked : Linked execute s l done left fed)
    (clean : l.caller.context.err = none) (k : Nat) :
    ∃ reply reader, l.caller.turnRead (.bytes (l.toClient.take k)) =
        (match reply with
          | some reply => .returns { l.caller.context with reader } l.caller.got (some reply)
          | none => { l.caller with context := { l.caller.context with reader } }) ∧
      reader.Ready ∧
      parser.Steps ⟨.ok [RedisReader.root], fed ++ l.toClient.take k⟩ (l.caller.got ++ reply.toList)
        reader.config ∧
      (reply = none → parser.Waits reader.config) := by
  obtain ⟨fedReady, fedConfig⟩ := linked.ready.feed (l.toClient.take k)
  have bytes : fed ++ l.toClient.take k ++ (l.toClient.drop k ++ l.server.reply) =
      ((answered execute s done).map encode).flatten := by
    rw [← replies_eq, ← linked.bytes, List.append_assoc, ← List.append_assoc (l.toClient.take k),
      List.take_append_drop]
  have parsed := linked.parsed.append (l.toClient.take k)
  rw [← fedConfig] at parsed
  obtain ⟨reply, reader, taken, ready, parsed', waits⟩ := getReplyFromReader_cases
    (proper.answered s done).1 (proper.answered s done).2 bytes { l.caller.context with
      reader := (l.caller.context.reader.redisReaderFeed (l.toClient.take k)).2 } fedReady parsed
  refine ⟨reply, reader, ?_, ready, parsed', waits⟩
  rw [RedisCaller.turnRead, Hiredis.RedisContext.redisBufferRead_clean clean linked.ready]
  dsimp only
  rw [taken]
  cases reply <;> rfl

theorem Linked.clientReads (proper : Proper execute) (linked : Linked execute s l done left fed)
    (n : Nat) : ∃ fed', Linked execute s (l.clientReads n) done left fed' := by
  rw [Link.clientReads]
  obtain clean | ⟨error, broken⟩ := Option.eq_none_or_eq_some l.caller.context.err
  · simp only [clean, Option.isSome_none, Bool.false_eq_true, if_false, and_true]
    split
    · exact ⟨fed, linked⟩
    · obtain ⟨reply, reader, same, ready, parsed, waits⟩ :=
        linked.feed proper clean (min n (1024 * 16))
      rw [same]
      refine ⟨fed ++ l.toClient.take (min n (1024 * 16)), { linked with
        waiting := ?_, bytes := ?_, ready := ?_, parsed := ?_, asked := ?_, flushed := ?_ }⟩
      · cases reply <;> exact linked.waiting
      · dsimp only
        rw [← linked.bytes, List.append_assoc, ← List.append_assoc (List.take _ _),
          List.take_append_drop]
      · cases reply <;> exact ready
      · cases reply with
        | none => simpa using parsed
        | some reply => exact parsed
      · cases reply with
        | none => exact fun _ => waits rfl
        | some reply => exact fun inside => absurd rfl inside
      · cases reply with
        | none => exact linked.flushed
        | some reply => simp [RedisCaller.returns]
  · have nothing : l.caller.turnRead (.bytes []) = .returns l.caller.context l.caller.got none := by
      rw [RedisCaller.turnRead, Hiredis.RedisContext.redisBufferRead, if_pos (by simp [broken])]
    simp only [broken, Option.isSome_some, if_true, List.take_zero, List.drop_zero, Bool.true_eq_false,
      and_false, if_false]
    rw [nothing]
    exact ⟨fed, linked.returned rfl linked.ready (by simpa using linked.parsed)⟩

/-- The server reads, and executes the commands that have become complete. -/
theorem Linked.serverReads (linked : Linked execute s l done left fed) (n : Nat) :
    ∃ done' left', Linked execute s (l.serverReads execute n) done' left' fed := by
  rw [Link.serverReads]
  split
  · exact ⟨done, left, linked⟩
  · have waiting := linked.waiting
    rw [← List.take_append_drop (min n l.server.readlen) l.toServer, List.append_assoc] at waiting
    have asked : (l.toServer.take (min n l.server.readlen)).length ≤ l.server.readlen := by
      rw [List.length_take]
      omega
    obtain ⟨more, left', rfl, waiting'⟩ := RedisClient.readQueryFromClient_waiting execute
      (fun cmd inside => (linked.answerable_left cmd inside).acceptable)
      (fun cmd inside => (linked.answerable_left cmd inside).noQuit) waiting asked
    have reply := waiting'.state.2.1
    refine ⟨done ++ more, left', ?_⟩
    exact { linked with
      sent := by rw [linked.sent, List.append_assoc]
      waiting := by
        dsimp only
        rw [Pipeline.after_append, reply]
        exact waiting'
      bytes := by
        dsimp only
        rw [reply, replies_append, ← linked.bytes]
        simp }

theorem Linked.serverWrites (linked : Linked execute s l done left fed) (n : Nat) :
    Linked execute s (l.serverWrites n) done left fed :=
  { linked with
    waiting := linked.waiting.writes _
    bytes := by
      rw [← linked.bytes]
      simp [Link.serverWrites] }

/-- Every event keeps the bytes in their places. -/
theorem Linked.step (proper : Proper execute) (linked : Linked execute s l done left fed)
    (event : Event) (sendable : l.Sendable event) :
    ∃ done' left' fed', Linked execute s (l.step execute event) done' left' fed' := by
  cases event with
  | append cmd =>
      rw [Link.step]
      split
      · rename_i outside
        exact ⟨done, left ++ [cmd], fed, linked.append sendable outside⟩
      · exact ⟨done, left, fed, linked⟩
  | redisGetReply =>
      rw [Link.step]
      split
      · exact ⟨done, left, fed, linked.redisGetReply proper⟩
      · exact ⟨done, left, fed, linked⟩
  | clientWrites n =>
      rw [Link.step]
      split
      · rename_i inside
        exact ⟨done, left, fed, linked.clientWrites inside n⟩
      · exact ⟨done, left, fed, linked⟩
  | clientWriteFails =>
      rw [Link.step]
      split
      · rename_i inside
        exact ⟨done, left, fed, linked.clientWriteFails inside⟩
      · exact ⟨done, left, fed, linked⟩
  | clientReads n =>
      rw [Link.step]
      split
      · exact ⟨done, left, linked.clientReads proper n⟩
      · exact ⟨done, left, fed, linked⟩
  | clientReadFails =>
      rw [Link.step]
      split
      · exact ⟨done, left, fed, linked.clientReadFails (Or.inl rfl)⟩
      · exact ⟨done, left, fed, linked⟩
  | clientReadsEof =>
      rw [Link.step]
      split
      · exact ⟨done, left, fed, linked.clientReadFails (Or.inr rfl)⟩
      · exact ⟨done, left, fed, linked⟩
  | serverReads n =>
      obtain ⟨done', left', linked'⟩ := linked.serverReads n
      exact ⟨done', left', fed, linked'⟩
  | serverWrites n => exact ⟨done, left, fed, linked.serverWrites n⟩

/-- A connection on which nothing was sent. -/
theorem linked_start (execute : σ → List Bytes → RedisReply × σ) (s : σ) :
    Linked execute s { server := { session := s } } [] [] [] where
  sent := rfl
  answerable := by simp
  waiting := by
    refine .idle ⟨rfl, rfl, rfl, rfl, rfl, Or.inl rfl, rfl, rfl, rfl⟩ rfl (by simp) ?_
    show 0 < 18
    omega
  bytes := rfl
  ready := RedisReader.create_ready
  parsed := .refl _
  asked := fun inside => absurd rfl inside
  flushed := fun _ => rfl

theorem linked_run (proper : Proper execute) {events : List Event}
    (along : Run.Along (Link.step execute) Sendable { server := { session := s } } events) :
    ∃ done left fed, Linked execute s
      (Run.run (Link.step execute) { server := { session := s } } events) done left fed := by
  refine along.invariant (I := fun l => ∃ done left fed, Linked execute s l done left fed) ?_
    ⟨[], [], [], linked_start execute s⟩
  rintro l event ⟨done, left, fed, linked⟩ sendable
  exact linked.step proper event sendable

/-! ## Replies in turn -/

theorem answered_append (cmds more : List (List Bytes)) :
    answered execute s (cmds ++ more) =
      answered execute s cmds ++ answered execute (Pipeline.after execute s cmds) more := by
  simp [answered, Pipeline.answers_append]

/-- What the client got is the front of the replies to what was executed. -/
theorem Linked.got_prefix (proper : Proper execute) (linked : Linked execute s l done left fed) :
    l.caller.got <+: answered execute s done := by
  have bytes := linked.bytes
  rw [replies_eq] at bytes
  obtain ⟨rest, -, split⟩ := parsed_split (proper.answered s done).1 (proper.answered s done).2 bytes
    linked.parsed
  exact ⟨rest, split.symm⟩

/-- **Replies come in turn**, for commands of up to 1048576 arguments of 512 MB that are not
`QUIT` (`Sendable`), each answered at once with a reply that nests no deeper than the
reader can read (`Proper`).  Whatever the interleaving, the partial reads and writes and
the failures of the sockets: the replies that `redisGetReply` has returned are those of the
server to the first commands appended, in order, and neither side has seen a
protocol error. -/
theorem replies_in_turn (proper : Proper execute) (events : List Event)
    (along : Run.Along (Link.step execute) Sendable { server := { session := s } } events) :
    (Run.run (Link.step execute) { server := { session := s } } events).caller.got <+:
        answered execute s
          (Run.run (Link.step execute) { server := { session := s } } events).sent ∧
      (Run.run (Link.step execute) { server := { session := s } } events).caller.context.reader.err =
        none ∧
      (Run.run (Link.step execute) { server := { session := s } } events).server.closeAfterReply =
        false := by
  obtain ⟨done, left, fed, linked⟩ := linked_run proper along
  refine ⟨?_, linked.ready.clean, linked.waiting.state.2.2.1⟩
  rw [linked.sent, answered_append]
  exact (linked.got_prefix proper).trans (List.prefix_append _ _)

/-! ## No wait for ever -/

/-- The event only moves bytes on. -/
def Delivers : Event → Prop
  | .clientWrites _ => True
  | .clientReads _ => True
  | .serverReads _ => True
  | .serverWrites _ => True
  | _ => False

/-- One link comes from another by moving bytes on. -/
def Delivered (execute : σ → List Bytes → RedisReply × σ) (l l' : Link σ) : Prop :=
  ∃ events, (∀ event ∈ events, Delivers event) ∧ Run.run (Link.step execute) l events = l'

theorem Delivered.refl (l : Link σ) : Delivered execute l l :=
  ⟨[], by simp, rfl⟩

theorem Delivered.head {l' : Link σ} {event : Event} (first : Delivers event)
    (then_ : Delivered execute (l.step execute event) l') : Delivered execute l l' := by
  obtain ⟨events, delivers, rfl⟩ := then_
  exact ⟨event :: events, by simpa [first] using delivers, rfl⟩

theorem Delivered.trans {l' l'' : Link σ} (first : Delivered execute l l')
    (second : Delivered execute l' l'') : Delivered execute l l'' := by
  obtain ⟨events, delivers, rfl⟩ := first
  obtain ⟨events', delivers', rfl⟩ := second
  refine ⟨events ++ events', ?_, Run.run_append ..⟩
  intro event inside
  rcases List.mem_append.mp inside with inside | inside
  · exact delivers event inside
  · exact delivers' event inside

/-- When nothing is in transit and the reader waits, every reply was returned. -/
theorem Linked.all_got (proper : Proper execute) (linked : Linked execute s l done left fed)
    (noCommand : l.toServer ++ l.caller.context.obuf = [])
    (noReply : l.toClient ++ l.server.reply = [])
    (waits : parser.Waits l.caller.context.reader.config) :
    l.caller.got = answered execute s l.sent := by
  have waiting := linked.waiting
  rw [noCommand] at waiting
  obtain ⟨read, whole, short⟩ := waiting.incomplete fun cmd inside =>
    (linked.answerable_left cmd inside).acceptable
  rw [List.append_nil] at whole
  have executed : left = [] := by
    cases left with
    | nil => rfl
    | cons next left =>
        have := short next rfl
        rw [whole, List.map_cons, List.flatten_cons, List.length_append] at this
        omega
  have bytes := linked.bytes
  rw [replies_eq, noReply] at bytes
  obtain ⟨rest, stuck, split⟩ := parsed_split (proper.answered s done).1 (proper.answered s done).2
    bytes linked.parsed
  rw [Incremental.Config.more_nil] at stuck
  rw [linked.sent, executed, List.append_nil, split, (stuck.of_waits waits).2, List.append_nil]

/-- What a read of the server leaves alone. -/
theorem serverReads_frame (execute : σ → List Bytes → RedisReply × σ) (l : Link σ) (n : Nat) :
    (l.serverReads execute n).caller = l.caller ∧ (l.serverReads execute n).sent = l.sent ∧
      (l.serverReads execute n).toServer = l.toServer.drop (min n l.server.readlen) := by
  rw [Link.serverReads]
  split
  · rename_i nothing
    refine ⟨rfl, rfl, ?_⟩
    have all := List.take_append_drop (min n l.server.readlen) l.toServer
    rw [nothing, List.nil_append] at all
    exact all.symm
  · exact ⟨rfl, rfl, rfl⟩

/-- The server reads all that was written to it. -/
theorem deliver_commands (linked : Linked execute s l done left fed) :
    ∃ l' done' left', Delivered execute l l' ∧ Linked execute s l' done' left' fed ∧
      l'.toServer = [] ∧ l'.caller = l.caller ∧ l'.sent = l.sent := by
  obtain ⟨size, size_eq⟩ : ∃ size, l.toServer.length = size := ⟨_, rfl⟩
  induction size using Nat.strong_induction_on generalizing l done left with
  | _ size ih =>
      by_cases empty : l.toServer = []
      · exact ⟨l, done, left, .refl l, linked, empty, rfl, rfl⟩
      · have some_ : 0 < l.toServer.length := List.length_pos_iff.mpr empty
        have asks := linked.waiting.readlen_pos
        obtain ⟨sameCaller, sameSent, shorter⟩ := serverReads_frame execute l size
        obtain ⟨done', left', linked'⟩ := linked.serverReads size
        have fewer : (l.serverReads execute size).toServer.length < size := by
          rw [shorter, List.length_drop]
          omega
        obtain ⟨l', done'', left'', delivered, linked'', noCommand, caller, sent⟩ :=
          ih _ fewer linked' rfl
        have first : Delivers (.serverReads size) := trivial
        exact ⟨l', done'', left'', .head first delivered, linked'', noCommand,
          caller.trans sameCaller, sent.trans sameSent⟩

/-- The client reads until it has a reply, or there is nothing more to read. -/
theorem deliver_replies (proper : Proper execute) (linked : Linked execute s l done left fed)
    (inside : l.caller.phase = .reading) (clean : l.caller.context.err = none) :
    ∃ l' fed', Delivered execute l l' ∧ Linked execute s l' done left fed' ∧ l'.sent = l.sent ∧
      l'.toServer = l.toServer ∧ l'.server = l.server ∧
      ((l'.caller.phase = .outside ∧ ∃ reply, l'.caller.got = l.caller.got ++ [reply]) ∨
        l'.caller.phase = .reading ∧ l'.caller.got = l.caller.got ∧ l'.toClient = []) := by
  obtain ⟨size, size_eq⟩ : ∃ size, l.toClient.length = size := ⟨_, rfl⟩
  induction size using Nat.strong_induction_on generalizing l fed with
  | _ size ih =>
      by_cases empty : l.toClient = []
      · exact ⟨l, fed, .refl l, linked, rfl, rfl, rfl, Or.inr ⟨inside, rfl, empty⟩⟩
      · have some_ : 0 < l.toClient.length := List.length_pos_iff.mpr empty
        obtain ⟨reply, reader, same, -, -, -⟩ := linked.feed proper clean (min size (1024 * 16))
        have taken : l.toClient.take (min size (1024 * 16)) ≠ [] := by
          rw [ne_eq, ← List.length_eq_zero_iff, List.length_take]
          omega
        have next : l.step execute (.clientReads size) = { l with
            caller := l.caller.turnRead (.bytes (l.toClient.take (min size (1024 * 16))))
            toClient := l.toClient.drop (min size (1024 * 16)) } := by
          rw [Link.step, if_pos inside, Link.clientReads]
          simp only [clean, Option.isSome_none, Bool.false_eq_true, if_false, and_true]
          exact if_neg taken
        obtain ⟨fed', linked'⟩ : ∃ fed',
            Linked execute s (l.step execute (.clientReads size)) done left fed' := by
          rw [Link.step, if_pos inside]
          exact linked.clientReads proper size
        have first : Delivers (.clientReads size) := trivial
        rw [next, same] at linked'
        cases reply with
        | some reply =>
            refine ⟨_, fed', .head first (.refl _), by rwa [next, same], ?_⟩
            rw [next, same]
            exact ⟨rfl, rfl, rfl, Or.inl ⟨rfl, reply, rfl⟩⟩
        | none =>
            have shorter : (l.toClient.drop (min size (1024 * 16))).length < size := by
              rw [List.length_drop]
              omega
            obtain ⟨l', fed'', delivered, linked'', sent, toServer, server, outcome⟩ :=
              ih _ shorter linked' inside clean rfl
            rw [same] at next
            refine ⟨l', fed'', .head first (by rwa [next]), linked'', sent, toServer, server, outcome⟩

theorem length_answered (cmds : List (List Bytes)) : (answered execute s cmds).length = cmds.length := by
  simp [answered]

/-- A client in its second loop that is owed a reply gets it. -/
theorem Linked.reading_returns (proper : Proper execute) (linked : Linked execute s l done left fed)
    (inside : l.caller.phase = .reading) (clean : l.caller.context.err = none)
    (owed : l.caller.got.length < l.sent.length) :
    ∃ l' done' left' fed', Delivered execute l l' ∧ Linked execute s l' done' left' fed' ∧
      l'.sent = l.sent ∧ l'.caller.phase = .outside ∧
      ∃ reply, l'.caller.got = l.caller.got ++ [reply] := by
  obtain ⟨executed, done', left', delivered, linked', noCommand, caller, sent⟩ := deliver_commands linked
  have writes : Delivers (.serverWrites executed.server.reply.length) := trivial
  have written := linked'.serverWrites executed.server.reply.length
  obtain ⟨l', fed', delivered', linked'', sent', toServer, server, outcome⟩ :=
    deliver_replies proper written (by show executed.caller.phase = _; rwa [caller])
      (by show executed.caller.context.err = _; rwa [caller])
  have sameSent : l'.sent = l.sent := sent'.trans sent
  have sameGot : (executed.serverWrites executed.server.reply.length).caller.got = l.caller.got := by
    show executed.caller.got = _
    rw [caller]
  rw [sameGot] at outcome
  rcases outcome with ⟨outside, reply, got⟩ | ⟨reading, got, noReply⟩
  · exact ⟨l', done', left', fed', delivered.trans (.head writes delivered'), linked'', sameSent,
      outside, reply, got⟩
  · -- nothing is in transit, so every reply was returned
    have noReply' : l'.toClient ++ l'.server.reply = [] := by
      rw [noReply, server]
      simp [Link.serverWrites]
    have noCommand' : l'.toServer ++ l'.caller.context.obuf = [] := by
      rw [toServer, linked''.flushed reading]
      simp [Link.serverWrites, noCommand]
    have all := linked''.all_got proper noCommand' noReply' (linked''.asked (by simp [reading]))
    have lengths := congrArg List.length all
    rw [length_answered, got, sameSent] at lengths
    omega

/-- The first loop writes all there is. -/
theorem Linked.writing_flushes (linked : Linked execute s l done left fed)
    (inside : l.caller.phase = .writing) (clean : l.caller.context.err = none) :
    ∃ l', Delivered execute l l' ∧ Linked execute s l' done left fed ∧ l'.sent = l.sent ∧
      l'.caller.phase = .reading ∧ l'.caller.context.err = none ∧ l'.caller.got = l.caller.got := by
  have writes : Delivers (.clientWrites l.caller.context.obuf.length) := trivial
  have next : l.step execute (.clientWrites l.caller.context.obuf.length) =
      l.clientWrites l.caller.context.obuf.length := by
    rw [Link.step, if_pos inside]
  have turn : l.caller.turnWrite (.written l.caller.context.obuf.length) =
      { l.caller with context := { l.caller.context with obuf := [] }, phase := .reading } := by
    rw [RedisCaller.turnWrite, Hiredis.RedisContext.redisBufferWrite_clean clean, List.drop_length]
    rfl
  refine ⟨_, .head writes (.refl _), by rw [next]; exact linked.clientWrites inside _, ?_⟩
  rw [next, Link.clientWrites, turn]
  exact ⟨rfl, rfl, clean, rfl⟩

/-- **A client that is owed a reply gets it.**  In every run of such commands, each answered at
once, when the client is inside `redisGetReply`, without an error, and fewer replies were
returned than commands appended, the bytes in transit can be delivered so that the call
returns, and what it returns is the reply to the next command. -/
theorem getReply_returns (proper : Proper execute) (events : List Event)
    (along : Run.Along (Link.step execute) Sendable { server := { session := s } } events)
    (inside : (Run.run (Link.step execute) { server := { session := s } } events).caller.phase ≠
      .outside)
    (clean : (Run.run (Link.step execute) { server := { session := s } } events).caller.context.err =
      none)
    (owed : (Run.run (Link.step execute) { server := { session := s } } events).caller.got.length <
      (Run.run (Link.step execute) { server := { session := s } } events).sent.length) :
    ∃ deliveries, (∀ event ∈ deliveries, Delivers event) ∧
      (Run.run (Link.step execute) { server := { session := s } }
        (events ++ deliveries)).caller.phase = .outside ∧
      (Run.run (Link.step execute) { server := { session := s } } (events ++ deliveries)).caller.got =
        (answered execute s (Run.run (Link.step execute) { server := { session := s } } events).sent).take
          ((Run.run (Link.step execute) { server := { session := s } } events).caller.got.length + 1) := by
  obtain ⟨done, left, fed, linked⟩ := linked_run proper along
  simp only [Run.run_append]
  generalize Run.run (Link.step execute) { server := { session := s } } events = l at *
  obtain ⟨reading, delivered, linkedReading, sent, phase, clean', got⟩ : ∃ reading : Link σ,
      Delivered execute l reading ∧ Linked execute s reading done left fed ∧ reading.sent = l.sent ∧
      reading.caller.phase = .reading ∧ reading.caller.context.err = none ∧
      reading.caller.got = l.caller.got := by
    cases phase : l.caller.phase with
    | outside => exact absurd phase inside
    | writing => exact linked.writing_flushes phase clean
    | reading => exact ⟨l, .refl l, linked, rfl, phase, clean, rfl⟩
  obtain ⟨l', done', left', fed', delivered', linked', sent', outside, reply, got'⟩ :=
    linkedReading.reading_returns proper phase clean' (by rwa [got, sent])
  obtain ⟨deliveries, delivers, rfl⟩ := delivered.trans delivered'
  refine ⟨deliveries, delivers, outside, ?_⟩
  have front := linked'.got_prefix proper
  have whole : (Run.run (Link.step execute) l deliveries).caller.got <+: answered execute s l.sent := by
    rw [← sent, ← sent', linked'.sent, answered_append]
    exact front.trans (List.prefix_append _ _)
  have length : (l.caller.got ++ [reply]).length = l.caller.got.length + 1 := by simp
  rw [got', got] at whole ⊢
  rw [← length]
  exact List.prefix_iff_eq_take.mp whole

/-! ## A server that answers PONG -/

/-- It counts the commands. -/
def pong (n : Nat) (_ : List Bytes) : RedisReply × Nat :=
  (.status (text "PONG"), n + 1)

theorem pong_proper : Proper pong := by
  have unbroken : Unbroken (text "PONG") := by decide
  exact fun _ _ => ⟨unbroken, Nat.zero_le 8⟩

/-- Two commands in one write, which the server reads in two pieces. -/
def twoCommands : List Event :=
  [.append [text "PING"], .append [text "PING"], .redisGetReply, .clientWrites 100, .serverReads 20,
    .serverReads 20, .serverWrites 3, .clientReads 100]

theorem twoCommands_sendable :
    Run.Along (Link.step pong) Sendable { server := { session := 0 } } twoCommands :=
  have ping : Answerable [text "PING"] := ⟨⟨by decide, by decide, by decide⟩, by decide⟩
  ⟨ping, ping, trivial, trivial, trivial, trivial, trivial, trivial, trivial⟩

theorem replies_in_turn_two :
    (Run.run (Link.step pong) { server := { session := 0 } } twoCommands).caller.got <+:
      answered pong 0 (Run.run (Link.step pong) { server := { session := 0 } } twoCommands).sent :=
  (replies_in_turn pong_proper twoCommands twoCommands_sendable).1

/-- Three bytes of a reply have come, and the call returns once the rest has. -/
theorem getReply_returns_first :
    ∃ deliveries, (∀ event ∈ deliveries, Delivers event) ∧
      (Run.run (Link.step pong) { server := { session := 0 } }
        (twoCommands ++ deliveries)).caller.got = [.status (text "PONG")] := by
  obtain ⟨deliveries, delivers, -, got⟩ := getReply_returns pong_proper twoCommands twoCommands_sendable
    (by decide +kernel) (by decide +kernel) (by decide +kernel)
  have sent : (Run.run (Link.step pong) { server := { session := 0 } } twoCommands).sent =
      [[text "PING"], [text "PING"]] := by decide +kernel
  have none_ : (Run.run (Link.step pong) { server := { session := 0 } } twoCommands).caller.got.length =
      0 := by decide +kernel
  rw [sent, none_] at got
  exact ⟨deliveries, delivers, got⟩

end Link

end RecommEngine.Redis
