/-
# Hiredis.Context -- a blocking connection

`hiredis.cc`: a context has an output buffer and a reader.  A command goes to the buffer
(`redisAppendCommand`); `redisGetReply` takes the next reply from the reader, and if
there is none it writes the buffer to the socket and reads from it until there is.
What `read` and `write` come to is given to each call.  The error of a context is
never taken back, and with it nothing is written or read any more.

A call of `redisGetReply` on a blocking context is three phases (`Phase`); the socket
calls in it may block, so every one is a step of its own.
-/
import RecommEngine.Hiredis.ReplyParser
import RecommEngine.Hiredis.FormatCommand

namespace RecommEngine.Hiredis

set_option autoImplicit false

open Theory.ByteStream (Bytes)

inductive ContextError where
  /-- `REDIS_ERR_IO`, with the text of `errno`.  A blocking socket that times out is
  one too. -/
  | io
  /-- `REDIS_ERR_EOF`, "Server closed the connection". -/
  | eof
  /-- `REDIS_ERR_PROTOCOL`, and what the reader says. -/
  | reader (error : ReaderError)
  /-- `REDIS_ERR_OOM`: a command could not be formatted. -/
  | oom

structure RedisContext where
  err : Option ContextError := none
  obuf : Bytes := []
  reader : RedisReader := .create

/-- What `read` comes to. -/
inductive ReadResult where
  | failed
  | eof
  | bytes (buf : Bytes)

/-- What `write` comes to. -/
inductive WriteResult where
  | failed
  | written (nwritten : Nat)

namespace RedisContext

def setError (c : RedisContext) (error : ContextError) : RedisContext :=
  { c with err := some error }

/-- `true` is `REDIS_OK`. -/
def redisBufferRead (c : RedisContext) (nread : ReadResult) : Bool × RedisContext :=
  if c.err.isSome then (false, c)
  else
    match nread with
    | .failed => (false, c.setError .io)
    | .eof => (false, c.setError .eof)
    | .bytes buf =>
        match c.reader.redisReaderFeed buf with
        | (true, reader) => (true, { c with reader })
        | (false, reader) => (false, { c with reader }.setError (.reader (reader.err.getD .crash)))

/-- Whether it is `REDIS_OK`, and whether the buffer is empty after it. -/
def redisBufferWrite (c : RedisContext) (nwritten : WriteResult) : Bool × Bool × RedisContext :=
  if c.err.isSome then (false, false, c)
  else if c.obuf.length > 0 then
    match nwritten with
    | .failed => (false, false, c.setError .io)
    | .written n =>
        let c := { c with obuf := c.obuf.drop n }
        (true, decide (c.obuf.length = 0), c)
  else (true, true, c)

def redisGetReplyFromReader (c : RedisContext) : Bool × Option RedisReply × RedisContext :=
  match c.reader.redisReaderGetReply with
  | (true, reply, reader) => (true, reply, { c with reader })
  | (false, _, reader) =>
      (false, none, { c with reader }.setError (.reader (reader.err.getD .crash)))

/-- `__redisAppendCommand`. -/
def appendFormatted (c : RedisContext) (cmd : Bytes) : RedisContext :=
  { c with obuf := c.obuf ++ cmd }

/-- `none` where formatting is a fault. -/
def redisvAppendCommand (c : RedisContext) (print : Bytes → VaArg → Bytes) (format : Bytes)
    (ap : List VaArg) : Option (Bool × RedisContext) :=
  match redisvFormatCommand print format ap with
  | .ok (_, cmd) => some (true, c.appendFormatted cmd)
  | .error .err => some (false, c.setError .oom)
  | .error .fault => none

theorem redisBufferWrite_clean {c : RedisContext} (clean : c.err = none) (n : Nat) :
    c.redisBufferWrite (.written n) =
      (true, decide ((c.obuf.drop n).length = 0), { c with obuf := c.obuf.drop n }) := by
  rw [redisBufferWrite, if_neg (by simp [clean])]
  split
  · rfl
  · rename_i none_
    obtain ⟨err, obuf, reader⟩ := c
    obtain rfl : obuf = [] := List.length_eq_zero_iff.mp (by dsimp only at none_; omega)
    simp

theorem redisBufferRead_clean {c : RedisContext} (clean : c.err = none)
    (ready : c.reader.Ready) (buf : Bytes) :
    c.redisBufferRead (.bytes buf) = (true, { c with reader := (c.reader.redisReaderFeed buf).2 }) := by
  have fed : c.reader.redisReaderFeed buf = (true, (c.reader.redisReaderFeed buf).2) := by
    rw [RedisReader.redisReaderFeed, if_neg (by simp [ready.clean])]
  rw [redisBufferRead, if_neg (by simp [clean]), fed]

end RedisContext

/-- Where the client is: outside `redisGetReply`, in its first loop ("write until done")
or in its second ("read until there is a reply"). -/
inductive Phase where
  | outside
  | writing
  | reading
  deriving DecidableEq

/-- A client thread, and the replies its calls of `redisGetReply` have returned. -/
structure RedisCaller where
  context : RedisContext := {}
  phase : Phase := .outside
  got : List RedisReply := []

namespace RedisCaller

/-- `redisGetReply` returns: with a reply, or with `REDIS_ERR`. -/
def returns (context : RedisContext) (got : List RedisReply) (reply : Option RedisReply) :
    RedisCaller where
  context
  got := got ++ reply.toList

/-- `redisGetReply` is called. -/
def redisGetReply (c : RedisCaller) : RedisCaller :=
  match c.context.redisGetReplyFromReader with
  | (false, _, context) => returns context c.got none
  | (true, some reply, context) => returns context c.got (some reply)
  | (true, none, context) => { c with context, phase := .writing }

/-- A turn of the first loop. -/
def turnWrite (c : RedisCaller) (nwritten : WriteResult) : RedisCaller :=
  match c.context.redisBufferWrite nwritten with
  | (false, _, context) => returns context c.got none
  | (true, false, context) => { c with context }
  | (true, true, context) => { c with context, phase := .reading }

/-- A turn of the second loop. -/
def turnRead (c : RedisCaller) (nread : ReadResult) : RedisCaller :=
  match c.context.redisBufferRead nread with
  | (false, context) => returns context c.got none
  | (true, context) =>
      match context.redisGetReplyFromReader with
      | (false, _, context) => returns context c.got none
      | (true, some reply, context) => returns context c.got (some reply)
      | (true, none, context) => { c with context }

end RedisCaller

end RecommEngine.Hiredis
