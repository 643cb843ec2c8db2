/-
# RedisServer.Networking -- how the server reads commands

`networking.c` of the server under `debug/redis`: a client sends requests, each a
multi bulk (`*argc`, then `$len` and the bytes of every argument) or a line of words.
`readQueryFromClient` reads a piece of the stream behind the query buffer,
`processInputBuffer` executes the requests that are complete.  A request whose bytes
have not all come stays in the buffer, and in `multibulklen`, `bulklen` and `argv`.

What executes a command is a parameter: the state of the server and one reply, or none
for a command that blocks the client.  `QUIT` is answered by `processCommand` itself, and
the connection is closed behind the reply.
-/
import RecommEngine.Hiredis.ReplyEncode

namespace RecommEngine.RedisServer

set_option autoImplicit false

open Theory.ByteStream (Bytes)
open Hiredis

def iobufLen : Nat := 1024 * 16
def inlineMaxSize : Nat := 1024 * 64
def mbulkBigArg : Nat := 1024 * 32
def maxQuerybufLen : Nat := 1024 * 1024 * 1024

inductive ReqType where
  | inline
  | multibulk
  deriving DecidableEq

structure RedisClient (σ : Type) where
  session : σ
  querybuf : Bytes := []
  /-- `none` is 0: not known yet. -/
  reqtype : Option ReqType := none
  multibulklen : Nat := 0
  /-- `none` is -1. -/
  bulklen : Option Nat := none
  argv : List Bytes := []
  /-- `REDIS_CLOSE_AFTER_REPLY`. -/
  closeAfterReply : Bool := false
  /-- `REDIS_BLOCKED`. -/
  blocked : Bool := false
  /-- The output buffer. -/
  reply : Bytes := []
  /-- `freeClient` was called. -/
  freed : Bool := false

/-! ## Strings -/

/-- Where a byte first stands in a string, which a zero byte ends. -/
def strchr (s : Bytes) (c : UInt8) : Option Nat :=
  (s.takeWhile (· ≠ 0)).idxOf? c

def strstrNewline (s : Bytes) : Option Nat :=
  seekNewline (s.takeWhile (· ≠ 0))

/-- The digits after the first one; `none` on overflow and at any other byte. -/
def string2llDigits (v : Nat) : Bytes → Option Nat
  | [] => some v
  | c :: p =>
      if isDigit c then
        if v > (2 ^ 64 - 1) / 10 then none
        else if v * 10 > 2 ^ 64 - 1 - digit c then none
        else string2llDigits (v * 10 + digit c) p
      else none

/-- An unsigned number without leading zeros. -/
def string2llUnsigned : Bytes → Option Nat
  | [] => none
  | c :: p => if isDigit c ∧ c ≠ ascii '0' then string2llDigits (digit c) p else none

def string2ll (s : Bytes) : Option Int :=
  if s = [ascii '0'] then some 0
  else if s.head? = some (ascii '-') then
    (string2llUnsigned s.tail).bind fun v => if v > 2 ^ 63 then none else some (-v)
  else
    (string2llUnsigned s).bind fun v => if v > 2 ^ 63 - 1 then none else some v

/-- The parts between the spaces; none of an empty string. -/
def sdssplitlen (s : Bytes) : List Bytes :=
  if s = [] then [] else s.splitOn (ascii ' ')

/-- The bytes of a string literal. -/
def text (s : String) : Bytes :=
  s.toList.map ascii

def tolower (c : UInt8) : UInt8 :=
  if ascii 'A' ≤ c ∧ c ≤ ascii 'Z' then c + 32 else c

/-- `!strcasecmp(c->argv[0]->ptr,"quit")`; a zero byte ends the name. -/
def isQuit (argv : List Bytes) : Bool :=
  ((argv.headD []).takeWhile (· ≠ 0)).map tolower = text "quit"

namespace RedisClient

variable {σ : Type}

def addReply (c : RedisClient σ) (reply : RedisReply) : RedisClient σ :=
  { c with reply := c.reply ++ encode reply }

def addReplyError (c : RedisClient σ) (err : Bytes) : RedisClient σ :=
  c.addReply (.error (text "ERR " ++ err))

/-- The character may end the text, and a line end in it is made a space. -/
def expectedDollar (got : UInt8) : Bytes :=
  let s := (text "Protocol error: expected '$', got '" ++ [got, ascii '\'']).takeWhile (· ≠ 0)
  s.map fun c => if c = cr ∨ c = lf then ascii ' ' else c

def setProtocolError (c : RedisClient σ) (pos : Nat) : RedisClient σ :=
  { c with closeAfterReply := true, querybuf := c.querybuf.drop pos }

def resetClient (c : RedisClient σ) : RedisClient σ :=
  { c with argv := [], reqtype := none, multibulklen := 0, bulklen := none }

/-- `true` is `REDIS_OK`. -/
def processInlineBuffer (c : RedisClient σ) : Bool × RedisClient σ :=
  match strstrNewline c.querybuf with
  | none =>
      if c.querybuf.length > inlineMaxSize then
        (false, (c.addReplyError (text "Protocol error: too big inline request")).setProtocolError 0)
      else (false, c)
  | some querylen =>
      (true, { c with
        argv := (sdssplitlen (c.querybuf.take querylen)).filter (· ≠ [])
        querybuf := c.querybuf.drop (querylen + 2) })

/-! ## Multi bulk requests -/

/-- How a part of the loop ends: it goes on, it breaks, or the function returns. -/
inductive Flow where
  | go
  | stop
  | fail
  deriving DecidableEq

/-- Reads the bulk length if it is unknown. -/
def readBulklen (c : RedisClient σ) (pos : Nat) : Flow × RedisClient σ × Nat :=
  if c.bulklen.isSome then (.go, c, pos)
  else
    match strchr (c.querybuf.drop pos) cr with
    | none =>
        if c.querybuf.length > inlineMaxSize then
          (.stop, (c.addReplyError (text "Protocol error: too big bulk count string")).setProtocolError 0,
            pos)
        else (.stop, c, pos)
    | some newline =>
        -- buffer should also contain \n
        if c.querybuf.length < pos + newline + 2 then (.stop, c, pos)
        else if (c.querybuf.drop pos).head? ≠ some (ascii '$') then
          (.fail, (c.addReplyError
            (expectedDollar ((c.querybuf.drop pos).headD 0))).setProtocolError pos, pos)
        else
          match string2ll ((c.querybuf.drop (pos + 1)).take (newline - 1)) with
          | none =>
              (.fail, (c.addReplyError (text "Protocol error: invalid bulk length")).setProtocolError pos,
                pos)
          | some ll =>
              if ll < 0 ∨ ll > 512 * 1024 * 1024 then
                (.fail,
                  (c.addReplyError (text "Protocol error: invalid bulk length")).setProtocolError pos, pos)
              else if mbulkBigArg ≤ ll.toNat then
                -- a large argument starts at the front of the buffer
                (.go, { c with
                  querybuf := c.querybuf.drop (pos + (newline + 2)), bulklen := some ll.toNat }, 0)
              else (.go, { c with bulklen := some ll.toNat }, pos + (newline + 2))

/-- Reads a bulk argument that is complete. -/
def takeBulk (c : RedisClient σ) (pos bulklen : Nat) : RedisClient σ × Nat :=
  -- the buffer is just the argument: it becomes the argument
  if pos = 0 ∧ mbulkBigArg ≤ bulklen ∧ c.querybuf.length = bulklen + 2 then
    ({ c with
      argv := c.argv ++ [c.querybuf.take bulklen], querybuf := [], bulklen := none
      multibulklen := c.multibulklen - 1 }, 0)
  else
    ({ c with
      argv := c.argv ++ [(c.querybuf.drop pos).take bulklen], bulklen := none
      multibulklen := c.multibulklen - 1 }, pos + (bulklen + 2))

/-- Reads a bulk argument, if there is enough data (+2 == trailing \r\n). -/
def readBulk (c : RedisClient σ) (pos : Nat) : Flow × RedisClient σ × Nat :=
  match c.bulklen with
  | none => (.stop, c, pos)
  | some bulklen =>
      if c.querybuf.length - pos < bulklen + 2 then (.stop, c, pos)
      else (.go, c.takeBulk pos bulklen)

/-- `while(c->multibulklen)`, which goes down by one for each argument. -/
def readBulks : Nat → RedisClient σ → Nat → Flow × RedisClient σ × Nat
  | 0, c, pos => (.go, c, pos)
  | left + 1, c, pos =>
      match c.readBulklen pos with
      | (.go, c, pos) =>
          match c.readBulk pos with
          | (.go, c, pos) => readBulks left c pos
          | out => out
      | out => out

/-- Reads the number of arguments.  `stop` is that the request has none. -/
def readMultibulklen (c : RedisClient σ) : Flow × RedisClient σ × Nat :=
  if c.multibulklen ≠ 0 then (.go, c, 0)
  else
    match strchr c.querybuf cr with
    | none =>
        if c.querybuf.length > inlineMaxSize then
          (.fail,
            (c.addReplyError (text "Protocol error: too big mbulk count string")).setProtocolError 0, 0)
        else (.fail, c, 0)
    | some newline =>
        if c.querybuf.length < newline + 2 then (.fail, c, 0)
        else
          match string2ll ((c.querybuf.drop 1).take (newline - 1)) with
          | none =>
              (.fail,
                (c.addReplyError (text "Protocol error: invalid multibulk length")).setProtocolError 0, 0)
          | some ll =>
              if ll > 1024 * 1024 then
                (.fail,
                  (c.addReplyError (text "Protocol error: invalid multibulk length")).setProtocolError 0, 0)
              else if ll ≤ 0 then (.stop, { c with querybuf := c.querybuf.drop (newline + 2) }, 0)
              else (.go, { c with multibulklen := ll.toNat }, newline + 2)

/-- `true` is `REDIS_OK`. -/
def processMultibulkBuffer (c : RedisClient σ) : Bool × RedisClient σ :=
  match c.readMultibulklen with
  | (.fail, c, _) => (false, c)
  | (.stop, c, _) => (true, c)
  | (.go, c, pos) =>
      match readBulks c.multibulklen c pos with
      | (.fail, c, _) => (false, c)
      | (_, c, pos) =>
          -- trim to pos
          let c := { c with querybuf := c.querybuf.drop pos }
          (decide (c.multibulklen = 0), c)

/-! ## The query buffer -/

variable (execute : σ → List Bytes → Option RedisReply × σ)

/-- `true` is `REDIS_OK`. -/
def processCommand (c : RedisClient σ) : Bool × RedisClient σ :=
  if isQuit c.argv then
    (false, { c.addReply (.status (text "OK")) with closeAfterReply := true })
  else
    match execute c.session c.argv with
    | (some reply, session) => (true, { c.addReply reply with session })
    | (none, session) => (true, { c with session, blocked := true })

/-- Only resets the client when the command was executed. -/
def runCommand (c : RedisClient σ) : RedisClient σ :=
  match c.processCommand execute with
  | (true, c) => c.resetClient
  | (false, c) => c

def processBuffer (c : RedisClient σ) : Bool × RedisClient σ :=
  let reqtype := c.reqtype.getD (if c.querybuf.head? = some (ascii '*') then .multibulk else .inline)
  let c := { c with reqtype := some reqtype }
  match reqtype with
  | .inline => c.processInlineBuffer
  | .multibulk => c.processMultibulkBuffer

/-- `while(sdslen(c->querybuf))`: a request takes at least a byte. -/
def processInputBufferFor : Nat → RedisClient σ → RedisClient σ
  | 0, c => c
  | fuel + 1, c =>
      if c.querybuf = [] then c
      else if c.blocked then c
      else if c.closeAfterReply then c
      else
        match c.processBuffer with
        | (false, c) => c
        | (true, c) =>
            if c.argv = [] then processInputBufferFor fuel c.resetClient
            else processInputBufferFor fuel (c.runCommand execute)

def processInputBuffer (c : RedisClient σ) : RedisClient σ :=
  processInputBufferFor execute c.querybuf.length c

/-- How many bytes are asked for.  Of a large argument not more than it needs. -/
def readlen (c : RedisClient σ) : Nat :=
  match c.bulklen with
  | some bulklen =>
      if c.reqtype = some .multibulk ∧ c.multibulklen ≠ 0 ∧ mbulkBigArg ≤ bulklen then
        min iobufLen (bulklen + 2 - c.querybuf.length)
      else iobufLen
  | none => iobufLen

/-- `read` gave some bytes. -/
def readQueryFromClient (c : RedisClient σ) (bytes : Bytes) : RedisClient σ :=
  let c := { c with querybuf := c.querybuf ++ bytes }
  if c.querybuf.length > maxQuerybufLen then { c with freed := true }
  else c.processInputBuffer execute

end RedisClient

end RecommEngine.RedisServer
