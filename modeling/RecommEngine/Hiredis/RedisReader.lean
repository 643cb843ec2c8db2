/-
# Hiredis.RedisReader -- the reply parser

`hiredis.cc`: the reader takes bytes in pieces (`redisReaderFeed`) and gives the
replies in them one at a time (`redisReaderGetReply`).  Its state is a stack of
read tasks: the item being read, and under it the arrays it is nested in.  An item
whose bytes have not all come leaves the stack as it is, and the next call goes on
from there.

The source writes a reply into the element vector of its parent as soon as it is
created; here an array is put into its parent when its last element is there, and
nothing looks at it earlier.  The elements come in order, so the vector is the
list of those read.  Memory does not run out, and the length of a buffer is a
natural number (an `int` in the source, as in the header of its string).

`Hiredis.ReplyParser` says what the calls do as runs of a machine.
-/
import RecommEngine.Theory.ByteStream
import RecommEngine.Theory.Incremental

namespace RecommEngine.Hiredis

set_option autoImplicit false

open Theory
open Theory.ByteStream (Bytes)

inductive RedisReply where
  | string (str : Bytes)
  | array (element : List RedisReply)
  /-- An array object with a count below -1, as an `int`: its elements are never read. -/
  | hollow (elements : Int)
  | integer (integer : Int64)
  | nil
  | status (str : Bytes)
  | error (str : Bytes)

/-- What the type byte of an item says. -/
inductive ItemType where
  | error
  | status
  | integer
  | string
  | array
  deriving DecidableEq

structure ReadTask where
  /-- `none` is the source's -1: the type byte was not read. -/
  type : Option ItemType := none
  elements : Int := -1
  idx : Int
  /-- The elements of the array object so far. -/
  obj : List RedisReply := []

/-- Why a reader stopped for good. -/
inductive ReaderError where
  /-- `REDIS_ERR_PROTOCOL`, with `errstr`. -/
  | protocol (errstr : String)
  /-- The process is gone: an element was written through a null vector. -/
  | crash
  deriving DecidableEq

structure RedisReader where
  err : Option ReaderError := none
  buf : Bytes := []
  pos : Nat := 0
  /-- The task at `ridx` first; empty when `ridx` is -1. -/
  rstack : List ReadTask := []
  reply : Option RedisReply := none

/-- The byte of a character literal. -/
def ascii (c : Char) : UInt8 :=
  UInt8.ofNat c.toNat

def cr : UInt8 := ascii '\r'
def lf : UInt8 := ascii '\n'
def crlf : Bytes := [cr, lf]

def isDigit (c : UInt8) : Bool :=
  decide (ascii '0' ≤ c ∧ c ≤ ascii '9')

/-- `c - '0'` of a digit. -/
def digit (c : UInt8) : Nat :=
  c.toNat - (ascii '0').toNat

/-! ## Lines and numbers -/

/-- Where the first `\r\n` stands. -/
def seekNewline : Bytes → Option Nat
  | [] => none
  | [_] => none
  | c :: d :: s => if c = cr ∧ d = lf then some 0 else (seekNewline (d :: s)).map (· + 1)

/-- The digits up to the first `\r`; `none` at any other byte. -/
def readDigits (v : Int64) : Bytes → Option Int64
  | [] => none
  | c :: s =>
      if c = cr then some v
      else if isDigit c then readDigits (v * 10 + Int64.ofNat (digit c)) s
      else none

/-- Arithmetic is modulo 2^64.  Unexpected input reads as -1. -/
def readLongLong : Bytes → Int64
  | [] => -1
  | c :: s =>
      if c = ascii '-' then ((readDigits 0 s).map (-1 * ·)).getD (-1)
      else if c = ascii '+' then (readDigits 0 s).getD (-1)
      else (readDigits 0 (c :: s)).getD (-1)

/-! ## Errors -/

/-- `%02x`. -/
def hexByte (byte : UInt8) : String :=
  String.ofList [Nat.digitChar (byte.toNat / 16), Nat.digitChar (byte.toNat % 16)]

def chrtos (byte : UInt8) : String :=
  if byte = ascii '\\' ∨ byte = ascii '"' then "\"\\" ++ String.singleton (Char.ofNat byte.toNat) ++ "\""
  else if byte = lf then "\"\\n\""
  else if byte = cr then "\"\\r\""
  else if byte = ascii '\t' then "\"\\t\""
  else if byte = 7 then "\"\\a\""
  else if byte = 8 then "\"\\b\""
  -- isprint
  else if ascii ' ' ≤ byte ∧ byte ≤ ascii '~' then "\"" ++ String.singleton (Char.ofNat byte.toNat) ++ "\""
  else "\"\\x" ++ hexByte byte ++ "\""

def protocolByte (byte : UInt8) : ReaderError :=
  .protocol ("Protocol error, got " ++ chrtos byte ++ " as reply type byte")

def tooDeep : ReaderError :=
  .protocol "No support for nested multi bulk replies with depth > 7"

namespace RedisReader

/-- `__redisReaderSetError`. -/
def setError (_ : RedisReader) (error : ReaderError) : RedisReader where
  err := some error

/-! ## Items -/

/-- The bytes from `buf+pos` on. -/
def unread (r : RedisReader) : Bytes :=
  r.buf.drop r.pos

/-- `none` is the null pointer: there are fewer bytes. -/
def readBytes (r : RedisReader) (bytes : Nat) : Option (Bytes × RedisReader) :=
  if bytes ≤ r.buf.length - r.pos then some (r.unread, { r with pos := r.pos + bytes }) else none

/-- The bytes from the start of the line, and its length. -/
def readLine (r : RedisReader) : Option (Bytes × Nat × RedisReader) :=
  (seekNewline r.unread).map fun len => (r.unread, len, { r with pos := r.pos + (len + 2) })

/-- Goes to the next task once `obj` is complete.  It is stored in its parent, and a
parent it completes is complete itself; a complete root is the reply. -/
def moveToNextTask (obj : RedisReply) (cur : ReadTask) :
    List ReadTask → List ReadTask × Option RedisReply
  | [] => ([], some obj)
  | prv :: rest =>
      let prv := { prv with obj := prv.obj ++ [obj] }
      if cur.idx = prv.elements - 1 then moveToNextTask (.array prv.obj) prv rest
      else ({ cur with type := none, elements := -1, idx := cur.idx + 1 } :: prv :: rest, none)

/-- Whether an object can be stored in the array it is nested in: one whose count is
truncated to 0 or less has no element vector. -/
def storable : List ReadTask → Bool
  | prv :: _ => decide (0 < prv.elements)
  | [] => true

/-- The object of the task at the top is created, and is complete. -/
def finish (r : RedisReader) (obj : RedisReply) (cur : ReadTask) (rest : List ReadTask) :
    Bool × RedisReader :=
  if storable rest then
    let (rstack, reply) := moveToNextTask obj cur rest
    (true, { r with rstack, reply })
  else
    (false, r.setError .crash)

def lineReply (type : ItemType) (p : Bytes) (len : Nat) : RedisReply :=
  match type with
  | .integer => .integer (readLongLong p)
  | .error => .error (p.take len)
  -- type will be error or status
  | _ => .status (p.take len)

def processLineItem (r : RedisReader) (type : ItemType) (cur : ReadTask) (rest : List ReadTask) :
    Bool × RedisReader :=
  match r.readLine with
  | none => (false, r)
  | some (p, len, r) => r.finish (lineReply type p len) cur rest

def processBulkItem (r : RedisReader) (cur : ReadTask) (rest : List ReadTask) :
    Bool × RedisReader :=
  match seekNewline r.unread with
  | none => (false, r)
  | some s =>
      let len := readLongLong r.unread
      if len < 0 then
        { r with pos := r.pos + (s + 2) }.finish .nil cur rest
      else
        -- only continue when the buffer contains the entire bulk item
        let bytelen := s + 2 + (len.toInt.toNat + 2)
        if r.pos + bytelen ≤ r.buf.length then
          { r with pos := r.pos + bytelen }.finish
            (.string ((r.unread.drop (s + 2)).take len.toInt.toNat)) cur rest
        else
          (false, r)

/-- The stack has nine places. -/
def processMultiBulkItem (r : RedisReader) (cur : ReadTask) (rest : List ReadTask) :
    Bool × RedisReader :=
  if rest.length = 8 then
    (false, r.setError tooDeep)
  else
    match r.readLine with
    | none => (false, r)
    | some (p, _, r) =>
        let elements := readLongLong p
        if elements = -1 then
          r.finish .nil cur rest
        else if 0 < elements then
          if storable rest then
            let cur := { cur with elements := elements.toInt32.toInt, obj := [] }
            (true, { r with rstack := { idx := 0 } :: cur :: rest, reply := none })
          else
            (false, r.setError .crash)
        else
          r.finish (if elements = 0 then .array [] else .hollow elements.toInt32.toInt) cur rest

def itemType (byte : UInt8) : Option ItemType :=
  if byte = ascii '-' then some .error
  else if byte = ascii '+' then some .status
  else if byte = ascii ':' then some .integer
  else if byte = ascii '$' then some .string
  else if byte = ascii '*' then some .array
  else none

/-- The second switch of `processItem`, on the type of the task. -/
def processTyped (r : RedisReader) (type : ItemType) (cur : ReadTask) (rest : List ReadTask) :
    Bool × RedisReader :=
  match type with
  | .string => r.processBulkItem cur rest
  | .array => r.processMultiBulkItem cur rest
  | type => r.processLineItem type cur rest

/-- `true` is `REDIS_OK`. -/
def processItem (r : RedisReader) : Bool × RedisReader :=
  match r.rstack with
  | [] => (false, r)
  | cur :: rest =>
      match cur.type with
      | some type => r.processTyped type cur rest
      | none =>
          match r.readBytes 1 with
          | some (byte :: _, r) =>
              match itemType byte with
              | some type =>
                  let cur := { cur with type := some type }
                  { r with rstack := cur :: rest }.processTyped type cur rest
              | none => (false, r.setError (protocolByte byte))
          -- could not consume 1 byte
          | _ => (false, r)

/-! ## The calls of a client -/

/-- `redisReaderCreate`. -/
def create : RedisReader := {}

/-- `true` is `REDIS_OK`. -/
def redisReaderFeed (r : RedisReader) (buf : Bytes) : Bool × RedisReader :=
  if r.err.isSome then (false, r) else (true, { r with buf := r.buf ++ buf })

/-- `while (r->ridx >= 0) if (processItem(r) != REDIS_OK) break;` -/
def processItems : Nat → RedisReader → RedisReader
  | 0, r => r
  | fuel + 1, r =>
      if r.rstack.isEmpty then r
      else
        match r.processItem with
        | (true, r) => processItems fuel r
        | (false, r) => r

/-- The first item to process when the stack is empty. -/
def root : ReadTask := { idx := -1 }

/-- Discards part of the buffer when at least 1k of it was consumed. -/
def discard (r : RedisReader) : RedisReader :=
  if 1024 ≤ r.pos then { r with buf := r.unread, pos := 0 } else r

/-- Every item takes a byte, so the loop ends within the bytes there are. -/
def redisReaderGetReply (r : RedisReader) : Bool × Option RedisReply × RedisReader :=
  if r.err.isSome then (false, none, r)
  -- when the buffer is empty, there will never be a reply
  else if r.buf.length = 0 then (true, none, r)
  else
    let r := if r.rstack.isEmpty then { r with rstack := [root] } else r
    let r := processItems (r.unread.length + 1) r
    if r.err.isSome then (false, none, r)
    else
      let r := r.discard
      if r.rstack.isEmpty then (true, r.reply, { r with reply := none }) else (true, none, r)

/-- A client that calls for replies until none comes. -/
def takeReplies : Nat → RedisReader → List RedisReply × RedisReader
  | 0, r => ([], r)
  | fuel + 1, r =>
      match r.redisReaderGetReply with
      | (_, none, r) => ([], r)
      | (_, some reply, r) =>
          let (replies, r) := takeReplies fuel r
          (reply :: replies, r)

/-- A client that feeds what it receives, piece by piece, and takes the replies. -/
def readPieces (r : RedisReader) : List Bytes → List RedisReply × RedisReader
  | [] => ([], r)
  | piece :: pieces =>
      let r := (r.redisReaderFeed piece).2
      let (replies, r) := takeReplies (r.unread.length + 1) r
      let (more, r) := readPieces r pieces
      (replies ++ more, r)

end RedisReader

end RecommEngine.Hiredis
