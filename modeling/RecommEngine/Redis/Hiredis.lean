/-
# Redis.Hiredis -- commands and replies

The part of hiredis that the client uses.  A context is a pipelined connection:
`redisAppendCommand` adds a command, `redisGetReply` returns the oldest reply
that was not read, `redisCommand` does both.  The server is a parameter: a state
and what it answers to each command there.

A connection may break: `arriving` counts the replies that still come through.
A read after the last of them leaves the reply variable of its caller alone, and
so does every later read.
-/
import RecommEngine.Theory.Pipeline

namespace RecommEngine.Redis

set_option autoImplicit false

open Theory

inductive Reply where
  | string (str : String)
  | array (element : List Reply)
  | integer (integer : Int)
  | nil
  | status (str : String)
  | error (str : String)

namespace Reply

/-- `REDIS_REPLY_STRING` to `REDIS_REPLY_ERROR`. -/
def type : Reply → Nat
  | .string _ => 1
  | .array _ => 2
  | .integer _ => 3
  | .nil => 4
  | .status _ => 5
  | .error _ => 6

/-- The bytes at `str`; a reply without any has a null pointer and length 0. -/
def str : Reply → String
  | .string str => str
  | .status str => str
  | .error str => str
  | _ => ""

end Reply

/-- The commands of the client.  The source passes any bytes as keys and values; here they
are texts. -/
inductive Command where
  | ping
  | get (key : String)
  | set (key value : String)
  | setex (key : String) (life : Int) (value : String)
  | del (key : String)
  | hset (key field value : String)
  | expire (key : String) (life : Int)
  | hget (key field : String)
  | hgetall (key : String)
  | lpush (key value : String)
  | rpush (key value : String)
  | lpop (key : String)
  | rpop (key : String)
  | multi
  | exec
  deriving DecidableEq

structure RedisContext (σ : Type) extends Pipeline σ Command Reply where
  /-- How many replies come through before the connection breaks, if it does. -/
  arriving : Option Nat := none
  errstr : String := ""

variable {σ : Type} (answer : σ → Command → Reply × σ)

/-- It fails only when memory runs out. -/
def redisAppendCommand (ctx : RedisContext σ) (cmd : Command) : RedisContext σ :=
  { ctx with toPipeline := ctx.toPipeline.send answer cmd }

/-- The reply variable after the call, and the context. -/
def redisGetReply (ctx : RedisContext σ) (reply : Option Reply) :
    Option Reply × RedisContext σ :=
  if ctx.arriving = some 0 then
    (reply, { ctx with errstr := "Server closed the connection" })
  else
    match ctx.toPipeline.receive with
    | (none, _) =>
        -- nothing was asked for, so the read times out
        (reply, { ctx with arriving := some 0, errstr := "Resource temporarily unavailable" })
    | (some next, connection) =>
        (some next,
          { ctx with toPipeline := connection, arriving := ctx.arriving.map (· - 1) })

def redisCommand (ctx : RedisContext σ) (cmd : Command) : Option Reply × RedisContext σ :=
  redisGetReply (redisAppendCommand answer ctx cmd) none

/-! ## A connection that does not break -/

namespace RedisContext

/-- The context after the replies `read` were read and `left` are unread. -/
def readTo (ctx : RedisContext σ) (read left : List (Command × Reply)) : RedisContext σ :=
  { ctx with toPipeline := ctx.toPipeline.readTo read left }

/-- The context after a list of commands was sent and every reply read. -/
def exchange (ctx : RedisContext σ) (cmds : List Command) : RedisContext σ :=
  { ctx with toPipeline := ctx.toPipeline.exchange answer cmds }

theorem append_all (ctx : RedisContext σ) (cmds : List Command) :
    cmds.foldl (redisAppendCommand answer) ctx =
      { ctx with toPipeline := cmds.foldl (Pipeline.send answer) ctx.toPipeline } := by
  induction cmds generalizing ctx with
  | nil => rfl
  | cons cmd cmds ih => simp [ih, redisAppendCommand]

theorem unread_append_all {ctx : RedisContext σ} (allRead : ctx.unread = []) (cmds : List Command) :
    (cmds.foldl (redisAppendCommand answer) ctx).unread =
      Pipeline.answers answer ctx.session cmds := by
  simp [append_all, Pipeline.send_all, allRead]

theorem readTo_append_all (ctx : RedisContext σ) (cmds : List Command) :
    (cmds.foldl (redisAppendCommand answer) ctx).readTo
        (Pipeline.answers answer ctx.session cmds) [] = ctx.exchange answer cmds := by
  simp [append_all, readTo, exchange, Pipeline.readTo_send_all]

theorem arriving_append_all (ctx : RedisContext σ) (cmds : List Command) :
    (cmds.foldl (redisAppendCommand answer) ctx).arriving = ctx.arriving := by
  simp [append_all]

theorem readTo_readTo (ctx : RedisContext σ) (read more left left' : List (Command × Reply)) :
    (ctx.readTo read left).readTo more left' = ctx.readTo (read ++ more) left' := by
  simp [readTo, Pipeline.readTo_readTo]

end RedisContext

theorem redisGetReply_next (ctx : RedisContext σ) (unbroken : ctx.arriving = none)
    {next : Command × Reply} {left : List (Command × Reply)} (unread : ctx.unread = next :: left)
    (reply : Option Reply) :
    redisGetReply ctx reply = (some next.2, ctx.readTo [next] left) := by
  rw [redisGetReply, if_neg (by simp [unbroken]), Pipeline.receive_of_unread unread]
  simp [unbroken, RedisContext.readTo]

/-- One command on a connection without unread replies. -/
theorem redisCommand_settled {ctx : RedisContext σ} (unbroken : ctx.arriving = none)
    (allRead : ctx.unread = []) (cmd : Command) :
    redisCommand answer ctx cmd = (some (answer ctx.session cmd).1, ctx.exchange answer [cmd]) := by
  have unread := RedisContext.unread_append_all answer allRead [cmd]
  have next := redisGetReply_next (redisAppendCommand answer ctx cmd) unbroken unread none
  rw [redisCommand, next]
  exact congrArg (Prod.mk _) (RedisContext.readTo_append_all answer ctx [cmd])

end RecommEngine.Redis
