/-
# Redis.Pipelining -- whose replies an operation reads

Runs of client methods over one connection that does not break, against a server
with any state and any replies.  The connection is settled after a method when
the method has read the replies to all commands it sent; then the next method
reads only its own.

A single method always settles the connection.  A batch method returns at the
first queued command whose reply is not `QUEUED` and leaves the replies behind it
unread, that of EXEC at least; every later method then reads the replies to
earlier commands.  `settled_iff` says that this is the only way: in a run the
connection is settled after every method exactly if the server queues every
command that a batch method sends (`Queues`).
-/
import RecommEngine.Theory.Run
import RecommEngine.Redis.Client

namespace RecommEngine.Redis

set_option autoImplicit false

open Theory Theory.Run

inductive Operation where
  | ping
  | setEx (key value : String) (lifeInSeconds : Int)
  | get (key : String)
  | delete (key : String)
  | multiSetEx (keys values : List String) (lifeInSeconds : List Int)
  | multiGet (keys : List String)
  | hashSetEx (key field value : String) (lifeInSeconds : Int)
  | hashGet (key field : String)
  | hashGetAllFields (key : String)
  | multiHashSetEx (keys fields values : List String) (lifeInSeconds : Int)
  | multiHashGet (keys fields : List String)
  | multiHashGetAllFields (keys : List String)
  | listPushLeft (key value : String)
  | listPopLeft (key : String)
  | listPopRight (key : String)
  | listPushRight (key value : String)
  | multiListPopLeft (keys : List String)
  | multiListPopRight (keys : List String)

namespace Operation

variable {σ : Type} (answer : σ → Command → Reply × σ)

/-- The client that a method leaves behind. -/
def perform (c : Client σ) : Operation → Except Fault (Client σ)
  | .ping => (c.ping answer).map Prod.snd
  | .setEx key value life => (c.setEx answer key value life).map Prod.snd
  | .get key => (c.get answer key).map Prod.snd
  | .delete key => (c.delete answer key).map Prod.snd
  | .multiSetEx keys values lives => (c.multiSetEx answer keys values lives).map Prod.snd
  | .multiGet keys => (c.multiGet answer keys).map Prod.snd
  | .hashSetEx key field value life => (c.hashSetEx answer key field value life).map Prod.snd
  | .hashGet key field => (c.hashGet answer key field).map Prod.snd
  | .hashGetAllFields key => (c.hashGetAllFields answer key).map Prod.snd
  | .multiHashSetEx keys fields values life =>
      (c.multiHashSetEx answer keys fields values life).map Prod.snd
  | .multiHashGet keys fields => (c.multiHashGet answer keys fields).map Prod.snd
  | .multiHashGetAllFields keys => (c.multiHashGetAllFields answer keys).map Prod.snd
  | .listPushLeft key value => (c.listPushLeft answer key value).map Prod.snd
  | .listPopLeft key => (c.listPopLeft answer key).map Prod.snd
  | .listPopRight key => (c.listPopRight answer key).map Prod.snd
  | .listPushRight key value => (c.listPushRight answer key value).map Prod.snd
  | .multiListPopLeft keys => (c.multiListPopLeft answer keys).map Prod.snd
  | .multiListPopRight keys => (c.multiListPopRight answer keys).map Prod.snd

/-- A method after the others; nothing follows a fault. -/
def step (s : Except Fault (Client σ)) (op : Operation) : Except Fault (Client σ) :=
  s.bind fun c => perform answer c op

/-- A client connected to a server in state `session`. -/
def connected (session : σ) : Except Fault (Client σ) :=
  .ok { ctx := some { session } }

/-- The commands that a method sends between MULTI and EXEC, if it sends any. -/
def queued : Operation → Option (List Command)
  | .multiSetEx keys values lives =>
      if keys.length = values.length then (Client.setCommands keys values lives).toOption else none
  | .multiGet keys => some (keys.map .get)
  | .multiHashSetEx keys fields values life =>
      if keys.length = values.length ∧ keys.length = fields.length then
        some (Client.hsetCommands keys fields values life)
      else none
  | .multiHashGet keys fields => (Client.hgetCommands keys fields).toOption
  | .multiHashGetAllFields keys => some (keys.map .hgetall)
  | .multiListPopLeft keys => some (keys.map .lpop)
  | .multiListPopRight keys => some (keys.map .rpop)
  | _ => none

/-- The server answers each command of a batch with an accepted `QUEUED`. -/
def Queues (s : Except Fault (Client σ)) (op : Operation) : Prop :=
  ∀ c ctx cmds, s = .ok c → c.ctx = some ctx → op.queued = some cmds →
    ∀ q ∈ Client.queuedReplies answer ctx.session cmds, q.2.statusIs "QUEUED"

/-- The client is connected and no reply is outstanding. -/
def Settled (s : Except Fault (Client σ)) : Prop :=
  ∀ c, s = .ok c → ∃ ctx, c.ctx = some ctx ∧ ctx.arriving = none ∧ ctx.toPipeline.Settled

/-! ## One method -/

variable {answer} {c : Client σ} {α : Type}

/-- A client that only has another error text. -/
theorem settled_lastError (settled : Settled (.ok c)) (lastError : String) :
    Settled (.ok { c with lastError }) := by
  rintro c' ⟨⟩
  exact settled c rfl

theorem settled_oneCommand (settled : Settled (.ok c)) (failed : α) (cmd : Command)
    (interpret : Reply → Except Fault (α × String)) :
    Settled ((c.oneCommand answer failed cmd interpret).map Prod.snd) := by
  obtain ⟨ctx, there, unbroken, nothing⟩ := settled c rfl
  rw [Client.oneCommand_settled there unbroken nothing.allRead]
  cases interpret (answer ctx.session cmd).1 with
  | error fault => simp [Settled, Except.map]
  | ok out =>
      rintro c' ⟨⟩
      exact ⟨_, rfl, unbroken, nothing.exchange answer [cmd]⟩

theorem settled_hashSetEx (settled : Settled (.ok c)) (key field value : String) (life : Int) :
    Settled ((c.hashSetEx answer key field value life).map Prod.snd) := by
  have first : Settled ((c.oneCommand answer false (.hset key field value)
      (Client.interpretInteger [0, 1])).map Prod.snd) :=
    settled_oneCommand settled _ _ _
  rw [Client.hashSetEx]
  cases stored : c.oneCommand answer false (.hset key field value)
      (Client.interpretInteger [0, 1]) with
  | error fault => simp [Settled, Except.map, bind, Except.bind]
  | ok out =>
      rw [stored] at first
      simp only [bind, Except.bind]
      split
      · exact settled_oneCommand first _ _ _
      · exact first

/-- A transaction settles the connection exactly if its commands are queued. -/
theorem settled_transaction_iff (settled : Settled (.ok c)) {op : Operation} {cmds : List Command}
    (batch : op.queued = some cmds)
    {reader : RedisContext σ → Option String × RedisContext σ}
    (reads : Client.Reads reader cmds.length) (failed : α)
    (interpret : Reply → Except Fault (α × String)) :
    Settled ((c.transaction answer failed (.ok cmds) reader interpret).map Prod.snd) ↔
      Queues answer (.ok c) op := by
  obtain ⟨ctx, there, unbroken, nothing⟩ := settled c rfl
  have same : Queues answer (.ok c) op ↔
      ∀ q ∈ Client.queuedReplies answer ctx.session cmds, q.2.statusIs "QUEUED" := by
    refine ⟨fun queues => queues c ctx cmds rfl there batch, ?_⟩
    rintro accepted _ _ _ ⟨⟩ there' batch'
    rw [← Option.some.inj (there.symm.trans there'), ← Option.some.inj (batch.symm.trans batch')]
    exact accepted
  rw [same]
  constructor
  · intro after
    by_contra rejected
    obtain ⟨error, ctx', stop, unread⟩ := Client.transaction_rejected there unbroken
      nothing.allRead reads rejected failed interpret
    rw [stop] at after
    obtain ⟨ctx'', there', -, nothing'⟩ := after _ rfl
    obtain rfl := Option.some.inj there'
    exact unread nothing'.allRead
  · intro accepted
    rw [Client.transaction_accepted there unbroken nothing.allRead reads accepted]
    cases interpret (Client.execReply answer ctx.session cmds) with
    | error fault => simp [Settled, Except.map]
    | ok out =>
        rintro c' ⟨⟩
        exact ⟨_, rfl, unbroken, nothing.exchange answer _⟩

theorem length_hsetCommands {keys fields values : List String} (life : Int)
    (sizes : keys.length = values.length ∧ keys.length = fields.length) :
    (Client.hsetCommands keys fields values life).length =
      if life > 0 then 2 * keys.length else keys.length := by
  have pairs : (keys.zip (fields.zip values)).length = keys.length := by
    simp [← sizes.1, ← sizes.2]
  rw [Client.hsetCommands, List.length_flatMap]
  split <;> simp_all [mul_comm]

theorem queues_of_single {s : Except Fault (Client σ)} {op : Operation} (single : op.queued = none) :
    Queues answer s op := by
  intro c ctx cmds _ _ batch
  simp [single] at batch

/-- A batch whose commands cannot be built has no result. -/
theorem settled_fault_iff (settled : Settled (.ok c)) {op : Operation} (single : op.queued = none)
    {fault : Fault} (failed : α) (reader : RedisContext σ → Option String × RedisContext σ)
    (interpret : Reply → Except Fault (α × String)) :
    Settled ((c.transaction answer failed (.error fault) reader interpret).map Prod.snd) ↔
      Queues answer (.ok c) op := by
  obtain ⟨ctx, there, -⟩ := settled c rfl
  have stops : c.transaction answer failed (.error fault) reader interpret = .error fault := by
    simp [Client.transaction, there]
  rw [stops]
  exact iff_of_true (by simp [Settled, Except.map]) (queues_of_single single)

theorem settled_multiSetEx_iff (settled : Settled (.ok c)) (keys values : List String)
    (lives : List Int) :
    Settled (perform answer c (.multiSetEx keys values lives)) ↔
      Queues answer (.ok c) (.multiSetEx keys values lives) := by
  obtain ⟨ctx, there, -⟩ := settled c rfl
  rw [perform, Client.multiSetEx]
  by_cases sizes : keys.length = values.length
  · rw [if_neg (by simp [sizes]), Client.setCommands]
    by_cases short : lives.length < keys.length
    · rw [if_pos short]
      exact settled_fault_iff settled
        (by simp [queued, Client.setCommands, short, Except.toOption]) _ _ _
    · rw [if_neg short]
      refine settled_transaction_iff settled ?_ (Client.reads_readQueued ?_) _ _
      · rw [queued, if_pos sizes, Client.setCommands, if_neg short]
        rfl
      · simp only [List.length_zipWith, List.length_zip]
        omega
  · rw [if_pos (by simp [there, sizes])]
    exact iff_of_true (settled_lastError settled _) (queues_of_single (by simp [queued, sizes]))

theorem settled_multiHashSetEx_iff (settled : Settled (.ok c)) (keys fields values : List String)
    (life : Int) :
    Settled (perform answer c (.multiHashSetEx keys fields values life)) ↔
      Queues answer (.ok c) (.multiHashSetEx keys fields values life) := by
  obtain ⟨ctx, there, -⟩ := settled c rfl
  rw [perform, Client.multiHashSetEx]
  by_cases sizes : keys.length = values.length ∧ keys.length = fields.length
  · rw [if_neg (by simp [sizes.1]), if_neg (by simp [sizes.2])]
    refine settled_transaction_iff settled (by rw [queued, if_pos sizes]) ?_ _ _
    rw [length_hsetCommands life sizes]
    split
    · exact fun ctx unbroken enough => Client.readQueuedPairs_eq unbroken enough
    · exact Client.reads_readQueued rfl
  · refine iff_of_true ?_ (queues_of_single (by rw [queued, if_neg sizes]))
    split
    · exact settled_lastError settled _
    · rename_i sameValues
      rw [if_pos (by simp_all)]
      exact settled_lastError settled _

theorem settled_multiHashGet_iff (settled : Settled (.ok c)) (keys fields : List String) :
    Settled (perform answer c (.multiHashGet keys fields)) ↔
      Queues answer (.ok c) (.multiHashGet keys fields) := by
  rw [perform, Client.multiHashGet, Client.multiValues, Client.hgetCommands]
  by_cases short : fields.length < keys.length
  · rw [if_pos short]
    exact settled_fault_iff settled
      (by simp [queued, Client.hgetCommands, short, Except.toOption]) _ _ _
  · rw [if_neg short]
    refine settled_transaction_iff settled ?_ (Client.reads_readQueued ?_) _ _
    · rw [queued, Client.hgetCommands, if_neg short]
      rfl
    · rw [List.length_zipWith]
      omega

/-- A method on a settled connection settles it exactly if it meets the condition. -/
theorem settled_perform_iff (settled : Settled (.ok c)) (op : Operation) :
    Settled (perform answer c op) ↔ Queues answer (.ok c) op := by
  cases op with
  | ping => exact iff_of_true (settled_oneCommand settled _ _ _) (queues_of_single rfl)
  | setEx key value life =>
      exact iff_of_true (settled_oneCommand settled _ _ _) (queues_of_single rfl)
  | get key => exact iff_of_true (settled_oneCommand settled _ _ _) (queues_of_single rfl)
  | delete key => exact iff_of_true (settled_oneCommand settled _ _ _) (queues_of_single rfl)
  | hashSetEx key field value life =>
      exact iff_of_true (settled_hashSetEx settled key field value life) (queues_of_single rfl)
  | hashGet key field => exact iff_of_true (settled_oneCommand settled _ _ _) (queues_of_single rfl)
  | hashGetAllFields key =>
      exact iff_of_true (settled_oneCommand settled _ _ _) (queues_of_single rfl)
  | listPushLeft key value =>
      exact iff_of_true (settled_oneCommand settled _ _ _) (queues_of_single rfl)
  | listPopLeft key => exact iff_of_true (settled_oneCommand settled _ _ _) (queues_of_single rfl)
  | listPopRight key => exact iff_of_true (settled_oneCommand settled _ _ _) (queues_of_single rfl)
  | listPushRight key value =>
      exact iff_of_true (settled_oneCommand settled _ _ _) (queues_of_single rfl)
  | multiSetEx keys values lives => exact settled_multiSetEx_iff settled keys values lives
  | multiHashSetEx keys fields values life =>
      exact settled_multiHashSetEx_iff settled keys fields values life
  | multiHashGet keys fields => exact settled_multiHashGet_iff settled keys fields
  | multiGet keys =>
      exact settled_transaction_iff settled rfl (Client.reads_readQueued (by simp)) _ _
  | multiHashGetAllFields keys =>
      exact settled_transaction_iff settled rfl (Client.reads_readQueued (by simp)) _ _
  | multiListPopLeft keys =>
      exact settled_transaction_iff settled rfl (Client.reads_readQueued (by simp)) _ _
  | multiListPopRight keys =>
      exact settled_transaction_iff settled rfl (Client.reads_readQueued (by simp)) _ _

/-! ## Whole runs -/

/-- **A connection is settled after every method of a run exactly if every command
of a batch is queued**: whenever a method has returned, the replies to all the
commands sent so far have been read, each as the reply to its own command, iff no
batch of the run had a command that the server answered otherwise. -/
theorem settled_iff (answer : σ → Command → Reply × σ) (session : σ) (ops : List Operation) :
    (∀ past, past <+: ops → Settled (run (step answer) (connected session) past)) ↔
      Along (step answer) (Queues answer) (connected session) ops := by
  apply always_iff_along
  · rintro c ⟨⟩
    exact ⟨_, rfl, rfl, rfl, rfl⟩
  · intro past op inside settled
    cases state : run (step answer) (connected session) past with
    | error fault => simp [step, Settled, Queues, Except.bind]
    | ok c =>
        rw [state] at settled
        exact settled_perform_iff settled op

end Operation

/-! ## A server that runs out of memory -/

namespace MemoryFull

/-- It refuses to set a key, and so the transaction it was sent in. -/
def answer (_ : Unit) : Command → Reply × Unit
  | .multi => (.status "OK", ())
  | .set _ _ => (.error "OOM command not allowed when used memory > 'maxmemory'.", ())
  | .exec => (.error "EXECABORT Transaction discarded because of previous errors.", ())
  | .get key => (.string ("value of " ++ key), ())
  | _ => (.error "ERR", ())

def ops : List Operation := [.multiSetEx ["a"] ["1"] [-1], .get "x"]

/-- The reply to EXEC is unread, the `Get` of `x` reads it, and that of `y` gets the
value of `x`. -/
theorem get_reads_other_reply :
    ¬ Operation.Settled (run (Operation.step answer) (Operation.connected ()) (ops.take 1)) ∧
      ∃ c c', run (Operation.step answer) (Operation.connected ()) ops = .ok c ∧
        c.get answer "y" = .ok ((0, "value of x"), c') := by
  refine ⟨?_, _, _, rfl, rfl⟩
  intro settled
  obtain ⟨ctx, ⟨⟩, -, nothing⟩ := settled _ rfl
  exact absurd nothing.allRead (by simp)

end MemoryFull

end RecommEngine.Redis
