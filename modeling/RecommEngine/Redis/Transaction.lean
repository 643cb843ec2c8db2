/-
# Redis.Transaction -- a batch method against its single method

A server with transactions: between MULTI and EXEC it queues the commands, and
EXEC executes them in order with nothing in between and answers with the array of
their replies.  The store and what a command does to it are parameters.

Each batch getter has a reply decoder of its own, written apart from the one of
the single method.  `like_singles` proves that they agree: on a ready connection
`MultiGet`, `MultiHashGet`, `MultiHashGetAllFields`, `MultiListPopLeft` and
`MultiListPopRight` give, position by position, the values and codes of the
single method called on the elements one after another, leave the same store,
and return true exactly if every code is 0.

The two HGETALL decoders differ on a nil reply and fail a CHECK on an array that
is not made of pairs of strings; neither is a reply to HGETALL, which is an error
or the fields and values in turn (`HgetallReplies`; `genericHgetallCommand` in
`debug/redis/src/t_hash.c`).
-/
import RecommEngine.Redis.Client

namespace RecommEngine.Redis

set_option autoImplicit false

open Theory

/-- The server's side of a connection. -/
structure Session (Store : Type) where
  store : Store
  /-- The commands queued since MULTI, inside a transaction. -/
  queue : Option (List Command) := none

namespace Session

variable {Store : Type} (execute : Store → Command → Reply × Store)

def serve (s : Session Store) (cmd : Command) : Reply × Session Store :=
  match cmd, s.queue with
  | .multi, none => (.status "OK", { s with queue := some [] })
  | .multi, some _ => (.error "ERR MULTI calls can not be nested", s)
  | .exec, none => (.error "ERR EXEC without MULTI", s)
  | .exec, some cmds =>
      (.array ((Pipeline.answers execute s.store cmds).map Prod.snd),
        ⟨Pipeline.after execute s.store cmds, none⟩)
  | cmd, none => ((execute s.store cmd).1, ⟨(execute s.store cmd).2, none⟩)
  | cmd, some cmds => (.status "QUEUED", { s with queue := some (cmds ++ [cmd]) })

/-- A command that neither opens nor closes a transaction. -/
def Plain (cmd : Command) : Prop :=
  cmd ≠ .multi ∧ cmd ≠ .exec

/-! ## The server during a transaction -/

theorem serve_outside {cmd : Command} (plain : Plain cmd) (store : Store) :
    serve execute ⟨store, none⟩ cmd = ((execute store cmd).1, ⟨(execute store cmd).2, none⟩) := by
  obtain ⟨notMulti, notExec⟩ := plain
  cases cmd <;> simp_all [serve]

theorem serve_inside {cmd : Command} (plain : Plain cmd) (store : Store) (queue : List Command) :
    serve execute ⟨store, some queue⟩ cmd =
      (.status "QUEUED", ⟨store, some (queue ++ [cmd])⟩) := by
  obtain ⟨notMulti, notExec⟩ := plain
  cases cmd <;> simp_all [serve]

/-- Plain commands inside a transaction are queued and change nothing yet. -/
theorem queue_all {cmds : List Command} (plain : ∀ cmd ∈ cmds, Plain cmd) (store : Store)
    (queue : List Command) :
    Pipeline.after (serve execute) ⟨store, some queue⟩ cmds = ⟨store, some (queue ++ cmds)⟩ ∧
      ∀ q ∈ Pipeline.answers (serve execute) ⟨store, some queue⟩ cmds, q.2 = .status "QUEUED" := by
  induction cmds generalizing queue with
  | nil => simp [Pipeline.answers]
  | cons cmd cmds ih =>
      obtain ⟨state, replies⟩ := ih (fun cmd' inside => plain cmd' (List.mem_cons_of_mem _ inside))
        (queue ++ [cmd])
      rw [Pipeline.after_cons, Pipeline.answers, serve_inside execute (plain cmd (by simp))]
      refine ⟨by rw [state, List.append_assoc]; rfl, ?_⟩
      intro q inside
      rcases List.mem_cons.mp inside with rfl | later
      · rfl
      · exact replies q later

theorem statusIs_queued : (Reply.status "QUEUED").statusIs "QUEUED" = true := by
  decide

/-- What a transaction of plain commands reads, and where it leaves the server. -/
theorem serve_transaction {cmds : List Command} (plain : ∀ cmd ∈ cmds, Plain cmd)
    (store : Store) :
    (∀ q ∈ Client.queuedReplies (serve execute) ⟨store, none⟩ cmds, q.2.statusIs "QUEUED") ∧
      Client.execReply (serve execute) ⟨store, none⟩ cmds =
        .array ((Pipeline.answers execute store cmds).map Prod.snd) ∧
      Pipeline.after (serve execute) ⟨store, none⟩ (Client.inTransaction cmds) =
        ⟨Pipeline.after execute store cmds, none⟩ := by
  obtain ⟨state, replies⟩ := queue_all execute plain store []
  have opened : serve execute ⟨store, none⟩ .multi = (.status "OK", ⟨store, some []⟩) := rfl
  rw [List.nil_append] at state
  refine ⟨?_, ?_, ?_⟩
  · intro q inside
    rw [Client.queuedReplies, opened] at inside
    rw [replies q inside]
    exact statusIs_queued
  · rw [Client.execReply, Pipeline.after_cons, opened, state]
    rfl
  · rw [Client.inTransaction, Pipeline.after_cons, opened, Pipeline.after_append, state]
    rfl

end Session

/-! ## One after another -/

/-- A method called on the elements of a list, each call on the client that the
call before left. -/
def oneByOne {σ ι β : Type} (single : Client σ → ι → Except Fault (β × Client σ)) :
    Client σ → List ι → Except Fault (List β × Client σ)
  | c, [] => .ok ([], c)
  | c, x :: xs => do
      let (first, c) ← single c x
      let (rest, c) ← oneByOne single c xs
      return (first :: rest, c)

section Batch

variable {Store ι β : Type} {execute : Store → Command → Reply × Store}

/-- A client on a connection that does not break, with nothing unread and no open
transaction, to a server that holds `store`. -/
def Ready (c : Client (Session Store)) (store : Store) : Prop :=
  ∃ ctx, c.ctx = some ctx ∧ ctx.arriving = none ∧ ctx.unread = [] ∧ ctx.session = ⟨store, none⟩

/-- The batch succeeds, and its values, its codes and the store it leaves are those
of `single` on the elements one after another. -/
def LikeSingles (c : Client (Session Store))
    (single : Client (Session Store) → ι → Except Fault ((Int × β) × Client (Session Store)))
    (elements : List ι)
    (batch : Except Fault ((Bool × List β × List Int) × Client (Session Store))) : Prop :=
  ∃ ok results c' c'',
    batch = .ok ((ok, results.map Prod.snd, results.map Prod.fst), c') ∧
    oneByOne single c elements = .ok (results, c'') ∧
    (ok = true ↔ ∀ result ∈ results, result.1 = 0) ∧
    ∃ store', Ready c' store' ∧ Ready c'' store'

/-- The two decoders agree on a reply. -/
def Agree (interpret : Reply → Except Fault ((Int × β) × String))
    (element : Reply → Except Fault (Int × β)) (reply : Reply) : Prop :=
  ∃ result error, interpret reply = .ok (result, error) ∧ element reply = .ok result

theorem ready_oneCommand {c : Client (Session Store)} {store : Store} (ready : Ready c store)
    {cmd : Command} (plain : Session.Plain cmd) {α : Type} (failed : α)
    {interpret : Reply → Except Fault (α × String)} {result : α} {error : String}
    (decoded : interpret (execute store cmd).1 = .ok (result, error)) :
    ∃ c', c.oneCommand (Session.serve execute) failed cmd interpret = .ok (result, c') ∧
      Ready c' (execute store cmd).2 := by
  obtain ⟨ctx, connected, unbroken, allRead, session⟩ := ready
  have served := Session.serve_outside execute plain store
  rw [Client.oneCommand_settled connected unbroken allRead, session, served, decoded]
  refine ⟨_, rfl, _, rfl, unbroken, rfl, ?_⟩
  simp [RedisContext.exchange, Pipeline.exchange, session, served]

variable {command : ι → Command} {failed : Int × β}
  {interpret : Reply → Except Fault ((Int × β) × String)}
  {element : Reply → Except Fault (Int × β)}
  {single : Client (Session Store) → ι → Except Fault ((Int × β) × Client (Session Store))}

/-- The single calls: what they return is what the batch decodes from the replies. -/
theorem oneByOne_spec (plain : ∀ x, Session.Plain (command x))
    (agree : ∀ store x, Agree interpret element (execute store (command x)).1)
    (sends : ∀ c x, single c x =
      Client.oneCommand (Session.serve execute) c failed (command x) interpret)
    {c : Client (Session Store)} {store : Store} (ready : Ready c store) (elements : List ι) :
    ∃ results c', oneByOne single c elements = .ok (results, c') ∧
      ((Pipeline.answers execute store (elements.map command)).map Prod.snd).mapM element =
        .ok results ∧
      results.length = elements.length ∧
      Ready c' (Pipeline.after execute store (elements.map command)) := by
  induction elements generalizing c store with
  | nil => exact ⟨[], c, rfl, rfl, rfl, ready⟩
  | cons x elements ih =>
      obtain ⟨result, error, decoded, decoded'⟩ := agree store x
      obtain ⟨c₁, first, ready₁⟩ := ready_oneCommand ready (plain x) failed decoded
      obtain ⟨results, c₂, rest, replies, length, ready₂⟩ := ih ready₁
      refine ⟨result :: results, c₂, ?_, ?_, by simp [length], ready₂⟩
      · rw [oneByOne, sends, first]
        simp only [bind, Except.bind, rest]
        rfl
      · rw [List.map_cons, Pipeline.answers, List.map_cons, List.mapM_cons, decoded', replies]
        rfl

/-- The batch: one transaction of the same commands. -/
theorem multiValues_spec (plain : ∀ x, Session.Plain (command x)) {c : Client (Session Store)}
    {store : Store} (ready : Ready c store) (elements : List ι) (value : β)
    {results : List (Int × β)} (length : results.length = elements.length)
    (decoded : ((Pipeline.answers execute store (elements.map command)).map Prod.snd).mapM
      element = .ok results) :
    ∃ ok c', c.multiValues (Session.serve execute) elements.length (.ok (elements.map command))
        value element = .ok ((ok, results.map Prod.snd, results.map Prod.fst), c') ∧
      (ok = true ↔ ∀ result ∈ results, result.1 = 0) ∧
      Ready c' (Pipeline.after execute store (elements.map command)) := by
  obtain ⟨ctx, connected, unbroken, allRead, session⟩ := ready
  have allPlain : ∀ cmd ∈ elements.map command, Session.Plain cmd := by
    simpa using fun x _ => plain x
  have reads : Client.Reads (Client.readQueued elements.length : RedisContext (Session Store) → _)
      (elements.map command).length :=
    Client.reads_readQueued (by simp)
  obtain ⟨accepted, exec, after⟩ := Session.serve_transaction execute allPlain store
  rw [← session] at accepted exec after
  have all := Client.transaction_accepted connected unbroken allRead reads accepted
    (Client.noResults elements.length value)
    (Client.interpretElements elements.length (Client.noResults elements.length value) element)
  rw [Client.multiValues, all, exec, Client.interpretElements, if_neg (by simp), decoded]
  refine ⟨_, _, rfl, ?_, _, rfl, unbroken, rfl, after⟩
  rw [decide_eq_true_eq, ← length, List.countP_eq_length]
  simp

theorem likeSingles_of_agree (plain : ∀ x, Session.Plain (command x))
    (agree : ∀ store x, Agree interpret element (execute store (command x)).1)
    (sends : ∀ c x, single c x =
      Client.oneCommand (Session.serve execute) c failed (command x) interpret)
    {c : Client (Session Store)} {store : Store} (ready : Ready c store) (elements : List ι)
    (value : β) :
    LikeSingles c single elements (c.multiValues (Session.serve execute) elements.length
      (.ok (elements.map command)) value element) := by
  obtain ⟨results, c'', singles, decoded, length, ready''⟩ :=
    oneByOne_spec plain agree sends ready elements
  obtain ⟨ok, c', batch, allOk, ready'⟩ :=
    multiValues_spec plain ready elements value length decoded
  exact ⟨ok, results, c', c'', batch, singles, allOk, _, ready', ready''⟩

end Batch

/-! ## The decoders -/

theorem agree_value (absent : String) (reply : Reply) :
    Agree (Client.interpretValue absent) Client.elementValue reply := by
  cases reply <;> exact ⟨_, _, rfl, rfl⟩

/-- The replies of HGETALL: an error, or the fields and values in turn. -/
def HgetallReplies {Store : Type} (execute : Store → Command → Reply × Store) : Prop :=
  ∀ store key, (∃ str, (execute store (.hgetall key)).1 = .error str) ∨
    ∃ pairs : List (String × String), (execute store (.hgetall key)).1 =
      .array (pairs.flatMap fun pair => [.string pair.1, .string pair.2])

theorem fieldValues_pairs (map : Client.FieldValues) (pairs : List (String × String)) :
    ∃ map', Client.fieldValues map
      (pairs.flatMap fun pair => [.string pair.1, .string pair.2]) = .ok map' := by
  induction pairs generalizing map with
  | nil => exact ⟨map, rfl⟩
  | cons pair pairs ih => exact ih (map.insert pair.1 pair.2)

theorem agree_fields {Store : Type} {execute : Store → Command → Reply × Store}
    (replies : HgetallReplies execute) (store : Store) (key : String) :
    Agree Client.interpretFields Client.elementFields (execute store (.hgetall key)).1 := by
  rcases replies store key with ⟨str, reply⟩ | ⟨pairs, reply⟩
  · rw [reply]
    exact ⟨_, _, rfl, rfl⟩
  · rw [reply]
    cases pairs with
    | nil => exact ⟨_, _, rfl, rfl⟩
    | cons pair pairs =>
        obtain ⟨map, filled⟩ := fieldValues_pairs ∅ (pair :: pairs)
        simp only [List.flatMap_cons, List.cons_append, List.nil_append] at filled ⊢
        refine ⟨(0, map), "", ?_, ?_⟩
        · rw [Client.interpretFields, filled]
          · rfl
          · simp
        · rw [Client.elementFields, filled]
          · rfl
          · simp

/-- **A batch getter is its single method called on the elements one after
another**: the same values and codes in the same places, the same store after it,
and true exactly if every code is 0. -/
theorem like_singles {Store : Type} {execute : Store → Command → Reply × Store}
    (replies : HgetallReplies execute) {c : Client (Session Store)} {store : Store}
    (ready : Ready c store) :
    let answer := Session.serve execute
    (∀ keys, LikeSingles c (fun c key => c.get answer key) keys (c.multiGet answer keys)) ∧
    (∀ keys fields, keys.length = fields.length →
      LikeSingles c (fun c (pair : String × String) => c.hashGet answer pair.1 pair.2)
        (keys.zip fields) (c.multiHashGet answer keys fields)) ∧
    (∀ keys, LikeSingles c (fun c key => c.hashGetAllFields answer key) keys
      (c.multiHashGetAllFields answer keys)) ∧
    (∀ keys, LikeSingles c (fun c key => c.listPopLeft answer key) keys
      (c.multiListPopLeft answer keys)) ∧
    (∀ keys, LikeSingles c (fun c key => c.listPopRight answer key) keys
      (c.multiListPopRight answer keys)) := by
  refine ⟨fun keys => ?_, fun keys fields sizes => ?_, fun keys => ?_, fun keys => ?_,
    fun keys => ?_⟩
  · exact likeSingles_of_agree (fun key => by simp [Session.Plain]) (fun _ _ => agree_value _ _)
      (fun _ _ => rfl) ready keys ""
  · have commands : Client.hgetCommands keys fields =
        .ok ((keys.zip fields).map fun pair => .hget pair.1 pair.2) := by
      rw [Client.hgetCommands, if_neg (by omega), List.map_zip_eq_zipWith]
      rfl
    have count : keys.length = (keys.zip fields).length := by simp [sizes]
    rw [Client.multiHashGet, commands, count]
    exact likeSingles_of_agree (fun pair => by simp [Session.Plain]) (fun _ _ => agree_value _ _)
      (fun _ _ => rfl) ready (keys.zip fields) ""
  · exact likeSingles_of_agree (fun key => by simp [Session.Plain]) (agree_fields replies)
      (fun _ _ => rfl) ready keys ∅
  · exact likeSingles_of_agree (fun key => by simp [Session.Plain]) (fun _ _ => agree_value _ _)
      (fun _ _ => rfl) ready keys ""
  · exact likeSingles_of_agree (fun key => by simp [Session.Plain]) (fun _ _ => agree_value _ _)
      (fun _ _ => rfl) ready keys ""

/-! ## Keys of every type -/

namespace SmallStore

inductive Value where
  | string (str : String)
  | list (elements : List String)
  | hash (pairs : List (String × String))

abbrev Store := List (String × Value)

def wrongType : Reply :=
  .error "WRONGTYPE Operation against a key holding the wrong kind of value"

/-- A list that becomes empty is removed with its key. -/
def putList (store : Store) (key : String) (elements : List String) : Store :=
  let others := store.filter fun entry => entry.1 ≠ key
  if elements = [] then others else (key, .list elements) :: others

/-- The getters of redis; the other commands are not needed here. -/
def execute (store : Store) : Command → Reply × Store
  | .get key =>
      match store.lookup key with
      | none => (.nil, store)
      | some (.string str) => (.string str, store)
      | some _ => (wrongType, store)
  | .hget key field =>
      match store.lookup key with
      | none => (.nil, store)
      | some (.hash pairs) => ((pairs.lookup field).elim .nil .string, store)
      | some _ => (wrongType, store)
  | .hgetall key =>
      match store.lookup key with
      | none => (.array [], store)
      | some (.hash pairs) =>
          (.array (pairs.flatMap fun pair => [.string pair.1, .string pair.2]), store)
      | some _ => (wrongType, store)
  | .lpop key =>
      match store.lookup key with
      | some (.list (first :: rest)) => (.string first, putList store key rest)
      | some (.list []) => (.nil, store)
      | none => (.nil, store)
      | some _ => (wrongType, store)
  | .rpop key =>
      match store.lookup key with
      | some (.list (first :: rest)) =>
          (.string ((first :: rest).getLast (by simp)),
            putList store key (first :: rest).dropLast)
      | some (.list []) => (.nil, store)
      | none => (.nil, store)
      | some _ => (wrongType, store)
  | _ => (.error "ERR unknown command", store)

theorem hgetallReplies : HgetallReplies execute := by
  intro store key
  rw [execute]
  cases store.lookup key with
  | none => exact Or.inr ⟨[], rfl⟩
  | some value =>
      cases value with
      | hash pairs => exact Or.inr ⟨pairs, rfl⟩
      | string str => exact Or.inl ⟨_, rfl⟩
      | list elements => exact Or.inl ⟨_, rfl⟩

def store : Store := [("l", .list ["a", "b"]), ("s", .string "text"), ("h", .hash [("f", "v")])]

def client : Client (Session Store) := { ctx := some { session := { store } } }

theorem ready : Ready client store :=
  ⟨_, rfl, rfl, rfl, rfl⟩

/-- Two elements of one list, a list that is gone by then, and a key of another type. -/
theorem pops_like_singles :
    HgetallReplies execute ∧ Ready client store ∧
      LikeSingles client (fun c key => c.listPopLeft (Session.serve execute) key)
        ["l", "l", "l", "s"]
        (client.multiListPopLeft (Session.serve execute) ["l", "l", "l", "s"]) ∧
      ∃ c, client.multiListPopLeft (Session.serve execute) ["l", "l", "l", "s"] =
        .ok ((false, ["a", "b", "", ""], [0, 0, 1, -1]), c) :=
  ⟨hgetallReplies, ready, (like_singles hgetallReplies ready).2.2.2.1 _, _, rfl⟩

end SmallStore

end RecommEngine.Redis
