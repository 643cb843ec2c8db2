/-
# Redis.HashBatch -- MultiHashSetEx against HashSetEx

Both write fields of hashes: `HashSetEx` one field with one HSET, and an EXPIRE
after it if that has succeeded; `MultiHashSetEx` all of them in one transaction.
An HSET on a key of another type is an error.  The single method returns false
then and sends no EXPIRE; the batch reads the array of replies to EXEC and does
not look into it.

The type of a key is a parameter of the server, taken with what redis says about
the two commands (`HashCommands`).  On a ready connection the batch always
returns true (`multiHashSetEx_eq`), so it is its single method called on the
elements one after another exactly if no key holds a value of another type
(`hash_batch_iff`).
-/
import RecommEngine.Redis.Pipelining
import RecommEngine.Redis.Transaction

namespace RecommEngine.Redis

set_option autoImplicit false

open Theory

inductive KeyType where
  | string
  | list
  | set
  | zset
  | hash
  deriving DecidableEq

section HashBatch

variable {Store : Type} (execute : Store → Command → Reply × Store)
  (typeOf : Store → String → Option KeyType)

/-- HSET works on the key: it is absent or holds a hash. -/
def Hashable (store : Store) (key : String) : Prop :=
  typeOf store key = none ∨ typeOf store key = some .hash

/-- What redis documents of HSET and of EXPIRE with a positive time. -/
structure HashCommands : Prop where
  hset : ∀ store key field value, Hashable typeOf store key →
    ((execute store (.hset key field value)).1 = .integer 0 ∨
      (execute store (.hset key field value)).1 = .integer 1) ∧
    ∀ other, typeOf (execute store (.hset key field value)).2 other =
      if other = key then some .hash else typeOf store other
  wrongType : ∀ store key field value, ¬ Hashable typeOf store key →
    ∃ str, (execute store (.hset key field value)).1 = .error str
  expire : ∀ store key life, 0 < life → typeOf store key ≠ none →
    (execute store (.expire key life)).1 = .integer 1 ∧
    typeOf (execute store (.expire key life)).2 = typeOf store

/-- The commands for one key, field and value. -/
def setField (life : Int) (entry : String × String × String) : List Command :=
  .hset entry.1 entry.2.1 entry.2.2 :: if life > 0 then [.expire entry.1 life] else []

/-- `HashSetEx` on one key, field and value. -/
def hashSetEntry (life : Int) (c : Client (Session Store)) (entry : String × String × String) :
    Except Fault (Bool × Client (Session Store)) :=
  c.hashSetEx (Session.serve execute) entry.1 entry.2.1 entry.2.2 life

/-- The batch returns true exactly if the single calls all do, and leaves the same
store. -/
def LikeHashSets (c : Client (Session Store)) (keys fields values : List String) (life : Int) :
    Prop :=
  ∃ ok results c' c'',
    c.multiHashSetEx (Session.serve execute) keys fields values life = .ok (ok, c') ∧
    oneByOne (hashSetEntry execute life) c (keys.zip (fields.zip values)) = .ok (results, c'') ∧
    (ok = true ↔ ∀ result ∈ results, result = true) ∧
    ∃ store', Ready c' store' ∧ Ready c'' store'

variable {execute typeOf} {c : Client (Session Store)} {store : Store}

/-! ## The single calls -/

/-- A key that HSET works on: the call succeeds, and HSET works on the same keys
as before. -/
theorem hashSetEntry_hashable (commands : HashCommands execute typeOf) (ready : Ready c store)
    (life : Int) {entry : String × String × String} (fits : Hashable typeOf store entry.1) :
    ∃ c', hashSetEntry execute life c entry = .ok (true, c') ∧
      Ready c' (Pipeline.after execute store (setField life entry)) ∧
      ∀ key, Hashable typeOf (Pipeline.after execute store (setField life entry)) key ↔
        Hashable typeOf store key := by
  obtain ⟨key, field, value⟩ := entry
  obtain ⟨reply, types⟩ := commands.hset store key field value fits
  have decoded : Client.interpretInteger [0, 1] (execute store (.hset key field value)).1 =
      .ok (true, "") := by
    rcases reply with zero | one
    · rw [zero]
      rfl
    · rw [one]
      rfl
  have same : ∀ other, Hashable typeOf (execute store (.hset key field value)).2 other ↔
      Hashable typeOf store other := by
    intro other
    by_cases here : other = key
    · subst here
      exact iff_of_true (Or.inr (by simp [types])) fits
    · simp [Hashable, types, here]
  obtain ⟨c₁, sent, ready₁⟩ :=
    ready_oneCommand ready (by simp [Session.Plain]) false decoded
  rw [hashSetEntry, Client.hashSetEx, sent]
  simp only [bind, Except.bind, setField]
  by_cases lasting : 0 < life
  · obtain ⟨expired, typesKept⟩ := commands.expire (execute store (.hset key field value)).2 key
      life lasting (by simp [types])
    have decoded' : Client.interpretInteger [1]
        (execute (execute store (.hset key field value)).2 (.expire key life)).1 =
        .ok (true, "") := by
      rw [expired]
      rfl
    obtain ⟨c₂, sent', ready₂⟩ :=
      ready_oneCommand ready₁ (by simp [Session.Plain]) false decoded'
    rw [if_pos ⟨trivial, lasting⟩, if_pos lasting]
    refine ⟨c₂, sent', ready₂, ?_⟩
    intro other
    rw [← same other]
    simp [Hashable, Pipeline.after, typesKept]
  · rw [if_neg (by simp [lasting]), if_neg lasting]
    exact ⟨c₁, rfl, ready₁, same⟩

/-- A key of another type: the call fails after the HSET. -/
theorem hashSetEntry_wrongType (commands : HashCommands execute typeOf) (ready : Ready c store)
    (life : Int) {entry : String × String × String} (wrong : ¬ Hashable typeOf store entry.1) :
    ∃ c' store', hashSetEntry execute life c entry = .ok (false, c') ∧ Ready c' store' := by
  obtain ⟨key, field, value⟩ := entry
  obtain ⟨str, reply⟩ := commands.wrongType store key field value wrong
  have decoded : Client.interpretInteger [0, 1] (execute store (.hset key field value)).1 =
      .ok (false, unexpectedReply (.error str)) := by
    rw [reply]
    rfl
  obtain ⟨c₁, sent, ready₁⟩ :=
    ready_oneCommand ready (by simp [Session.Plain]) false decoded
  refine ⟨c₁, _, ?_, ready₁⟩
  rw [hashSetEntry, Client.hashSetEx, sent]
  simp [bind, Except.bind, pure, Except.pure]

/-- The calls one after another: all succeed exactly if HSET works on every key of
the store before them, and then they have executed the commands of the batch. -/
theorem oneByOne_hashSets (commands : HashCommands execute typeOf) (ready : Ready c store)
    (life : Int) (entries : List (String × String × String)) :
    ∃ results c' store', oneByOne (hashSetEntry execute life) c entries = .ok (results, c') ∧
      Ready c' store' ∧
      ((∀ result ∈ results, result = true) ↔
        ∀ entry ∈ entries, Hashable typeOf store entry.1) ∧
      ((∀ entry ∈ entries, Hashable typeOf store entry.1) →
        store' = Pipeline.after execute store (entries.flatMap (setField life))) := by
  induction entries generalizing c store with
  | nil => exact ⟨[], c, store, rfl, ready, by simp, fun _ => rfl⟩
  | cons entry entries ih =>
      by_cases fits : Hashable typeOf store entry.1
      · obtain ⟨c₁, first, ready₁, same⟩ := hashSetEntry_hashable commands ready life fits
        obtain ⟨results, c₂, store₂, rest, ready₂, allTrue, after⟩ := ih ready₁
        simp only [same] at allTrue after
        refine ⟨true :: results, c₂, store₂, ?_, ready₂, ?_, ?_⟩
        · simp only [oneByOne, first, rest, bind, Except.bind]
          rfl
        · simp only [List.forall_mem_cons, allTrue, fits, true_and]
        · intro all
          rw [List.flatMap_cons, Pipeline.after_append]
          exact after fun entry' inside => all entry' (List.mem_cons_of_mem _ inside)
      · obtain ⟨c₁, store₁, first, ready₁⟩ :=
          hashSetEntry_wrongType commands ready life fits
        obtain ⟨results, c₂, store₂, rest, ready₂, -, -⟩ := ih ready₁
        refine ⟨false :: results, c₂, store₂, ?_, ready₂, ?_, ?_⟩
        · simp only [oneByOne, first, rest, bind, Except.bind]
          rfl
        · simp [fits]
        · exact fun all => absurd (all entry (by simp)) fits

/-! ## The batch -/

theorem plain_hsetCommands (keys fields values : List String) (life : Int) :
    ∀ cmd ∈ Client.hsetCommands keys fields values life, Session.Plain cmd := by
  intro cmd inside
  obtain ⟨entry, -, own⟩ := List.mem_flatMap.mp inside
  simp only [List.mem_cons] at own
  rcases own with rfl | expiry
  · simp [Session.Plain]
  · split at expiry
    · rw [List.mem_singleton.mp expiry]
      simp [Session.Plain]
    · cases expiry

/-- On a ready connection the batch returns true, whatever the commands did. -/
theorem multiHashSetEx_eq (execute : Store → Command → Reply × Store) (ready : Ready c store)
    (life : Int) {keys fields values : List String}
    (sizes : keys.length = values.length ∧ keys.length = fields.length) :
    ∃ c', c.multiHashSetEx (Session.serve execute) keys fields values life = .ok (true, c') ∧
      Ready c' (Pipeline.after execute store (Client.hsetCommands keys fields values life)) := by
  obtain ⟨ctx, connected, unbroken, allRead, session⟩ := ready
  obtain ⟨accepted, exec, after⟩ :=
    Session.serve_transaction execute (plain_hsetCommands keys fields values life) store
  rw [← session] at accepted exec after
  have reads : Client.Reads
      (if life > 0 then Client.readQueuedPairs keys.length
        else Client.readQueued keys.length : RedisContext (Session Store) → _)
      (Client.hsetCommands keys fields values life).length := by
    rw [Operation.length_hsetCommands life sizes]
    split
    · exact fun ctx unbroken enough => Client.readQueuedPairs_eq unbroken enough
    · exact Client.reads_readQueued rfl
  rw [Client.multiHashSetEx, if_neg (by simp [sizes.1]), if_neg (by simp [sizes.2]),
    Client.transaction_accepted connected unbroken allRead reads accepted, exec]
  exact ⟨_, rfl, _, rfl, unbroken, rfl, after⟩

/-- **The batch is its single method called on the elements one after another**
exactly if every key is absent or holds a hash. -/
theorem hash_batch_iff (commands : HashCommands execute typeOf) (ready : Ready c store)
    (keys fields values : List String) (life : Int)
    (sizes : keys.length = values.length ∧ keys.length = fields.length) :
    LikeHashSets execute c keys fields values life ↔
      ∀ key ∈ keys, Hashable typeOf store key := by
  have keysOf : (∀ entry ∈ keys.zip (fields.zip values), Hashable typeOf store entry.1) ↔
      ∀ key ∈ keys, Hashable typeOf store key := by
    have firsts : (keys.zip (fields.zip values)).map Prod.fst = keys :=
      List.map_fst_zip (by simp [← sizes.1, ← sizes.2])
    conv_rhs => rw [← firsts]
    simp only [List.forall_mem_map]
  obtain ⟨c₁, batch, ready₁⟩ := multiHashSetEx_eq execute ready life sizes
  obtain ⟨results, c₂, store₂, singles, ready₂, allTrue, after⟩ :=
    oneByOne_hashSets commands ready life (keys.zip (fields.zip values))
  rw [keysOf] at allTrue after
  constructor
  · rintro ⟨ok, results', c', c'', batch', singles', agree, -⟩
    obtain ⟨rfl, -⟩ := Prod.mk.inj (Except.ok.inj (batch.symm.trans batch'))
    obtain ⟨rfl, -⟩ := Prod.mk.inj (Except.ok.inj (singles.symm.trans singles'))
    exact allTrue.mp (agree.mp rfl)
  · intro fits
    refine ⟨true, results, c₁, c₂, batch, singles, iff_of_true rfl (allTrue.mpr fits), _, ready₁,
      ?_⟩
    rw [after fits] at ready₂
    exact ready₂

end HashBatch

/-! ## A string under one of the keys -/

namespace SmallHashes

inductive Value where
  | string (str : String)
  | hash (pairs : List (String × String))
  deriving DecidableEq

/-- A key with its value and the life time it was given last, if any. -/
abbrev Store := List (String × Value × Option Int)

def typeOf (store : Store) (key : String) : Option KeyType :=
  (store.lookup key).map fun entry =>
    match entry.1 with
    | .string _ => .string
    | .hash _ => .hash

def put (store : Store) (key : String) (entry : Value × Option Int) : Store :=
  (key, entry) :: store.filter fun other => other.1 ≠ key

/-- HSET and EXPIRE of redis; the other commands are not needed here. -/
def execute (store : Store) : Command → Reply × Store
  | .hset key field value =>
      match store.lookup key with
      | none => (.integer 1, put store key (.hash [(field, value)], none))
      | some (.hash pairs, life) =>
          (.integer (if (pairs.lookup field).isSome then 0 else 1),
            put store key
              (.hash ((field, value) :: pairs.filter fun pair => pair.1 ≠ field), life))
      | some (.string _, _) => (SmallStore.wrongType, store)
  | .expire key life =>
      match store.lookup key with
      | none => (.integer 0, store)
      | some (value, _) => (.integer 1, put store key (value, some life))
  | _ => (.error "ERR unknown command", store)

theorem lookup_put (store : Store) (key other : String) (entry : Value × Option Int) :
    (put store key entry).lookup other =
      if other = key then some entry else store.lookup other := by
  rw [put, List.lookup_cons]
  by_cases here : other = key
  · simp [here]
  · simp only [beq_false_of_ne here, here, if_false]
    induction store with
    | nil => rfl
    | cons first store ih =>
        by_cases own : first.1 = key
        · rw [List.filter_cons_of_neg (by simp [own]), ih, List.lookup_cons,
            beq_false_of_ne (by simp [own, here])]
        · rw [List.filter_cons_of_pos (by simp [own]), List.lookup_cons, List.lookup_cons, ih]

theorem hashCommands : HashCommands execute typeOf := by
  constructor
  · intro store key field value fits
    unfold Hashable at fits
    simp only [typeOf, execute] at fits ⊢
    cases found : store.lookup key with
    | none =>
        refine ⟨Or.inr rfl, ?_⟩
        intro other
        simp only [lookup_put]
        split <;> rfl
    | some entry =>
        obtain ⟨content, life⟩ := entry
        cases content with
        | string str => simp [found] at fits
        | hash pairs =>
            refine ⟨?_, ?_⟩
            · by_cases old : (pairs.lookup field).isSome
              · exact Or.inl (by simp [old])
              · exact Or.inr (by simp [old])
            · intro other
              simp only [lookup_put]
              split <;> rfl
  · intro store key field value wrong
    unfold Hashable at wrong
    simp only [typeOf, execute] at wrong ⊢
    cases found : store.lookup key with
    | none => simp [found] at wrong
    | some entry =>
        obtain ⟨content, life⟩ := entry
        cases content with
        | string str => exact ⟨_, rfl⟩
        | hash pairs => simp [found] at wrong
  · intro store key life positive present
    simp only [typeOf, execute] at present ⊢
    cases found : store.lookup key with
    | none => simp [found] at present
    | some entry =>
        refine ⟨rfl, ?_⟩
        funext other
        rw [typeOf, typeOf, lookup_put]
        split
        · rename_i here
          rw [here, found]
          rfl
        · rfl

def store : Store := [("s", .string "text", none), ("h", .hash [("f", "v")], none)]

def client : Client (Session Store) := { ctx := some { session := { store } } }

theorem ready : Ready client store :=
  ⟨_, rfl, rfl, rfl, rfl⟩

/-- The batch returns true, the second of the single calls false; besides, the
batch has given the string a life time of 60 seconds. -/
theorem batch_hides_error :
    HashCommands execute typeOf ∧ Ready client store ∧
      (client.multiHashSetEx (Session.serve execute) ["h", "s"] ["f", "f"] ["w", "w"]
        60).toOption.map Prod.fst = some true ∧
      (oneByOne (hashSetEntry execute 60) client [("h", "f", "w"), ("s", "f", "w")]).toOption.map
        Prod.fst = some [true, false] ∧
      ¬ LikeHashSets execute client ["h", "s"] ["f", "f"] ["w", "w"] 60 := by
  refine ⟨hashCommands, ready, rfl, rfl, ?_⟩
  rintro ⟨ok, results, c', c'', batch, singles, agree, -⟩
  obtain ⟨rfl, -⟩ := Prod.mk.inj (Except.ok.inj batch)
  obtain ⟨rfl, -⟩ := Prod.mk.inj (Except.ok.inj singles)
  exact absurd (agree.mp rfl) (by decide)

theorem hashes_like_singles :
    LikeHashSets execute client ["h", "new", "h"] ["f", "f", "g"] ["w", "w", "w"] 60 := by
  refine (hash_batch_iff hashCommands ready ["h", "new", "h"] ["f", "f", "g"] ["w", "w", "w"] 60
    ⟨rfl, rfl⟩).mpr ?_
  unfold Hashable
  decide

end SmallHashes

end RecommEngine.Redis
