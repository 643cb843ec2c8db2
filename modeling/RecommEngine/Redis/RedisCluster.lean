/-
# Redis.RedisCluster -- the servers of a cluster and the choice between them

`Initialize` reads two lists of servers from one configuration: the masters,
which also go onto the hash ring, and, in slave mode, the slaves.  Nothing
compares the two lists with each other or with the ring.  `GetRedisNode` then
tries the master of the key's node and falls back on its slave.

`initializeCluster_ok` says what a successful `Initialize` has built, in terms of the
items of the lists (`masters`, `slaves`), and `chooseClient_ok_iff` when a pair of
clients is safe to choose from.  From both follows when `GetRedisNode` is safe for
a key (`serves_iff`): there has to be a point on the ring, and in slave mode the
key's node has to be listed as a slave too, since a missing one is a null pointer
that is called as soon as the master is down.

The fields of an item are read through a token iterator that is never compared
with its end; running past it is the failure `endIterator`.
-/
import RecommEngine.Redis.HashRing
import RecommEngine.Theory.Run
import RecommEngine.Util.Tokenizer

namespace RecommEngine.Redis

set_option autoImplicit false

open Std (ExtTreeMap)
open Theory.Run Util

/-! ## Loading the servers -/

/-- The address a `redis::Client` is made for. -/
structure Endpoint where
  host : String
  port : Int32
  deriving DecidableEq

/-- The clients of one node; `none` is the null pointer. -/
structure RedisPair (Client : Type) where
  master : Option Client := none
  slave : Option Client := none
  deriving DecidableEq

/-- The options of the configuration file; `none` is an option left out. -/
structure ClusterConfig where
  isOpenSlave : Option Int32
  redisesMaster : String := ""
  redisesSlave : String := ""

structure RedisCluster where
  /-- Not set by the constructor, nor by a configuration that leaves it out. -/
  isOpenSlave : Int32
  hashRing : NodeMap := ∅
  servers : ExtTreeMap String (RedisPair Endpoint) := ∅

inductive LoadFailure where
  | returnsFalse
  | endIterator
  deriving DecidableEq

structure MasterItem where
  nodeName : String
  endpoint : Endpoint
  replicas : UInt32
  deriving DecidableEq

structure SlaveItem where
  nodeName : String
  endpoint : Endpoint
  deriving DecidableEq

namespace RedisCluster

def masterItem (item : List Char) : Except LoadFailure MasterItem :=
  match tokenizer [':'] item with
  | nodeName :: host :: port :: fields =>
      match lexicalCastInt port with
      | none => .error .returnsFalse
      | some port =>
          match fields with
          | [] => .error .endIterator
          | replicas :: _ =>
              match lexicalCastUnsigned replicas with
              | none => .error .returnsFalse
              | some replicas =>
                  .ok ⟨String.ofList nodeName, ⟨String.ofList host, port⟩, replicas⟩
  | _ => .error .endIterator

def slaveItem (item : List Char) : Except LoadFailure SlaveItem :=
  match tokenizer [':'] item with
  | nodeName :: host :: port :: _ =>
      match lexicalCastInt port with
      | none => .error .returnsFalse
      | some port => .ok ⟨String.ofList nodeName, ⟨String.ofList host, port⟩⟩
  | _ => .error .endIterator

section Load

variable (hash : String → UInt32) (connect : Endpoint → Bool)

/-- `servers_[node_name]`: a name that is not in the map gets null pointers. -/
def pairOf (c : RedisCluster) (nodeName : String) : RedisPair Endpoint :=
  c.servers.getD nodeName {}

def addMaster (c : RedisCluster) (item : MasterItem) : RedisCluster :=
  { c with
    hashRing := (HashRing.addNode hash c.hashRing item.nodeName item.replicas).2
    servers := c.servers.insert item.nodeName ⟨some item.endpoint, none⟩ }

def addSlave (c : RedisCluster) (item : SlaveItem) : RedisCluster :=
  { c with
    servers := c.servers.insert item.nodeName
      { c.pairOf item.nodeName with slave := some item.endpoint } }

/-- One round of the loop of `LoadRedisesMaster`. -/
def loadMaster (c : RedisCluster) (text : List Char) : Except LoadFailure RedisCluster :=
  match masterItem text with
  | .error failure => .error failure
  | .ok item => if connect item.endpoint then .ok (c.addMaster hash item) else .error .returnsFalse

/-- One round of the loop of `LoadRedisesSlave`. -/
def loadSlave (c : RedisCluster) (text : List Char) : Except LoadFailure RedisCluster :=
  match slaveItem text with
  | .error failure => .error failure
  | .ok item => if connect item.endpoint then .ok (c.addSlave item) else .error .returnsFalse

/-- The option is stored where the file has it. -/
def readMode (c : RedisCluster) (config : ClusterConfig) : RedisCluster :=
  { c with isOpenSlave := config.isOpenSlave.getD c.isOpenSlave }

/-- `file` is `none` when the configuration file cannot be opened. -/
def loadRedisesMaster (c : RedisCluster) (file : Option ClusterConfig) :
    Except LoadFailure RedisCluster :=
  match file with
  | none => .error .returnsFalse
  | some config => (tokenizer [' ', '\t'] config.redisesMaster.toList).foldlM
      (loadMaster hash connect) (c.readMode config)

def loadRedisesSlave (c : RedisCluster) (file : Option ClusterConfig) :
    Except LoadFailure RedisCluster :=
  match file with
  | none => .error .returnsFalse
  | some config => (tokenizer [' ', '\t'] config.redisesSlave.toList).foldlM
      (loadSlave connect) (c.readMode config)

/-- The answer `true` is `ok`, with the cluster it leaves. -/
def initializeCluster (c : RedisCluster) (file : Option ClusterConfig) :
    Except LoadFailure RedisCluster :=
  match c.loadRedisesMaster hash connect file with
  | .error failure => .error failure
  | .ok c => if c.isOpenSlave ≠ 0 then c.loadRedisesSlave connect file else .ok c

end Load

/-! ## Choosing a client -/

inductive NodeFault where
  | endIterator
  | nullClient
  deriving DecidableEq

/-- What the calls of one `GetRedisNode` answer, in the order they are made.  The
last `Reconnect` is on the slave in slave mode and on the master otherwise. -/
structure Outcomes where
  pingMaster : Bool
  reconnectMaster : Bool
  pingSlave : Bool
  reconnectLast : Bool
  deriving DecidableEq

/-- `GetRedisNode` once the node is known: its answer and `*client`. -/
def chooseClient {Client : Type} (isOpenSlave : Int32) (pair : RedisPair Client) (o : Outcomes) :
    Except NodeFault (Bool × Client) :=
  match pair.master with
  | none => .error .nullClient
  | some master =>
      if o.pingMaster then .ok (true, master)
      else if o.reconnectMaster then .ok (true, master)
      else if isOpenSlave ≠ 0 then
        match pair.slave with
        | none => .error .nullClient
        | some slave => if o.pingSlave then .ok (true, slave) else .ok (o.reconnectLast, slave)
      else .ok (o.reconnectLast, master)

def getRedisNode (hash : String → UInt32) (c : RedisCluster) (key : String) (o : Outcomes) :
    Except NodeFault (Bool × Endpoint) :=
  match HashRing.getNode hash c.hashRing key with
  | none => .error .endIterator
  | some nodeName => chooseClient c.isOpenSlave (c.pairOf nodeName) o

section Choose

variable {Client : Type} {isOpenSlave : Int32} {pair : RedisPair Client}

/-- The client that is handed out is the node's master, or its slave in slave mode. -/
theorem client_of_chooseClient {o : Outcomes} {answer : Bool} {client : Client}
    (chosen : chooseClient isOpenSlave pair o = .ok (answer, client)) :
    pair.master = some client ∨ isOpenSlave ≠ 0 ∧ pair.slave = some client := by
  unfold chooseClient at chosen
  cases master : pair.master with
  | none => simp [master] at chosen
  | some first =>
      simp only [master] at chosen
      split at chosen
      · cases chosen
        exact Or.inl rfl
      split at chosen
      · cases chosen
        exact Or.inl rfl
      split at chosen
      · rename_i on
        cases slave : pair.slave with
        | none => simp [slave] at chosen
        | some second =>
            simp only [slave] at chosen
            split at chosen <;> cases chosen <;> exact Or.inr ⟨on, rfl⟩
      · cases chosen
        exact Or.inl rfl

/-- No null client is called, whatever the servers answer, exactly if there is a
master and, in slave mode, a slave. -/
theorem chooseClient_ok_iff :
    (∀ o, ∃ answer client, chooseClient isOpenSlave pair o = .ok (answer, client)) ↔
      (∃ master, pair.master = some master) ∧
        (isOpenSlave = 0 ∨ ∃ slave, pair.slave = some slave) := by
  constructor
  · intro always
    -- With every server down both clients are called.
    obtain ⟨answer, client, chosen⟩ := always ⟨false, false, false, false⟩
    cases master : pair.master with
    | none => simp [chooseClient, master] at chosen
    | some first =>
        refine ⟨⟨first, rfl⟩, ?_⟩
        by_cases off : isOpenSlave = 0
        · exact Or.inl off
        · cases slave : pair.slave with
          | none => simp [chooseClient, master, slave, off] at chosen
          | some second => exact Or.inr ⟨second, rfl⟩
  · rintro ⟨⟨first, master⟩, slave⟩ o
    unfold chooseClient
    simp only [master]
    split
    · exact ⟨_, _, rfl⟩
    split
    · exact ⟨_, _, rfl⟩
    split
    · rename_i on
      obtain ⟨second, slave⟩ := slave.resolve_left on
      simp only [slave]
      split <;> exact ⟨_, _, rfl⟩
    · exact ⟨_, _, rfl⟩

end Choose

/-! ## What a successful start has loaded -/

/-- The items of the two lists. -/
def masters (config : ClusterConfig) : List MasterItem :=
  (tokenizer [' ', '\t'] config.redisesMaster.toList).filterMap fun text =>
    (masterItem text).toOption

def slaves (config : ClusterConfig) : List SlaveItem :=
  (tokenizer [' ', '\t'] config.redisesSlave.toList).filterMap fun text =>
    (slaveItem text).toOption

/-- The ring of a configuration. -/
def ringOf (hash : String → UInt32) (config : ClusterConfig) : NodeMap :=
  HashRing.build hash ((masters config).map fun item => (item.nodeName, item.replicas))

section Loaded

variable {hash : String → UInt32} {connect : Endpoint → Bool}

/-- A round of either loop that succeeds has read an item and added it. -/
theorem round_ok {ι σ : Type} {parsed : Except LoadFailure ι} {connects : ι → Bool}
    {add : ι → σ} {result : Except LoadFailure σ} {s' : σ}
    (fails : ∀ failure, parsed = .error failure → result = .error failure)
    (adds : ∀ item, parsed = .ok item →
      result = if connects item then .ok (add item) else .error .returnsFalse)
    (done : result = .ok s') : ∃ item, parsed.toOption = some item ∧ s' = add item := by
  cases parsed with
  | error failure =>
      rw [fails failure rfl] at done
      cases done
  | ok item =>
      rw [adds item rfl] at done
      split at done
      · exact ⟨item, rfl, (Except.ok.inj done).symm⟩
      · cases done

theorem loadRedisesMaster_ok {c c' : RedisCluster} {config : ClusterConfig}
    (loaded : c.loadRedisesMaster hash connect (some config) = .ok c') :
    c' = run (addMaster hash) (c.readMode config) (masters config) := by
  apply run_of_foldlM _ loaded
  intro s text s' done
  exact round_ok (fun _ failed => by rw [loadMaster, failed])
    (fun _ read => by rw [loadMaster, read]) done

theorem loadRedisesSlave_ok {c c' : RedisCluster} {config : ClusterConfig}
    (loaded : c.loadRedisesSlave connect (some config) = .ok c') :
    c' = run addSlave (c.readMode config) (slaves config) := by
  apply run_of_foldlM _ loaded
  intro s text s' done
  exact round_ok (fun _ failed => by rw [loadSlave, failed])
    (fun _ read => by rw [loadSlave, read]) done

theorem pairOf_addMaster (hash : String → UInt32) (c : RedisCluster) (item : MasterItem)
    (n : String) :
    (c.addMaster hash item).pairOf n =
      if item.nodeName = n then ⟨some item.endpoint, none⟩ else c.pairOf n := by
  simp only [pairOf, addMaster, ExtTreeMap.getD_insert, Std.LawfulEqOrd.compare_eq_iff_eq]

theorem pairOf_addSlave (c : RedisCluster) (item : SlaveItem) (n : String) :
    (c.addSlave item).pairOf n =
      if item.nodeName = n then { c.pairOf n with slave := some item.endpoint }
      else c.pairOf n := by
  simp only [pairOf, addSlave, ExtTreeMap.getD_insert, Std.LawfulEqOrd.compare_eq_iff_eq]
  split
  · rename_i here
    rw [here]
  · rfl

theorem slave_addSlave (c : RedisCluster) (item : SlaveItem) (n : String) :
    ((c.addSlave item).pairOf n).slave =
      if item.nodeName = n then some item.endpoint else (c.pairOf n).slave := by
  rw [pairOf_addSlave]
  split <;> rfl

theorem run_addMaster_frame (hash : String → UInt32) (items : List MasterItem)
    (c : RedisCluster) :
    (run (addMaster hash) c items).isOpenSlave = c.isOpenSlave ∧
      (run (addMaster hash) c items).hashRing =
        (items.map fun item => (item.nodeName, item.replicas)).foldl
          (fun ring node => (HashRing.addNode hash ring node.1 node.2).2) c.hashRing := by
  induction items generalizing c with
  | nil => exact ⟨rfl, rfl⟩
  | cons item items ih => exact ih (c.addMaster hash item)

theorem run_addSlave_frame (items : List SlaveItem) (c : RedisCluster) :
    (run addSlave c items).isOpenSlave = c.isOpenSlave ∧
      (run addSlave c items).hashRing = c.hashRing ∧
      ∀ n, ((run addSlave c items).pairOf n).master = (c.pairOf n).master := by
  induction items generalizing c with
  | nil => exact ⟨rfl, rfl, fun n => rfl⟩
  | cons item items ih =>
      obtain ⟨mode, ring, master⟩ := ih (c.addSlave item)
      refine ⟨mode, ring, ?_⟩
      intro n
      rw [run_cons, master n, pairOf_addSlave]
      split <;> rfl

/-- The cluster a configuration stands for. -/
structure Loaded (hash : String → UInt32) (mode : Int32) (config : ClusterConfig)
    (c : RedisCluster) : Prop where
  isOpenSlave : c.isOpenSlave = mode
  hashRing : c.hashRing = ringOf hash config
  master : ∀ item ∈ masters config, ∃ other ∈ masters config, other.nodeName = item.nodeName ∧
    (c.pairOf item.nodeName).master = some other.endpoint
  slave : mode ≠ 0 → ∀ n,
    (∃ item ∈ slaves config, item.nodeName = n ∧ (c.pairOf n).slave = some item.endpoint) ∨
      ((∀ item ∈ slaves config, item.nodeName ≠ n) ∧ (c.pairOf n).slave = none)

/-- The masters alone; a slave is null as yet. -/
theorem loaded_masters (hash : String → UInt32) (c : RedisCluster)
    (blank : ∀ n, c.pairOf n = {}) (empty : c.hashRing = ∅) (config : ClusterConfig) :
    let c' := run (addMaster hash) c (masters config)
    c'.hashRing = ringOf hash config ∧ (∀ n, (c'.pairOf n).slave = none) ∧
      ∀ item ∈ masters config, ∃ other ∈ masters config, other.nodeName = item.nodeName ∧
        (c'.pairOf item.nodeName).master = some other.endpoint := by
  have pairs := run_cell pairOf (pairOf_addMaster hash) c (masters config)
  refine ⟨?_, ?_, ?_⟩
  · rw [(run_addMaster_frame hash (masters config) c).2, empty]
    rfl
  · intro n
    rcases pairs n with ⟨item, -, -, set⟩ | ⟨-, unchanged⟩
    · rw [set]
    · rw [unchanged, blank n]
  · intro item inside
    rcases pairs item.nodeName with ⟨other, listed, same, set⟩ | ⟨absent, -⟩
    · exact ⟨other, listed, same, by rw [set]⟩
    · exact absurd rfl (absent item inside)

/-- `uninitialised` is what the mode holds before the file is read. -/
theorem initializeCluster_ok {uninitialised : Int32} {config : ClusterConfig} {c : RedisCluster}
    (initialized : initializeCluster hash connect ⟨uninitialised, ∅, ∅⟩ (some config) = .ok c) :
    Loaded hash (config.isOpenSlave.getD uninitialised) config c := by
  unfold initializeCluster at initialized
  cases loaded : loadRedisesMaster hash connect ⟨uninitialised, ∅, ∅⟩ (some config) with
  | error failure =>
      rw [loaded] at initialized
      cases initialized
  | ok first =>
      simp only [loaded] at initialized
      obtain ⟨ring, noSlave, master⟩ := loaded_masters hash
        (readMode ⟨uninitialised, ∅, ∅⟩ config) (fun n => by simp [pairOf, readMode]) rfl config
      have mode := (run_addMaster_frame hash (masters config)
        (readMode ⟨uninitialised, ∅, ∅⟩ config)).1
      rw [← loadRedisesMaster_ok loaded] at ring noSlave master mode
      have again : first.readMode config = first := by
        have same : config.isOpenSlave.getD first.isOpenSlave = first.isOpenSlave := by
          rw [mode, readMode]
          cases config.isOpenSlave <;> rfl
        rw [readMode, same]
      split at initialized
      · obtain rfl := loadRedisesSlave_ok initialized
        rw [again]
        obtain ⟨mode', ring', master'⟩ := run_addSlave_frame (slaves config) first
        refine ⟨mode'.trans mode, ring'.trans ring, ?_, ?_⟩
        · intro item inside
          rw [master' item.nodeName]
          exact master item inside
        · intro _ n
          have listed := run_cell (fun c n => (pairOf c n).slave) slave_addSlave first
            (slaves config) n
          rw [noSlave n] at listed
          exact listed
      · rename_i off
        obtain rfl := Except.ok.inj initialized
        refine ⟨mode, ring, master, ?_⟩
        intro on
        exact absurd (mode.symm ▸ on) off

end Loaded

/-! ## The key's node is served -/

theorem build_snoc (hash : String → UInt32) (nodes : List (String × UInt32))
    (last : String × UInt32) :
    HashRing.build hash (nodes ++ [last]) =
      (HashRing.addNode hash (HashRing.build hash nodes) last.1 last.2).2 := by
  simp [HashRing.build]

/-- A point of the ring belongs to a node of the list. -/
theorem mem_of_getNode_build {hash : String → UInt32} {nodes : List (String × UInt32)}
    {key name : String}
    (found : HashRing.getNode hash (HashRing.build hash nodes) key = some name) :
    ∃ node ∈ nodes, node.1 = name := by
  obtain ⟨k, node, -, here, rfl⟩ := (HashRing.getNode_eq_some_iff hash).mp found
  clear found
  induction nodes using List.reverseRecOn with
  | nil => simp [HashRing.build] at here
  | append_singleton nodes last ih =>
      rw [build_snoc, HashRing.getElem?_addNode] at here
      split at here
      · obtain rfl := Option.some.inj here
        exact ⟨last, by simp, rfl⟩
      · obtain ⟨node', inside, same⟩ := ih here
        exact ⟨node', by simp [inside], same⟩

/-- A ring has a point exactly if a node has a replica. -/
theorem exists_point_iff (hash : String → UInt32) (nodes : List (String × UInt32)) :
    (∃ (k : UInt32) (node : Node), (HashRing.build hash nodes)[k]? = some node) ↔
      ∃ node ∈ nodes, 0 < node.2 := by
  induction nodes using List.reverseRecOn with
  | nil => simp [HashRing.build]
  | append_singleton nodes last ih =>
      simp only [build_snoc, HashRing.getElem?_addNode, List.mem_append, List.mem_singleton]
      constructor
      · rintro ⟨k, node, here⟩
        split at here
        · rename_i own
          obtain ⟨r, less, -⟩ := (HashRing.mem_points hash).mp own
          have positive : 0 < last.2 :=
            UInt32.lt_iff_toNat_lt.mpr (by simpa using Nat.zero_lt_of_lt less)
          exact ⟨last, Or.inr rfl, positive⟩
        · obtain ⟨old, inside, positive⟩ := ih.mp ⟨k, node, here⟩
          exact ⟨old, Or.inl inside, positive⟩
      · rintro ⟨node, inside | rfl, positive⟩
        · obtain ⟨k, old, here⟩ := ih.mpr ⟨node, inside, positive⟩
          by_cases own : k ∈ HashRing.points hash last.1 last.2
          · exact ⟨k, _, if_pos own⟩
          · exact ⟨k, old, by rw [if_neg own, here]⟩
        · have less : 0 < node.2.toNat := by simpa using UInt32.lt_iff_toNat_lt.mp positive
          have own : HashRing.point hash node.1 0 ∈ HashRing.points hash node.1 node.2 :=
            (HashRing.mem_points hash).mpr ⟨0, less, rfl⟩
          exact ⟨_, _, if_pos own⟩

theorem getNode_isSome_iff (hash : String → UInt32) (nodes : List (String × UInt32))
    (key : String) :
    (∃ name, HashRing.getNode hash (HashRing.build hash nodes) key = some name) ↔
      ∃ node ∈ nodes, 0 < node.2 := by
  rw [← exists_point_iff hash]
  constructor
  · rintro ⟨name, found⟩
    obtain ⟨k, node, -, here, -⟩ := (HashRing.getNode_eq_some_iff hash).mp found
    exact ⟨k, node, here⟩
  · rintro ⟨k, node, here⟩
    apply HashRing.getNode_isSome
    intro empty
    simp [empty] at here

/-- The configuration lists the client's address under the node's name. -/
def ListedFor (config : ClusterConfig) (nodeName : String) (client : Endpoint) : Prop :=
  (∃ item ∈ masters config, item.nodeName = nodeName ∧ item.endpoint = client) ∨
    ∃ item ∈ slaves config, item.nodeName = nodeName ∧ item.endpoint = client

/-- `GetRedisNode` finds a ring point, calls no null client, and hands out only a
client of the point's node. -/
def Serves (hash : String → UInt32) (config : ClusterConfig) (c : RedisCluster) (key : String)
    (o : Outcomes) : Prop :=
  ∃ nodeName, HashRing.getNode hash c.hashRing key = some nodeName ∧
    ∃ answer client, c.getRedisNode hash key o = .ok (answer, client) ∧
      (answer = true → ListedFor config nodeName client)

theorem getRedisNode_eq {hash : String → UInt32} {c : RedisCluster} {key nodeName : String}
    (found : HashRing.getNode hash c.hashRing key = some nodeName) (o : Outcomes) :
    c.getRedisNode hash key o = chooseClient c.isOpenSlave (c.pairOf nodeName) o := by
  simp only [getRedisNode, found]

section Routed

variable {hash : String → UInt32} {mode : Int32} {config : ClusterConfig} {c : RedisCluster}
  {key nodeName : String}

theorem Loaded.routed_iff (loaded : Loaded hash mode config c) (key : String) :
    (∃ nodeName, HashRing.getNode hash c.hashRing key = some nodeName) ↔
      ∃ item ∈ masters config, 0 < item.replicas := by
  rw [loaded.hashRing, ringOf, getNode_isSome_iff]
  simp

/-- The master of the node a key is routed to is never null. -/
theorem Loaded.master_of_getNode (loaded : Loaded hash mode config c)
    (found : HashRing.getNode hash c.hashRing key = some nodeName) :
    ∃ item ∈ masters config, item.nodeName = nodeName ∧
      (c.pairOf nodeName).master = some item.endpoint := by
  rw [loaded.hashRing] at found
  obtain ⟨node, inside, rfl⟩ := mem_of_getNode_build found
  obtain ⟨item, listed, rfl⟩ := List.mem_map.mp inside
  exact loaded.master item listed

/-- For a key with a ring point only the slave can be null. -/
theorem Loaded.safe_iff (loaded : Loaded hash mode config c)
    (found : HashRing.getNode hash c.hashRing key = some nodeName) :
    (∀ o, ∃ answer client, c.getRedisNode hash key o = .ok (answer, client)) ↔
      mode = 0 ∨ ∃ item ∈ slaves config, item.nodeName = nodeName := by
  obtain ⟨first, -, -, master⟩ := loaded.master_of_getNode found
  simp only [getRedisNode_eq found, chooseClient_ok_iff, loaded.isOpenSlave]
  rw [and_iff_right ⟨first.endpoint, master⟩]
  apply or_congr_right'
  intro on
  rcases loaded.slave on nodeName with ⟨item, listed, same, set⟩ | ⟨absent, null⟩
  · exact iff_of_true ⟨item.endpoint, set⟩ ⟨item, listed, same⟩
  · refine iff_of_false ?_ ?_
    · rintro ⟨client, set⟩
      rw [null] at set
      cases set
    · rintro ⟨item, listed, same⟩
      exact absent item listed same

theorem Loaded.listedFor (loaded : Loaded hash mode config c)
    (found : HashRing.getNode hash c.hashRing key = some nodeName) {o : Outcomes} {answer : Bool}
    {client : Endpoint} (served : c.getRedisNode hash key o = .ok (answer, client)) :
    ListedFor config nodeName client := by
  rw [getRedisNode_eq found] at served
  rcases client_of_chooseClient served with isMaster | ⟨on, isSlave⟩
  · obtain ⟨item, inside, same, master⟩ := loaded.master_of_getNode found
    rw [master, Option.some.injEq] at isMaster
    exact Or.inl ⟨item, inside, same, isMaster⟩
  · rw [loaded.isOpenSlave] at on
    rcases loaded.slave on nodeName with ⟨item, inside, same, set⟩ | ⟨-, null⟩
    · rw [set, Option.some.injEq] at isSlave
      exact Or.inr ⟨item, inside, same, isSlave⟩
    · rw [null] at isSlave
      cases isSlave

end Routed

/-- **`GetRedisNode` serves a key** whatever the servers answer exactly if some
master has a replica and, in slave mode, the key's node is listed as a slave. -/
theorem serves_iff (hash : String → UInt32) (connect : Endpoint → Bool) (uninitialised : Int32)
    (config : ClusterConfig) (c : RedisCluster)
    (initialized : initializeCluster hash connect ⟨uninitialised, ∅, ∅⟩ (some config) = .ok c)
    (key : String) :
    (∀ o, Serves hash config c key o) ↔
      (∃ item ∈ masters config, 0 < item.replicas) ∧
        (config.isOpenSlave.getD uninitialised = 0 ∨
          ∀ nodeName, HashRing.getNode hash (ringOf hash config) key = some nodeName →
            ∃ item ∈ slaves config, item.nodeName = nodeName) := by
  have loaded := initializeCluster_ok initialized
  rw [← loaded.routed_iff key]
  constructor
  · intro always
    obtain ⟨nodeName, found, -⟩ := always ⟨false, false, false, false⟩
    have safe : ∀ o, ∃ answer client, c.getRedisNode hash key o = .ok (answer, client) := by
      intro o
      obtain ⟨-, -, answer, client, served, -⟩ := always o
      exact ⟨answer, client, served⟩
    refine ⟨⟨nodeName, found⟩, ((loaded.safe_iff found).mp safe).imp_right ?_⟩
    intro listed name same
    rw [← loaded.hashRing, found, Option.some.injEq] at same
    exact same ▸ listed
  · rintro ⟨⟨nodeName, found⟩, listed⟩ o
    have own : config.isOpenSlave.getD uninitialised = 0 ∨
        ∃ item ∈ slaves config, item.nodeName = nodeName := by
      refine listed.imp_right ?_
      intro all
      apply all nodeName
      rw [← loaded.hashRing, found]
    obtain ⟨answer, client, served⟩ := (loaded.safe_iff found).mpr own o
    exact ⟨nodeName, found, answer, client, served, fun _ => loaded.listedFor found served⟩

end RedisCluster

/-! ## A master without a slave -/

namespace LoneMaster

open RedisCluster

def start (config : ClusterConfig) : Except LoadFailure RedisCluster :=
  initializeCluster packed (fun _ => true) ⟨0, ∅, ∅⟩ (some config)

/-- Two masters, of which the second has no slave. -/
def config : ClusterConfig := ⟨some 1, "a:h:1:1 b:h:2:1", "a:h:3"⟩

/-- No master at all. -/
def noMaster : ClusterConfig := ⟨some 0, "", ""⟩

def paired : ClusterConfig := ⟨some 1, "a:h:1:1 b:h:2:1", "b:h:4 a:h:3"⟩

/-- No server answers. -/
def down : Outcomes := ⟨false, false, false, false⟩

theorem starts (config : ClusterConfig) (ok : (start config).isOk = true) :
    ∃ c, start config = .ok c := by
  cases loaded : start config with
  | error failure =>
      rw [loaded] at ok
      cases ok
  | ok c => exact ⟨c, rfl⟩

/-- A start-up with a lone master succeeds, and the null slave is called when the
master is down; one without masters succeeds too, and there is no point to find. -/
theorem lone_master_faults :
    (∃ c, start config = .ok c ∧ c.getRedisNode packed "b0" down = .error .nullClient ∧
      ¬ ∀ key o, Serves packed config c key o) ∧
    ∃ c, start noMaster = .ok c ∧ c.getRedisNode packed "b0" down = .error .endIterator ∧
      ¬ ∀ key o, Serves packed noMaster c key o := by
  have fault : ∀ {config c fault}, start config = .ok c →
      c.getRedisNode packed "b0" down = .error fault →
      ¬ ∀ key o, Serves packed config c key o := by
    intro config c fault _ faulty always
    obtain ⟨nodeName, -, answer, client, served, -⟩ := always "b0" down
    rw [faulty] at served
    cases served
  constructor
  · obtain ⟨c, started⟩ := starts config (by decide +kernel)
    have called : (start config).toOption.map (·.getRedisNode packed "b0" down) =
        some (.error .nullClient) := by decide +kernel
    simp only [started, Except.toOption, Option.map_some, Option.some.injEq] at called
    exact ⟨c, started, called, fault started called⟩
  · obtain ⟨c, started⟩ := starts noMaster (by decide +kernel)
    have called : (start noMaster).toOption.map (·.getRedisNode packed "b0" down) =
        some (.error .endIterator) := by decide +kernel
    simp only [started, Except.toOption, Option.map_some, Option.some.injEq] at called
    exact ⟨c, started, called, fault started called⟩

/-- With a slave for every master each key is served through any outage. -/
theorem paired_serves :
    ∃ c, initializeCluster packed (fun _ => true) ⟨0, ∅, ∅⟩ (some paired) = .ok c ∧
      ∀ o, Serves packed paired c "b0" o := by
  obtain ⟨c, started⟩ := starts paired (by decide +kernel)
  have nodes : masters paired = [⟨"a", ⟨"h", 1⟩, 1⟩, ⟨"b", ⟨"h", 2⟩, 1⟩] := by decide +kernel
  have backups : slaves paired = [⟨"b", ⟨"h", 4⟩⟩, ⟨"a", ⟨"h", 3⟩⟩] := by decide +kernel
  refine ⟨c, started, (serves_iff packed (fun _ => true) 0 paired c started "b0").mpr ⟨?_, ?_⟩⟩
  · rw [nodes]
    decide
  · refine Or.inr ?_
    intro nodeName found
    obtain ⟨node, inside, rfl⟩ := mem_of_getNode_build found
    simp only [nodes, List.map_cons, List.map_nil, List.mem_cons, List.not_mem_nil,
      or_false] at inside
    rw [backups]
    rcases inside with rfl | rfl <;> simp

end LoneMaster

end RecommEngine.Redis
