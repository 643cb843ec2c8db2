/-
# LoaderItems -- the three parsers of configuration lists

`LoadPlugins`, `LoadRedisesMaster` and `LoadRedisesSlave` split a string into
items at blanks and an item into fields at colons, and read the fields through an
iterator that is never compared with its end.  Numbers are read in a `try` block;
a field that is no number makes the loader return false.

What a loader expects of an item is an `ItemFormat`, one test for each field.  An
item is `Malformed` if it has too few fields or one that fails its test.  It
`Overruns` the iterator if it has too few fields and those it has pass: a failed
test ends the loader before the missing field is read.

`loaders_safe_iff` says for each loader, for every string and every outcome of
loading a library or connecting to a server: it reads no field that is not there
and returns false on a malformed item exactly if no item it comes to overruns.
-/
import RecommEngine.PluginRouting
import RecommEngine.Redis.RedisCluster

namespace RecommEngine

set_option autoImplicit false

open Theory.Run Util

/-! ## Items -/

/-- What is expected of the fields of an item, one test for each. -/
abbrev ItemFormat := List (List Char → Bool)

namespace ItemFormat

def anyField : List Char → Bool := fun _ => true

def intField (field : List Char) : Bool := (lexicalCastInt field).isSome

def unsignedField (field : List Char) : Bool := (lexicalCastUnsigned field).isSome

/-- `bucket_id:bucket_name:plugin_name`. -/
def bucket : ItemFormat := [intField, anyField, anyField]

/-- `node_name:host:port:replicas`. -/
def master : ItemFormat := [anyField, anyField, intField, unsignedField]

/-- `node_name:host:port`. -/
def slave : ItemFormat := [anyField, anyField, intField]

variable (format : ItemFormat) (item : List Char)

def Short : Prop := (tokenizer [':'] item).length < format.length

/-- The fields that are there pass their tests. -/
def Passes : Prop := ∀ test ∈ format.zip (tokenizer [':'] item), test.1 test.2 = true

def Malformed : Prop := format.Short item ∨ ¬ format.Passes item

/-- A field that is not there is read: nothing has ended the loader before it. -/
def Overruns : Prop := format.Short item ∧ format.Passes item

instance : Decidable (format.Short item) := inferInstanceAs (Decidable (_ < _))

instance : Decidable (format.Passes item) :=
  inferInstanceAs (Decidable (∀ test ∈ format.zip (tokenizer [':'] item), test.1 test.2 = true))

instance : Decidable (format.Malformed item) := inferInstanceAs (Decidable (_ ∨ _))

instance : Decidable (format.Overruns item) := inferInstanceAs (Decidable (_ ∧ _))

end ItemFormat

/-! ## The items of the plugin list -/

namespace AlgoPluginManager

variable {Plugin : Type} {load : Load Plugin} {options : BucketOptions} {i : Nat}
  {item : List Char}

theorem loadItem_crashed_iff :
    loadItem load options i item = .crashed ↔ ItemFormat.bucket.Overruns item := by
  simp only [loadItem, ItemFormat.Overruns, ItemFormat.Short, ItemFormat.Passes,
    ItemFormat.bucket]
  match fields : tokenizer [':'] item with
  | [] => simp
  | [id] => cases number : lexicalCastInt id <;> simp [ItemFormat.intField, number]
  | [id, name] =>
      cases number : lexicalCastInt id <;>
        simp [ItemFormat.intField, ItemFormat.anyField, number]
  | id :: name :: plugin :: rest =>
      refine iff_of_false ?_ fun both => absurd both.1 (by simp)
      cases number : lexicalCastInt id with
      | none => simp [number]
      | some bucketId =>
          simp only [number]
          split <;> simp

theorem wellFormed_of_loaded {bucketId : Int32} {plugin : Plugin}
    (loaded : loadItem load options i item = .loaded bucketId plugin) :
    ¬ ItemFormat.bucket.Malformed item := by
  simp only [loadItem, ItemFormat.Malformed, ItemFormat.Short, ItemFormat.Passes,
    ItemFormat.bucket] at loaded ⊢
  match fields : tokenizer [':'] item with
  | [] => simp [fields] at loaded
  | [id] => cases number : lexicalCastInt id <;> simp [fields, number] at loaded
  | [id, name] => cases number : lexicalCastInt id <;> simp [fields, number] at loaded
  | id :: name :: plugin :: rest =>
      cases number : lexicalCastInt id with
      | none => simp [fields, number] at loaded
      | some bucketId => simp [ItemFormat.intField, ItemFormat.anyField, number]

end AlgoPluginManager

/-! ## The items of the server lists -/

namespace Redis.RedisCluster

variable {item : List Char}

theorem masterItem_overruns_iff :
    masterItem item = .error .endIterator ↔ ItemFormat.master.Overruns item := by
  simp only [masterItem, ItemFormat.Overruns, ItemFormat.Short, ItemFormat.Passes,
    ItemFormat.master]
  match fields : tokenizer [':'] item with
  | [] => simp
  | [name] => simp [ItemFormat.anyField]
  | [name, host] => simp [ItemFormat.anyField]
  | [name, host, port] =>
      cases number : lexicalCastInt port <;>
        simp [ItemFormat.anyField, ItemFormat.intField, number]
  | name :: host :: port :: replicas :: rest =>
      refine iff_of_false ?_ fun both => absurd both.1 (by simp)
      cases number : lexicalCastInt port <;> cases count : lexicalCastUnsigned replicas <;>
        simp [number, count]

theorem masterItem_isOk_iff :
    (∃ parsed, masterItem item = .ok parsed) ↔ ¬ ItemFormat.master.Malformed item := by
  simp only [masterItem, ItemFormat.Malformed, ItemFormat.Short, ItemFormat.Passes,
    ItemFormat.master]
  match fields : tokenizer [':'] item with
  | [] => simp
  | [name] => simp
  | [name, host] => simp
  | [name, host, port] => cases number : lexicalCastInt port <;> simp [number]
  | name :: host :: port :: replicas :: rest =>
      cases number : lexicalCastInt port <;> cases count : lexicalCastUnsigned replicas <;>
        simp [ItemFormat.anyField, ItemFormat.intField, ItemFormat.unsignedField, number, count]

theorem slaveItem_overruns_iff :
    slaveItem item = .error .endIterator ↔ ItemFormat.slave.Overruns item := by
  simp only [slaveItem, ItemFormat.Overruns, ItemFormat.Short, ItemFormat.Passes,
    ItemFormat.slave]
  match fields : tokenizer [':'] item with
  | [] => simp
  | [name] => simp [ItemFormat.anyField]
  | [name, host] => simp [ItemFormat.anyField]
  | name :: host :: port :: rest =>
      refine iff_of_false ?_ fun both => absurd both.1 (by simp)
      cases number : lexicalCastInt port <;> simp [number]

theorem slaveItem_isOk_iff :
    (∃ parsed, slaveItem item = .ok parsed) ↔ ¬ ItemFormat.slave.Malformed item := by
  simp only [slaveItem, ItemFormat.Malformed, ItemFormat.Short, ItemFormat.Passes,
    ItemFormat.slave]
  match fields : tokenizer [':'] item with
  | [] => simp
  | [name] => simp
  | [name, host] => simp
  | name :: host :: port :: rest =>
      cases number : lexicalCastInt port <;>
        simp [ItemFormat.anyField, ItemFormat.intField, number]

end Redis.RedisCluster

/-! ## LoadPlugins -/

namespace AlgoPluginManager

variable {Plugin : Type} {load : Load Plugin} {options : BucketOptions}
  {m : AlgoPluginManager Plugin}

/-- The load comes to an end at `pc`. -/
def Ends (load : Load Plugin) (m : AlgoPluginManager Plugin) (pc : LoadPc) : Prop :=
  ∃ rounds m', (fun s => loadStep load s.1 s.2)^[rounds] (m, .start) = (m', pc)

/-- The item is entered into the table. -/
def Enters (load : Load Plugin) (options : BucketOptions) (item : List Char × Nat) : Prop :=
  ∃ bucketId plugin, loadItem load options item.2 item.1 = .loaded bucketId plugin

/-- No iterator is read at its end, and a malformed item makes the load return
false. -/
def LoadsSafely (load : Load Plugin) (options : BucketOptions) (m : AlgoPluginManager Plugin) :
    Prop :=
  ¬ Ends load m .crashed ∧
    ((∃ item ∈ bucketItems options, ItemFormat.bucket.Malformed item) →
      Ends load m (.returned false))

theorem itemsEnd_cases (load : Load Plugin) (options : BucketOptions) (i : Nat)
    (rest : List (List Char)) :
    itemsEnd load options i rest = .crashed ∨
      ∃ ok, itemsEnd load options i rest = .returned ok := by
  induction rest generalizing i with
  | nil => exact Or.inr ⟨true, rfl⟩
  | cons item rest ih =>
      rw [itemsEnd]
      cases loadItem load options i item with
      | loaded bucketId plugin => exact ih (i + 1)
      | failed => exact Or.inr ⟨false, rfl⟩
      | crashed => exact Or.inl rfl

theorem ends_iff (file : load.file = some options) {pc : LoadPc}
    (final : pc = .crashed ∨ ∃ ok, pc = .returned ok) :
    Ends load m pc ↔ itemsEnd load options 0 (bucketItems options) = pc := by
  have stands : ∀ {pc : LoadPc} (m : AlgoPluginManager Plugin),
      (pc = .crashed ∨ ∃ ok, pc = .returned ok) → loadStep load m pc = (m, pc) := by
    rintro pc m (rfl | ⟨ok, rfl⟩) <;> rfl
  obtain ⟨rounds, m', reached⟩ := exists_end file m
  constructor
  · rintro ⟨rounds', m'', reached'⟩
    exact (Prod.mk.inj (iterate_end_unique reached reached' (stands m' (itemsEnd_cases _ _ _ _))
      (stands m'' final))).2
  · rintro rfl
    exact ⟨rounds, m', reached⟩

theorem itemsEnd_crashed_iff (i : Nat) (rest : List (List Char)) :
    itemsEnd load options i rest = .crashed ↔
      ∃ item, ComesTo (Enters load options) (rest.zipIdx i) item ∧
        loadItem load options item.2 item.1 = .crashed := by
  induction rest generalizing i with
  | nil =>
      refine iff_of_false (by simp [itemsEnd]) ?_
      rintro ⟨item, comes, -⟩
      exact not_comesTo_nil comes
  | cons item rest ih =>
      rw [List.zipIdx_cons, exists_comesTo_cons, itemsEnd]
      cases result : loadItem load options i item with
      | loaded bucketId plugin =>
          refine (ih (i + 1)).trans ?_
          simp [Enters, result]
      | failed => simp [Enters, result]
      | crashed => simp

theorem wellFormed_of_itemsEnd {i : Nat} {rest : List (List Char)}
    (loaded : itemsEnd load options i rest = .returned true) :
    ∀ item ∈ rest, ¬ ItemFormat.bucket.Malformed item := by
  induction rest generalizing i with
  | nil => simp
  | cons item rest ih =>
      rw [itemsEnd] at loaded
      cases result : loadItem load options i item with
      | loaded bucketId plugin =>
          rw [result] at loaded
          exact List.forall_mem_cons.mpr ⟨wellFormed_of_loaded result, ih loaded⟩
      | failed =>
          rw [result] at loaded
          cases loaded
      | crashed =>
          rw [result] at loaded
          cases loaded

theorem loadsSafely_iff (file : load.file = some options) (m : AlgoPluginManager Plugin) :
    LoadsSafely load options m ↔
      ∀ item, ComesTo (Enters load options) (bucketItems options).zipIdx item →
        ¬ ItemFormat.bucket.Overruns item.1 := by
  rw [LoadsSafely, ends_iff file (Or.inl rfl), ends_iff file (Or.inr ⟨false, rfl⟩),
    itemsEnd_crashed_iff]
  simp only [loadItem_crashed_iff, not_exists, not_and]
  refine and_iff_left_of_imp ?_
  rintro safe ⟨item, inside, malformed⟩
  rcases itemsEnd_cases load options 0 (bucketItems options) with crashed | ⟨ok, returned⟩
  · obtain ⟨other, comes, overran⟩ := (itemsEnd_crashed_iff _ _).mp crashed
    exact absurd (loadItem_crashed_iff.mp overran) (safe other comes)
  · cases ok with
    | false => exact returned
    | true => exact absurd malformed (wellFormed_of_itemsEnd returned item inside)

end AlgoPluginManager

/-! ## LoadRedisesMaster and LoadRedisesSlave -/

namespace Redis.RedisCluster

/-- How a round of the two loops fails, if it does. -/
def roundFails {ι : Type} (parsed : Except LoadFailure ι) (connects : ι → Bool) :
    Option LoadFailure :=
  match parsed with
  | .error failure => some failure
  | .ok item => if connects item then none else some .returnsFalse

/-- No iterator is read at its end, and a malformed item makes the loader return
false. -/
def LoadsSafely {σ : Type} (format : ItemFormat) (items : List (List Char))
    (result : Except LoadFailure σ) : Prop :=
  result ≠ .error .endIterator ∧
    ((∃ item ∈ items, format.Malformed item) → result = .error .returnsFalse)

theorem roundFails_overruns {ι : Type} {parsed : Except LoadFailure ι} {connects : ι → Bool} :
    roundFails parsed connects = some .endIterator ↔ parsed = .error .endIterator := by
  cases parsed with
  | error failure => simp [roundFails]
  | ok item => by_cases connected : connects item <;> simp [roundFails, connected]

theorem isOk_of_roundFails {ι : Type} {parsed : Except LoadFailure ι} {connects : ι → Bool}
    (passes : roundFails parsed connects = none) : ∃ item, parsed = .ok item := by
  cases parsed with
  | error failure => simp [roundFails] at passes
  | ok item => exact ⟨item, rfl⟩

/-- A loop over the items of a list, each parsed and then connected to. -/
theorem loop_safe_iff {σ ι : Type} {round : σ → List Char → Except LoadFailure σ}
    {parse : List Char → Except LoadFailure ι} {connects : ι → Bool} {format : ItemFormat}
    (failing : ∀ s item failure, round s item = .error failure ↔
      roundFails (parse item) connects = some failure)
    (overruns : ∀ item, parse item = .error .endIterator ↔ format.Overruns item)
    (parses : ∀ item, (∃ parsed, parse item = .ok parsed) ↔ ¬ format.Malformed item)
    (items : List (List Char)) (s : σ) :
    LoadsSafely format items (items.foldlM round s) ↔
      ∀ item, ComesTo (fun other => roundFails (parse other) connects = none) items item →
        ¬ format.Overruns item := by
  rw [LoadsSafely, ne_eq, foldlM_eq_error_iff failing, foldlM_eq_error_iff failing]
  simp only [roundFails_overruns, overruns, not_exists, not_and]
  refine and_iff_left_of_imp ?_
  rintro safe ⟨item, inside, malformed⟩
  have unparsed : ¬ roundFails (parse item) connects = none := fun passes =>
    (parses item).mp (isOk_of_roundFails passes) malformed
  obtain ⟨first, comes, fails⟩ := @exists_comesTo _
    (fun other => roundFails (parse other) connects = none) _ _ inside unparsed
  refine ⟨first, comes, ?_⟩
  cases found : roundFails (parse first) connects with
  | none => exact absurd found fails
  | some failure =>
      cases failure with
      | returnsFalse => rfl
      | endIterator =>
          exact absurd ((overruns first).mp (roundFails_overruns.mp found)) (safe first comes)

theorem loadMaster_error_iff (hash : String → UInt32) (connect : Endpoint → Bool)
    (c : RedisCluster) (item : List Char) (failure : LoadFailure) :
    loadMaster hash connect c item = .error failure ↔
      roundFails (masterItem item) (fun parsed => connect parsed.endpoint) = some failure := by
  unfold loadMaster roundFails
  cases masterItem item with
  | error other => simp
  | ok parsed => by_cases connected : connect parsed.endpoint <;> simp [connected]

theorem loadSlave_error_iff (connect : Endpoint → Bool) (c : RedisCluster) (item : List Char)
    (failure : LoadFailure) :
    loadSlave connect c item = .error failure ↔
      roundFails (slaveItem item) (fun parsed => connect parsed.endpoint) = some failure := by
  unfold loadSlave roundFails
  cases slaveItem item with
  | error other => simp
  | ok parsed => by_cases connected : connect parsed.endpoint <;> simp [connected]

end Redis.RedisCluster

open AlgoPluginManager Redis Redis.RedisCluster in
/-- **When the three loaders are safe.**  For every string and whatever the dynamic
loader and the servers do: a loader reads only fields that are there and returns
false on a malformed item exactly if no item it comes to has too few fields and a
number in every place where one is expected. -/
theorem loaders_safe_iff {Plugin : Type} :
    (∀ options getPluginFromDylib (m : AlgoPluginManager Plugin),
      AlgoPluginManager.LoadsSafely ⟨some options, getPluginFromDylib⟩ options m ↔
        ∀ item, ComesTo (Enters ⟨some options, getPluginFromDylib⟩ options)
            (bucketItems options).zipIdx item → ¬ ItemFormat.bucket.Overruns item.1) ∧
    (∀ hash connect (c : RedisCluster) (config : ClusterConfig),
      RedisCluster.LoadsSafely ItemFormat.master
          (tokenizer [' ', '\t'] config.redisesMaster.toList)
          (c.loadRedisesMaster hash connect (some config)) ↔
        ∀ item, ComesTo (fun other => roundFails (masterItem other)
            (fun parsed => connect parsed.endpoint) = none)
            (tokenizer [' ', '\t'] config.redisesMaster.toList) item →
          ¬ ItemFormat.master.Overruns item) ∧
    (∀ connect (c : RedisCluster) (config : ClusterConfig),
      RedisCluster.LoadsSafely ItemFormat.slave
          (tokenizer [' ', '\t'] config.redisesSlave.toList)
          (c.loadRedisesSlave connect (some config)) ↔
        ∀ item, ComesTo (fun other => roundFails (slaveItem other)
            (fun parsed => connect parsed.endpoint) = none)
            (tokenizer [' ', '\t'] config.redisesSlave.toList) item →
          ¬ ItemFormat.slave.Overruns item) := by
  refine ⟨?_, ?_, ?_⟩
  · intro options getPluginFromDylib m
    exact loadsSafely_iff rfl m
  · intro hash connect c config
    exact loop_safe_iff (loadMaster_error_iff hash connect) (fun _ => masterItem_overruns_iff)
      (fun _ => masterItem_isOk_iff) _ _
  · intro connect c config
    exact loop_safe_iff (loadSlave_error_iff connect) (fun _ => slaveItem_overruns_iff)
      (fun _ => slaveItem_isOk_iff) _ _

/-! ## Poles -/

namespace MissingField

open AlgoPluginManager Redis Redis.RedisCluster

def options (buckets : String) : BucketOptions := { numBuckets := some 4, buckets := buckets }

def config (redisesMaster redisesSlave : String) : ClusterConfig :=
  ⟨some 1, redisesMaster, redisesSlave⟩

def empty : RedisCluster := { isOpenSlave := 0 }

/-- An item with a bucket id and nothing else, a master without its replicas and a
slave without its port: all three loaders run past the end of the item. -/
theorem missing_field_overruns :
    Ends (TwoBuckets.load (options "0")) TwoBuckets.new .crashed ∧
      empty.loadRedisesMaster packed (fun _ => true) (some (config "a:h:1" "")) =
        .error .endIterator ∧
      empty.loadRedisesSlave (fun _ => true) (some (config "" "a:h")) = .error .endIterator ∧
      ¬ AlgoPluginManager.LoadsSafely (TwoBuckets.load (options "0")) (options "0")
        TwoBuckets.new ∧
      ¬ RedisCluster.LoadsSafely ItemFormat.master [['a', ':', 'h', ':', '1']]
        (empty.loadRedisesMaster packed (fun _ => true) (some (config "a:h:1" ""))) ∧
      ¬ RedisCluster.LoadsSafely ItemFormat.slave [['a', ':', 'h']]
        (empty.loadRedisesSlave (fun _ => true) (some (config "" "a:h"))) := by
  have crashed : Ends (TwoBuckets.load (options "0")) TwoBuckets.new .crashed := ⟨4, _, rfl⟩
  have master : empty.loadRedisesMaster packed (fun _ => true) (some (config "a:h:1" "")) =
      .error .endIterator := rfl
  have slave : empty.loadRedisesSlave (fun _ => true) (some (config "" "a:h")) =
      .error .endIterator := rfl
  exact ⟨crashed, master, slave, fun safe => safe.1 crashed, fun safe => safe.1 master,
    fun safe => safe.1 slave⟩

/-- A field that is no number is noticed before the field that is missing. -/
example : ItemFormat.bucket.Malformed ['x'] ∧ ¬ ItemFormat.bucket.Overruns ['x'] := by decide

end MissingField

end RecommEngine
