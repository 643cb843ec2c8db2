/-
# AlgoPluginManager -- routing users to algorithm plugins, with reloads

The manager keeps two copies of the bucket table.  `Select` reads the one
`current_index_` points at; `LoadPlugins` fills the other one from the
configuration file and flips the index when everything has been loaded.

Both are run here in the steps of their memory accesses, so a run of `System` is
an interleaving of one `Select` with one `LoadPlugins`.  `Serves` is the
invariant: whatever slot the reader has picked holds one whole configuration,
and the loader is done with it or never touches it.

`select_routes` is the result: after any history of completed loads, `Select`
answers as the configuration in force before the concurrent load does, or, if
that load succeeds, as the new one does.

What the option parser of boost has read from the file and what the dynamic
loader makes of a library are inputs of a load.
-/
import RecommEngine.Theory.Run
import RecommEngine.Util.Tokenizer

namespace RecommEngine

set_option autoImplicit false

open Std (ExtTreeMap)
open Theory.Run Util

/-- The options of the configuration file; an omitted one is `none` or has the
default the source gives it. -/
structure BucketOptions where
  numBuckets : Option Int32 := none
  defaultBucket : Int32 := 0
  pluginPath : String := ""
  buckets : String := ""

/-- What one run of `LoadPlugins` meets: the file, `none` if it cannot be
opened, and the outcome of `GetPluginFromDylib` for the `i`-th item. -/
structure Load (Plugin : Type) where
  file : Option BucketOptions
  getPluginFromDylib : Nat → String → String → String → Option Plugin

/-- One of the two copies of the table.  A null pointer is `none`. -/
structure Slot (Plugin : Type) where
  plugins : ExtTreeMap Int32 (Option Plugin) := ∅
  defaultPlugin : Option Plugin := none
  numPlugins : Int32

structure AlgoPluginManager (Plugin : Type) where
  currentIndex : Fin 2 := 0
  slots : Fin 2 → Slot Plugin

inductive ItemResult (Plugin : Type) where
  | loaded (bucketId : Int32) (plugin : Plugin)
  | failed
  /-- A field iterator is read at its end. -/
  | crashed

inductive LoadPc where
  | start
  | clearing (index : Fin 2)
  | opening (index : Fin 2)
  | items (index : Fin 2) (options : BucketOptions) (i : Nat) (rest : List (List Char))
  | flipping (index : Fin 2)
  | returned (ok : Bool)
  | crashed

/-- The load has returned true. -/
def LoadPc.flipped : LoadPc → Bool
  | .returned ok => ok
  | _ => false

inductive SelectPc (Plugin : Type) where
  | start
  | readModulus (index : Fin 2)
  | lookUp (index : Fin 2) (mod : Int32)
  | readDefault (index : Fin 2)
  | returned (plugin : Option Plugin)
  /-- Division by zero. -/
  | faulted

namespace AlgoPluginManager

variable {Plugin : Type}

/-! ## LoadPlugins -/

def bucketItems (options : BucketOptions) : List (List Char) :=
  tokenizer [' ', '\t'] options.buckets.toList

/-- One round of the loop over the bucket items. -/
def loadItem (load : Load Plugin) (options : BucketOptions) (i : Nat) (item : List Char) :
    ItemResult Plugin :=
  match tokenizer [':'] item with
  | [] => .crashed
  | field :: fields =>
      match lexicalCastInt field with
      | none => .failed
      | some bucketId =>
          match fields with
          | _bucketName :: name :: _ =>
              let pluginName := String.ofList name
              let pluginLibfile := options.pluginPath ++ "/lib" ++ pluginName ++ ".so"
              let pluginConfig := options.pluginPath ++ "/lib" ++ pluginName ++ ".conf"
              let pluginSymbol := "__create_" ++ pluginName
              match load.getPluginFromDylib i pluginLibfile pluginSymbol pluginConfig with
              | none => .failed
              | some plugin => .loaded bucketId plugin
          | _ => .crashed

def setSlot (m : AlgoPluginManager Plugin) (index : Fin 2) (slot : Slot Plugin) :
    AlgoPluginManager Plugin :=
  { m with slots := Function.update m.slots index slot }

/-- One memory access of `LoadPlugins`. -/
def loadStep (load : Load Plugin) (m : AlgoPluginManager Plugin) :
    LoadPc → AlgoPluginManager Plugin × LoadPc
  | .start => (m, .clearing (1 - m.currentIndex))
  | .clearing index => (m.setSlot index { m.slots index with plugins := ∅ }, .opening index)
  | .opening index =>
      match load.file with
      | none => (m, .returned false)
      | some options =>
          (m.setSlot index { m.slots index with
              numPlugins := options.numBuckets.getD (m.slots index).numPlugins },
            .items index options 0 (bucketItems options))
  | .items index options i (item :: rest) =>
      match loadItem load options i item with
      | .failed => (m, .returned false)
      | .crashed => (m, .crashed)
      | .loaded bucketId plugin =>
          (m.setSlot index { m.slots index with
              plugins := (m.slots index).plugins.insert bucketId (some plugin) },
            .items index options (i + 1) rest)
  | .items index options _ [] =>
      -- `operator[]` creates a null entry for a default bucket that is not listed
      let plugins := (m.slots index).plugins.alter options.defaultBucket fun p => some (p.getD none)
      (m.setSlot index { m.slots index with
          plugins := plugins, defaultPlugin := (plugins[options.defaultBucket]?).getD none },
        .flipping index)
  | .flipping index => ({ m with currentIndex := index }, .returned true)
  | .returned ok => (m, .returned ok)
  | .crashed => (m, .crashed)

/-- The slot that is not in use, which the next load fills. -/
abbrev spare (m : AlgoPluginManager Plugin) : Fin 2 := 1 - m.currentIndex

/-! ## Select -/

/-- `id % num_plugins_` over `uint64_t`, stored in an `int`. -/
def modulus (id : UInt64) (numPlugins : Int32) : Int32 :=
  (id % numPlugins.toInt64.toUInt64).toUInt32.toInt32

def selectStep (id : UInt64) (m : AlgoPluginManager Plugin) : SelectPc Plugin → SelectPc Plugin
  | .start => .readModulus m.currentIndex
  | .readModulus index =>
      if (m.slots index).numPlugins = 0 then .faulted
      else .lookUp index (modulus id (m.slots index).numPlugins)
  | .lookUp index mod =>
      match (m.slots index).plugins[mod]? with
      | some plugin => .returned plugin
      | none => .readDefault index
  | .readDefault index => .returned (m.slots index).defaultPlugin
  | .returned plugin => .returned plugin
  | .faulted => .faulted

/-! ## Interleavings -/

/-- One `Select` and one `LoadPlugins` at work on the manager. -/
structure System (Plugin : Type) where
  manager : AlgoPluginManager Plugin
  select : SelectPc Plugin := .start
  load : LoadPc := .start

inductive PluginEvent where
  | select
  | load
  deriving DecidableEq

def step (load : Load Plugin) (id : UInt64) (s : System Plugin) : PluginEvent → System Plugin
  | .select => { s with select := selectStep id s.manager s.select }
  | .load =>
      let (manager, pc) := loadStep load s.manager s.load
      { s with manager := manager, load := pc }

/-- The manager after a history of completed loads, each with its result.  The
moduli of a new manager are uninitialised. -/
inductive Loaded : List (Load Plugin × Bool) → AlgoPluginManager Plugin → Prop
  | initial (n n' : Int32) : Loaded [] ⟨0, ![⟨∅, none, n⟩, ⟨∅, none, n'⟩]⟩
  | load {history : List (Load Plugin × Bool)} {m m' : AlgoPluginManager Plugin} {load : Load Plugin}
      {ok : Bool} (rounds : Nat) (before : Loaded history m)
      (completed : (fun s => loadStep load s.1 s.2)^[rounds] (m, .start) = (m', .returned ok)) :
      Loaded (history ++ [(load, ok)]) m'

/-! ## What a configuration means -/

/-- A configuration that has been loaded, with its entries as they are listed. -/
structure BucketConfig (Plugin : Type) where
  numBuckets : Int32
  defaultBucket : Int32
  entries : List (Int32 × Plugin)

/-- The plugin of the last entry listed for a bucket. -/
def lastListed (entries : List (Int32 × Plugin)) (bucket : Int) : Option Plugin :=
  (entries.reverse.find? fun entry => entry.1.toInt = bucket).map Prod.snd

/-- The plugin of the user's bucket, or else of the default bucket. -/
def BucketConfig.route (cfg : BucketConfig Plugin) (id : UInt64) : Option Plugin :=
  (lastListed cfg.entries (id.toNat % cfg.numBuckets.toInt)).or
    (lastListed cfg.entries cfg.defaultBucket.toInt)

/-- The entries of the items from the `i`-th on, if all of them load. -/
def entriesFrom (load : Load Plugin) (options : BucketOptions) :
    Nat → List (List Char) → Option (List (Int32 × Plugin))
  | _, [] => some []
  | i, item :: rest =>
      match loadItem load options i item with
      | .loaded bucketId plugin => (entriesFrom load options (i + 1) rest).map ((bucketId, plugin) :: ·)
      | _ => none

def loadedEntries (load : Load Plugin) (options : BucketOptions) : Option (List (Int32 × Plugin)) :=
  entriesFrom load options 0 (bucketItems options)

/-- The configuration of a load that succeeds. -/
def config (load : Load Plugin) : Option (BucketConfig Plugin) :=
  load.file.bind fun options => (loadedEntries load options).bind fun entries =>
    options.numBuckets.map fun n => ⟨n, options.defaultBucket, entries⟩

/-- If the load succeeds, its file gives a positive number of buckets and lists
the default bucket. -/
def Usable (load : Load Plugin) : Prop :=
  ∀ options entries, load.file = some options → loadedEntries load options = some entries →
    ∃ n, options.numBuckets = some n ∧ 0 < n ∧ ∃ entry ∈ entries, entry.1 = options.defaultBucket

/-- The slot holds the configuration. -/
structure Represents (slot : Slot Plugin) (cfg : BucketConfig Plugin) : Prop where
  modulus : slot.numPlugins = cfg.numBuckets
  positive : 0 < cfg.numBuckets
  plugins : ∀ b : Int32, slot.plugins[b]? = (lastListed cfg.entries b.toInt).map some
  default : slot.defaultPlugin = lastListed cfg.entries cfg.defaultBucket.toInt
  listed : ∃ plugin, lastListed cfg.entries cfg.defaultBucket.toInt = some plugin

theorem lastListed_append (entries : List (Int32 × Plugin)) (entry : Int32 × Plugin) (bucket : Int) :
    lastListed (entries ++ [entry]) bucket =
      if entry.1.toInt = bucket then some entry.2 else lastListed entries bucket := by
  rw [lastListed, List.reverse_append, List.reverse_singleton, List.singleton_append, List.find?_cons]
  split
  · rename_i here
    rw [if_pos (of_decide_eq_true here)]
    rfl
  · rename_i other
    rw [if_neg (of_decide_eq_false other)]
    rfl

theorem lastListed_of_mem {entries : List (Int32 × Plugin)} {entry : Int32 × Plugin}
    (inside : entry ∈ entries) : ∃ plugin, lastListed entries entry.1.toInt = some plugin := by
  rcases found : entries.reverse.find? (fun other => decide (other.1.toInt = entry.1.toInt)) with
    _ | other
  · have := List.find?_eq_none.mp found entry (List.mem_reverse.mpr inside)
    simp at this
  · exact ⟨other.2, by rw [lastListed, found, Option.map_some]⟩

/-- The modulus of an `int` that is positive is the one of integers. -/
theorem toInt_modulus (id : UInt64) {n : Int32} (positive : 0 < n) :
    (modulus id n).toInt = id.toNat % n.toInt := by
  have range : 0 < n.toInt ∧ n.toInt < 2 ^ 31 :=
    ⟨by simpa using Int32.lt_iff_toInt_lt.mp positive, Int32.toInt_lt n⟩
  have wide : (n.toInt64.toUInt64.toNat : Int) = n.toInt := by
    have value := BitVec.toInt_eq_toNat_cond n.toInt64.toBitVec
    have same : n.toInt64.toBitVec.toInt = n.toInt := Int32.toInt_toInt64 n
    show (n.toInt64.toBitVec.toNat : Int) = n.toInt
    split at value <;> omega
  have small : id.toNat % n.toInt64.toUInt64.toNat < n.toInt64.toUInt64.toNat :=
    Nat.mod_lt _ (by omega)
  have narrow : (id % n.toInt64.toUInt64).toUInt32.toNat = id.toNat % n.toInt64.toUInt64.toNat := by
    rw [UInt64.toNat_toUInt32, UInt64.toNat_mod, Nat.mod_eq_of_lt (by omega)]
  have fits : (modulus id n).toInt = (id % n.toInt64.toUInt64).toUInt32.toNat := by
    show (id % n.toInt64.toUInt64).toUInt32.toBitVec.toInt = _
    apply BitVec.toInt_eq_toNat_of_lt
    show 2 * (id % n.toInt64.toUInt64).toUInt32.toNat < 2 ^ 32
    omega
  rw [fits, narrow, Int.natCast_mod, wide]

/-! ## The loader -/

/-- How far a load that began at `old` has come. -/
def Progress (load : Load Plugin) (old m : AlgoPluginManager Plugin) : LoadPc → Prop
  | .clearing index => index = 1 - old.currentIndex
  | .opening index => index = 1 - old.currentIndex ∧ (m.slots index).plugins = ∅
  | .items index options i rest =>
      index = 1 - old.currentIndex ∧ load.file = some options ∧
        (∀ n, options.numBuckets = some n → (m.slots index).numPlugins = n) ∧
        ∃ done, (∀ b : Int32, (m.slots index).plugins[b]? = (lastListed done b.toInt).map some) ∧
          loadedEntries load options = (entriesFrom load options i rest).map (done ++ ·)
  | .flipping index =>
      index = 1 - old.currentIndex ∧ ∃ cfg, config load = some cfg ∧ Represents (m.slots index) cfg
  | .returned true =>
      ∃ cfg, config load = some cfg ∧ Represents (m.slots (1 - old.currentIndex)) cfg
  | _ => True

/-- What holds of the manager at each step of a load that began at `old`.  The
slot in use is never written to before the flip. -/
structure LoaderAt (load : Load Plugin) (old m : AlgoPluginManager Plugin) (pc : LoadPc) : Prop where
  kept : m.slots old.currentIndex = old.slots old.currentIndex
  current : m.currentIndex = if pc.flipped then 1 - old.currentIndex else old.currentIndex
  progress : Progress load old m pc

theorem other_ne (index : Fin 2) : index ≠ 1 - index := by
  revert index
  decide

@[simp] theorem slots_setSlot (m : AlgoPluginManager Plugin) (index : Fin 2) (slot : Slot Plugin) :
    (m.setSlot index slot).slots index = slot := by
  simp [setSlot]

theorem slots_setSlot_other (m : AlgoPluginManager Plugin) {index : Fin 2} (slot : Slot Plugin)
    {i : Fin 2} (other : index = 1 - i) : (m.setSlot index slot).slots i = m.slots i := by
  apply Function.update_of_ne
  rw [other]
  exact other_ne i

/-- The table after one more item. -/
theorem plugins_insert {plugins : ExtTreeMap Int32 (Option Plugin)} {done : List (Int32 × Plugin)}
    (holds : ∀ b : Int32, plugins[b]? = (lastListed done b.toInt).map some) (bucketId : Int32)
    (plugin : Plugin) (b : Int32) :
    (plugins.insert bucketId (some plugin))[b]? =
      (lastListed (done ++ [(bucketId, plugin)]) b.toInt).map some := by
  rw [ExtTreeMap.getElem?_insert, lastListed_append]
  by_cases same : bucketId = b
  · simp [same]
  · have differ : bucketId.toInt ≠ b.toInt := fun eq => same (Int32.toInt_inj.mp eq)
    simp [same, differ, holds b]

/-- One more item has been entered: the entries done and those to come are still
all entries. -/
theorem entries_after_item {load : Load Plugin} {options : BucketOptions} {i : Nat}
    {item : List Char} {rest : List (List Char)} {done : List (Int32 × Plugin)}
    {bucketId : Int32} {plugin : Plugin}
    (remaining : loadedEntries load options =
      (entriesFrom load options i (item :: rest)).map (done ++ ·))
    (result : loadItem load options i item = .loaded bucketId plugin) :
    loadedEntries load options =
      (entriesFrom load options (i + 1) rest).map (done ++ [(bucketId, plugin)] ++ ·) := by
  rw [remaining, entriesFrom, result, Option.map_map]
  congr 1
  funext more
  simp

/-- The end of the list: the default bucket is listed, so the table stays as it
is and the slot holds the whole configuration. -/
theorem LoaderAt.finish {load : Load Plugin} {old m : AlgoPluginManager Plugin} {index : Fin 2}
    {options : BucketOptions} {i : Nat} (usable : Usable load)
    (loader : LoaderAt load old m (.items index options i [])) :
    LoaderAt load old (loadStep load m (.items index options i [])).1
      (loadStep load m (.items index options i [])).2 := by
  obtain ⟨kept, current, other, file, moduli, done, holds, remaining⟩ := loader
  have entries : loadedEntries load options = some done := by
    simpa [entriesFrom] using remaining
  obtain ⟨n, given, positive, entry, inside, isDefault⟩ := usable options done file entries
  obtain ⟨plugin, listed⟩ := lastListed_of_mem inside
  rw [isDefault] at listed
  have same : ((m.slots index).plugins.alter options.defaultBucket
      fun p => some (p.getD none)) = (m.slots index).plugins := by
    apply ExtTreeMap.ext_getElem?
    intro b
    rw [ExtTreeMap.getElem?_alter]
    by_cases here : options.defaultBucket = b
    · subst here
      simp [holds, listed]
    · simp [here]
  simp only [loadStep, same]
  refine ⟨(slots_setSlot_other m _ other).trans kept, current, other,
    ⟨n, options.defaultBucket, done⟩, by simp [config, file, entries, given], ?_⟩
  rw [slots_setSlot]
  refine ⟨moduli n given, positive, holds, ?_, plugin, listed⟩
  simp only [holds, listed, Option.map_some, Option.getD_some]

/-- One item of the list, which is entered into the table or ends the load. -/
theorem LoaderAt.item {load : Load Plugin} {old m : AlgoPluginManager Plugin} {index : Fin 2}
    {options : BucketOptions} {i : Nat} {item : List Char} {rest : List (List Char)}
    (loader : LoaderAt load old m (.items index options i (item :: rest))) :
    LoaderAt load old (loadStep load m (.items index options i (item :: rest))).1
      (loadStep load m (.items index options i (item :: rest))).2 := by
  obtain ⟨kept, current, other, file, moduli, done, holds, remaining⟩ := loader
  rcases result : loadItem load options i item with ⟨bucketId, plugin⟩ | _ | _ <;>
    simp only [loadStep, result]
  · refine ⟨(slots_setSlot_other m _ other).trans kept, current, other, file, ?_,
      done ++ [(bucketId, plugin)], ?_, entries_after_item remaining result⟩
    · intro n given
      rw [slots_setSlot]
      exact moduli n given
    · intro b
      rw [slots_setSlot]
      exact plugins_insert holds bucketId plugin b
  · exact ⟨kept, current, trivial⟩
  · exact ⟨kept, current, trivial⟩

/-- One step of the loader. -/
theorem LoaderAt.step {load : Load Plugin} {old m : AlgoPluginManager Plugin} {pc : LoadPc}
    (usable : Usable load) (loader : LoaderAt load old m pc) :
    LoaderAt load old (loadStep load m pc).1 (loadStep load m pc).2 := by
  cases pc with
  | start =>
      obtain ⟨kept, current, progress⟩ := loader
      have here : m.currentIndex = old.currentIndex := current
      exact ⟨kept, current, by simp only [loadStep, here, Progress]⟩
  | clearing index =>
      obtain ⟨kept, current, other⟩ := loader
      exact ⟨(slots_setSlot_other m _ other).trans kept, current, other,
        by simp only [loadStep, slots_setSlot]⟩
  | opening index =>
      obtain ⟨kept, current, other, empty⟩ := loader
      cases file : load.file with
      | none =>
          simp only [loadStep, file]
          exact ⟨kept, current, trivial⟩
      | some options =>
          simp only [loadStep, file]
          refine ⟨(slots_setSlot_other m _ other).trans kept, current, other, file, ?_, [], ?_, ?_⟩
          · intro n given
            rw [slots_setSlot, given, Option.getD_some]
          · intro b
            rw [slots_setSlot, empty]
            simp [lastListed]
          · simp [loadedEntries]
  | items index options i rest =>
      cases rest with
      | nil => exact loader.finish usable
      | cons item rest => exact loader.item
  | flipping index =>
      obtain ⟨kept, current, rfl, represented⟩ := loader
      exact ⟨kept, rfl, represented⟩
  | returned ok => exact loader
  | crashed => exact loader

theorem LoaderAt.iterate {load : Load Plugin} (usable : Usable load) (m : AlgoPluginManager Plugin)
    (rounds : Nat) :
    LoaderAt load m ((fun s => loadStep load s.1 s.2)^[rounds] (m, .start)).1
      ((fun s => loadStep load s.1 s.2)^[rounds] (m, .start)).2 := by
  induction rounds with
  | zero => exact ⟨rfl, rfl, trivial⟩
  | succ rounds ih =>
      rw [Function.iterate_succ_apply']
      exact ih.step usable

/-- After a history of loads the slot in use holds the configuration of the last
one that succeeded. -/
theorem Loaded.represents {history : List (Load Plugin × Bool)} {m : AlgoPluginManager Plugin}
    (loaded : Loaded history m) (usable : ∀ l ∈ history, Usable l.1) {last : Load Plugin × Bool}
    (inForce : (history.filter Prod.snd).getLast? = some last) :
    ∃ cfg, config last.1 = some cfg ∧ Represents (m.slots m.currentIndex) cfg := by
  induction loaded generalizing last with
  | initial n n' => simp at inForce
  | @load history m m' load ok rounds before completed ih =>
      have loader := LoaderAt.iterate (usable (load, ok) (by simp)) m rounds
      rw [completed] at loader
      obtain ⟨kept, current, progress⟩ := loader
      cases ok with
      | true =>
          have latest : last = (load, true) := by
            simpa [List.filter_append, List.getLast?_append] using inForce.symm
          have flipped : m'.currentIndex = 1 - m.currentIndex := current
          rw [latest, flipped]
          exact progress
      | false =>
          have stays : m'.currentIndex = m.currentIndex := current
          rw [stays, kept]
          apply ih
          · exact fun l inside => usable l (List.mem_append_left _ inside)
          · simpa [List.filter_append] using inForce

/-! ## The reader -/

/-- The reader's slot holds all of `cfg` and keeps holding it: it is the slot
from before the load, or the load is done. -/
def Serves (load : Load Plugin) (old : AlgoPluginManager Plugin) (inForce : BucketConfig Plugin)
    (s : System Plugin) (index : Fin 2) (cfg : BucketConfig Plugin) : Prop :=
  Represents (s.manager.slots index) cfg ∧
    ((index = old.currentIndex ∧ cfg = inForce) ∨ (s.load = .returned true ∧ config load = some cfg))

/-- What the reader knows at each of its steps. -/
def ReaderAt (load : Load Plugin) (old : AlgoPluginManager Plugin) (inForce : BucketConfig Plugin)
    (id : UInt64) (s : System Plugin) : Prop :=
  match s.select with
  | .start => True
  | .readModulus index => ∃ cfg, Serves load old inForce s index cfg
  | .lookUp index mod => ∃ cfg, Serves load old inForce s index cfg ∧
      mod.toInt = id.toNat % cfg.numBuckets.toInt
  | .readDefault index => ∃ cfg, Serves load old inForce s index cfg ∧
      lastListed cfg.entries (id.toNat % cfg.numBuckets.toInt) = none
  | .returned plugin => ∃ cfg p, plugin = some p ∧ cfg.route id = some p ∧
      (cfg = inForce ∨ (s.load = .returned true ∧ config load = some cfg))
  | .faulted => False

structure SystemAt (load : Load Plugin) (old : AlgoPluginManager Plugin)
    (inForce : BucketConfig Plugin) (id : UInt64) (s : System Plugin) : Prop where
  loader : LoaderAt load old s.manager s.load
  reader : ReaderAt load old inForce id s

section Run

variable {load : Load Plugin} {old : AlgoPluginManager Plugin} {inForce : BucketConfig Plugin}
  {id : UInt64} {s : System Plugin}

/-- The slot the index points at serves. -/
theorem LoaderAt.serves (loader : LoaderAt load old s.manager s.load)
    (represented : Represents (old.slots old.currentIndex) inForce) :
    ∃ cfg, Serves load old inForce s s.manager.currentIndex cfg := by
  obtain ⟨kept, current, progress⟩ := loader
  by_cases done : s.load = .returned true
  · simp only [done, LoadPc.flipped, if_true] at current progress
    obtain ⟨cfg, loaded, new⟩ := progress
    exact ⟨cfg, by rwa [current], Or.inr ⟨done, loaded⟩⟩
  · have before : s.load.flipped = false := by
      rcases pc : s.load with _ | _ | _ | _ | _ | ok | _ <;> try rfl
      cases ok
      · rfl
      · exact absurd pc done
    rw [before, if_neg (by decide)] at current
    exact ⟨inForce, by rwa [current, kept], Or.inl ⟨current, rfl⟩⟩

/-- The loader does not disturb a slot that serves. -/
theorem Serves.undisturbed (loader : LoaderAt load old s.manager s.load) {index : Fin 2}
    {cfg : BucketConfig Plugin} (usable : Usable load) (serves : Serves load old inForce s index cfg) :
    Serves load old inForce (step load id s .load) index cfg := by
  obtain ⟨represented, ⟨rfl, same⟩ | ⟨done, loaded⟩⟩ := serves
  · refine ⟨?_, Or.inl ⟨rfl, same⟩⟩
    have after := (loader.step usable).kept
    rw [step]
    rwa [after, ← loader.kept]
  · have still : step load id s .load = s := by
      rw [step, done, loadStep, ← done]
    rw [still]
    exact ⟨represented, Or.inr ⟨done, loaded⟩⟩

theorem SystemAt.after_select (represented : Represents (old.slots old.currentIndex) inForce)
    (system : SystemAt load old inForce id s) :
    SystemAt load old inForce id (step load id s .select) := by
  obtain ⟨loader, reader⟩ := system
  refine ⟨loader, ?_⟩
  unfold ReaderAt at reader ⊢
  rcases pc : s.select with _ | index | ⟨index, mod⟩ | index | plugin | _ <;>
    simp only [pc] at reader <;> simp only [step, pc, selectStep]
  · exact loader.serves represented
  · obtain ⟨cfg, serves⟩ := reader
    have positive : (s.manager.slots index).numPlugins ≠ 0 := by
      rw [serves.1.modulus]
      intro zero
      have := serves.1.positive
      simp [zero] at this
    rw [if_neg positive]
    refine ⟨cfg, serves, ?_⟩
    rw [serves.1.modulus, toInt_modulus id serves.1.positive]
  · obtain ⟨cfg, serves, bucket⟩ := reader
    rcases found : lastListed cfg.entries mod.toInt with _ | p
    · simp only [serves.1.plugins, found, Option.map_none]
      exact ⟨cfg, serves, by rw [← bucket, found]⟩
    · simp only [serves.1.plugins, found, Option.map_some]
      refine ⟨cfg, p, rfl, by rw [BucketConfig.route, ← bucket, found, Option.some_or], ?_⟩
      exact serves.2.imp And.right fun done => done
  · obtain ⟨cfg, serves, unlisted⟩ := reader
    obtain ⟨p, listed⟩ := serves.1.listed
    refine ⟨cfg, p, by rw [serves.1.default, listed],
      by rw [BucketConfig.route, unlisted, listed, Option.none_or], ?_⟩
    exact serves.2.imp And.right fun done => done
  · exact reader

theorem SystemAt.after_load (usable : Usable load) (system : SystemAt load old inForce id s) :
    SystemAt load old inForce id (step load id s .load) := by
  obtain ⟨loader, reader⟩ := system
  refine ⟨loader.step usable, ?_⟩
  have select : (step load id s .load).select = s.select := rfl
  unfold ReaderAt at reader ⊢
  rw [select]
  rcases pc : s.select with _ | index | ⟨index, mod⟩ | index | plugin | _ <;>
    simp only [pc] at reader ⊢
  · obtain ⟨cfg, serves⟩ := reader
    exact ⟨cfg, serves.undisturbed loader usable⟩
  · obtain ⟨cfg, serves, bucket⟩ := reader
    exact ⟨cfg, serves.undisturbed loader usable, bucket⟩
  · obtain ⟨cfg, serves, unlisted⟩ := reader
    exact ⟨cfg, serves.undisturbed loader usable, unlisted⟩
  · obtain ⟨cfg, p, plugin, routed, old | ⟨done, loaded⟩⟩ := reader
    · exact ⟨cfg, p, plugin, routed, Or.inl old⟩
    · refine ⟨cfg, p, plugin, routed, Or.inr ⟨?_, loaded⟩⟩
      rw [step, done, loadStep]

end Run

/-! ## Select returns -/

def stepsLeft : SelectPc Plugin → Nat
  | .start => 4
  | .readModulus _ => 3
  | .lookUp _ _ => 2
  | .readDefault _ => 1
  | .returned _ => 0
  | .faulted => 0

theorem stepsLeft_selectStep (id : UInt64) (m : AlgoPluginManager Plugin) (pc : SelectPc Plugin) :
    stepsLeft (selectStep id m pc) ≤ stepsLeft pc - 1 := by
  cases pc <;> simp only [selectStep] <;> try split
  all_goals simp [stepsLeft]

theorem stepsLeft_run (load : Load Plugin) (id : UInt64) (s : System Plugin) (es : List PluginEvent) :
    stepsLeft (run (step load id) s es).select ≤ stepsLeft s.select - es.count .select := by
  induction es generalizing s with
  | nil => simp
  | cons e es ih =>
      rw [run_cons]
      refine (ih (step load id s e)).trans ?_
      cases e with
      | select =>
          have := stepsLeft_selectStep id s.manager s.select
          rw [List.count_cons_self]
          show stepsLeft (selectStep id s.manager s.select) - _ ≤ _
          omega
      | load =>
          rw [List.count_cons_of_ne (by decide)]
          exact le_refl _

/-- **Select answers from one whole configuration.**  After any history of
completed loads, the last successful one being `last`, and for any interleaving
with one more load: `Select` returns, and what it returns is the route of the
configuration of `last` or, once the new load has succeeded, of the new one. -/
theorem select_routes {history : List (Load Plugin × Bool)} {m : AlgoPluginManager Plugin}
    (loaded : Loaded history m) (usable : ∀ l ∈ history, Usable l.1) {last : Load Plugin × Bool}
    (inForce : (history.filter Prod.snd).getLast? = some last) (load : Load Plugin)
    (usableNew : Usable load) (id : UInt64) (events : List PluginEvent)
    (finished : 4 ≤ events.count .select) :
    ∃ cfg plugin, (run (step load id) { manager := m } events).select = .returned (some plugin) ∧
      cfg.route id = some plugin ∧
      (config last.1 = some cfg ∨
        (config load = some cfg ∧
          (run (step load id) { manager := m } events).load = .returned true)) := by
  obtain ⟨before, given, represented⟩ := loaded.represents usable inForce
  have system : SystemAt load m before id (run (step load id) { manager := m } events) := by
    refine run_history (I := fun _ => SystemAt load m before id) ?_ ?_ events (List.prefix_refl _)
    · exact ⟨⟨rfl, rfl, trivial⟩, trivial⟩
    · intro pre e _ system
      cases e with
      | select => exact system.after_select represented
      | load => exact system.after_load usableNew
  have reader := system.reader
  have left := stepsLeft_run load id { manager := m } events
  unfold ReaderAt at reader
  rcases pc : (run (step load id) { manager := m } events).select with
    _ | index | ⟨index, mod⟩ | index | plugin | _ <;>
    simp only [pc, stepsLeft] at left reader <;> try omega
  obtain ⟨cfg, p, plugin, routed, rfl | ⟨done, new⟩⟩ := reader
  · exact ⟨cfg, p, by rw [plugin], routed, Or.inl given⟩
  · exact ⟨cfg, p, by rw [plugin], routed, Or.inr ⟨new, done⟩⟩

end AlgoPluginManager

/-! ## A reload

Four buckets of which two are listed, reloaded with eight.  The plugins are the
symbols they are created from. -/

namespace TwoBuckets

open AlgoPluginManager

def options (numBuckets : Int32) (buckets : String) : BucketOptions :=
  { numBuckets := some numBuckets, pluginPath := "p", buckets := buckets }

def load (options : BucketOptions) : Load String where
  file := some options
  getPluginFromDylib := fun _ _ symbol _ => some symbol

def first : Load String := load (options 4 "0:main:a 2:trial:b")

def second : Load String := load (options 8 "0:main:a 6:trial:c")

/-- The new manager and the one after the first load. -/
def new : AlgoPluginManager String := ⟨0, ![⟨∅, none, 0⟩, ⟨∅, none, 0⟩]⟩

def manager : AlgoPluginManager String :=
  ((fun s => loadStep first s.1 s.2)^[7] (new, .start)).1

theorem usable_load {numBuckets : Int32} {buckets : String} {entries : List (Int32 × String)}
    (loads : loadedEntries (load (options numBuckets buckets)) (options numBuckets buckets) =
      some entries) (positive : 0 < numBuckets) (listed : ∃ entry ∈ entries, entry.1 = 0) :
    Usable (load (options numBuckets buckets)) := by
  intro given found file loaded
  obtain rfl := Option.some.inj file
  obtain rfl := Option.some.inj (loads.symm.trans loaded)
  exact ⟨numBuckets, rfl, positive, listed⟩

theorem usable_first : Usable first := by
  apply @usable_load 4 "0:main:a 2:trial:b" [(0, "__create_a"), (2, "__create_b")]
  · decide
  · decide
  · exact ⟨_, List.mem_cons_self, rfl⟩

theorem usable_second : Usable second := by
  apply @usable_load 8 "0:main:a 6:trial:c" [(0, "__create_a"), (6, "__create_c")]
  · decide
  · decide
  · exact ⟨_, List.mem_cons_self, rfl⟩

theorem loaded_first : Loaded [(first, true)] manager :=
  .load 7 (.initial 0 0) rfl

/-- The reader picks its slot, the whole reload runs, the reader goes on. -/
def overtaken : List PluginEvent :=
  [.select] ++ List.replicate 7 .load ++ List.replicate 3 .select

theorem reload_keeps_whole_config :
    ∃ cfg plugin, (run (step second 6) { manager := manager } overtaken).select =
        .returned (some plugin) ∧ cfg.route 6 = some plugin ∧
      (config first = some cfg ∨ (config second = some cfg ∧
        (run (step second 6) { manager := manager } overtaken).load = .returned true)) :=
  select_routes loaded_first (by simpa using usable_first) rfl second usable_second 6 overtaken
    (by decide)

end TwoBuckets

end RecommEngine
