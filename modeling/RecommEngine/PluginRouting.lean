/-
# PluginRouting -- what a load that returns true leaves to Select

`LoadPlugins` checks every plugin it loads, and nothing else: not that the file
gives a number of buckets, not that this is not zero, not that the default bucket
is listed.  An omitted `num_buckets` keeps whatever the buffer held two loads ago,
and a default bucket that is not listed is entered with a null plugin.

`Holds` is what such a load leaves in its slot, for every file it accepts, and
`select_of_holds` what `Select` makes of it.  Two results rest on them:

* `serves_listed_iff`: for which ids a plugin that was listed is returned;
* `forgets_iff`: the routing depends on the last file alone exactly if that file
  gives a number of buckets.
-/
import RecommEngine.AlgoPluginManager

namespace RecommEngine

set_option autoImplicit false

open Std (ExtTreeMap)
open Theory.Run Util

namespace AlgoPluginManager

variable {Plugin : Type}

/-- A `Select` that runs while nothing is loaded. -/
def select (id : UInt64) (m : AlgoPluginManager Plugin) : SelectPc Plugin :=
  (selectStep id m)^[4] .start

/-- A whole run of `LoadPlugins`. -/
def Completes (load : Load Plugin) (m m' : AlgoPluginManager Plugin) (ok : Bool) : Prop :=
  ∃ rounds, (fun s => loadStep load s.1 s.2)^[rounds] (m, .start) = (m', .returned ok)

/-- The number of buckets after a load: that of the file or, if the file omits it,
the one the buffer held before. -/
def numBucketsAfter (old : AlgoPluginManager Plugin) (options : BucketOptions) : Int32 :=
  options.numBuckets.getD (old.slots old.spare).numPlugins

/-! ## What a load leaves in its slot -/

/-- The slot holds the entries of a configuration, and an entry for its default
bucket in any case, which is null if the bucket is not listed. -/
structure Holds (slot : Slot Plugin) (numBuckets defaultBucket : Int32)
    (entries : List (Int32 × Plugin)) : Prop where
  modulus : slot.numPlugins = numBuckets
  plugins : ∀ b : Int32, slot.plugins[b]? =
    if b = defaultBucket then some (lastListed entries b.toInt)
    else (lastListed entries b.toInt).map some
  default : slot.defaultPlugin = lastListed entries defaultBucket.toInt

/-- The file of the load could be read and all its items could be loaded, and the
slot holds them. -/
def Accepted (load : Load Plugin) (old : AlgoPluginManager Plugin) (slot : Slot Plugin) : Prop :=
  ∃ options entries, load.file = some options ∧ loadedEntries load options = some entries ∧
    Holds slot (numBucketsAfter old options) options.defaultBucket entries

/-- How far a load of any file that began at `old` has come. -/
def Filling (load : Load Plugin) (old m : AlgoPluginManager Plugin) : LoadPc → Prop
  | .start => m = old
  | .clearing index => index = old.spare ∧ m = old
  | .opening index => index = old.spare ∧ (m.slots index).plugins = ∅ ∧
      (m.slots index).numPlugins = (old.slots index).numPlugins
  | .items index options i rest => index = old.spare ∧ load.file = some options ∧
      (m.slots index).numPlugins = numBucketsAfter old options ∧
      ∃ done, (∀ b : Int32, (m.slots index).plugins[b]? = (lastListed done b.toInt).map some) ∧
        loadedEntries load options = (entriesFrom load options i rest).map (done ++ ·)
  | .flipping index => index = old.spare ∧ Accepted load old (m.slots index)
  | .returned true => Accepted load old (m.slots old.spare)
  | _ => True

/-- What holds at each step of a load of any file that began at `old`. -/
structure FillingAt (load : Load Plugin) (old m : AlgoPluginManager Plugin) (pc : LoadPc) :
    Prop where
  kept : m.slots old.currentIndex = old.slots old.currentIndex
  current : m.currentIndex = if pc.flipped then 1 - old.currentIndex else old.currentIndex
  filling : Filling load old m pc

section Load

variable {load : Load Plugin} {old m : AlgoPluginManager Plugin}

/-- The last lookup of a load, which creates the entry it does not find. -/
theorem holds_of_lookUp {slot : Slot Plugin} {entries : List (Int32 × Plugin)}
    (holds : ∀ b : Int32, slot.plugins[b]? = (lastListed entries b.toInt).map some)
    (defaultBucket : Int32) :
    let plugins := slot.plugins.alter defaultBucket fun p => some (p.getD none)
    Holds { slot with plugins := plugins, defaultPlugin := (plugins[defaultBucket]?).getD none }
      slot.numPlugins defaultBucket entries := by
  have found : ∀ b : Int32, (slot.plugins.alter defaultBucket fun p => some (p.getD none))[b]? =
      if b = defaultBucket then some (lastListed entries b.toInt)
      else (lastListed entries b.toInt).map some := by
    intro b
    rw [ExtTreeMap.getElem?_alter]
    by_cases here : b = defaultBucket
    · subst here
      cases listed : lastListed entries b.toInt <;> simp [holds, listed]
    · simp [Ne.symm here, here, holds]
  exact ⟨rfl, found, by simp only [found, if_true, Option.getD_some]⟩

theorem FillingAt.step {pc : LoadPc} (before : FillingAt load old m pc) :
    FillingAt load old (loadStep load m pc).1 (loadStep load m pc).2 := by
  cases pc with
  | start =>
      obtain ⟨kept, current, rfl⟩ := before
      exact ⟨kept, current, rfl, rfl⟩
  | clearing index =>
      obtain ⟨kept, current, other, rfl⟩ := before
      refine ⟨(slots_setSlot_other m _ other).trans kept, current, other, ?_, ?_⟩ <;>
        simp only [loadStep, slots_setSlot]
  | opening index =>
      obtain ⟨kept, current, other, empty, modulus⟩ := before
      cases file : load.file with
      | none =>
          simp only [loadStep, file]
          exact ⟨kept, current, trivial⟩
      | some options =>
          simp only [loadStep, file]
          refine ⟨(slots_setSlot_other m _ other).trans kept, current, other, file, ?_, [], ?_,
            by simp [loadedEntries]⟩
          · rw [slots_setSlot, numBucketsAfter, ← other, modulus]
          · simp [empty, lastListed]
  | items index options i rest =>
      obtain ⟨kept, current, other, file, modulus, done, holds, remaining⟩ := before
      cases rest with
      | nil =>
          refine ⟨(slots_setSlot_other m _ other).trans kept, current, other, options, done, file,
            by simpa [entriesFrom] using remaining, ?_⟩
          simp only [loadStep, slots_setSlot]
          rw [← modulus]
          exact holds_of_lookUp holds options.defaultBucket
      | cons item rest =>
          rcases result : loadItem load options i item with ⟨bucketId, plugin⟩ | _ | _ <;>
            simp only [loadStep, result]
          · refine ⟨(slots_setSlot_other m _ other).trans kept, current, other, file,
              by simpa using modulus, done ++ [(bucketId, plugin)], ?_,
              entries_after_item remaining result⟩
            simpa using plugins_insert holds bucketId plugin
          · exact ⟨kept, current, trivial⟩
          · exact ⟨kept, current, trivial⟩
  | flipping index =>
      obtain ⟨kept, current, rfl, accepted⟩ := before
      exact ⟨kept, rfl, accepted⟩
  | returned ok => exact before
  | crashed => exact before

/-- A load that returns true has accepted its file, flipped the index and kept the
slot that was in use. -/
theorem Completes.accepted {m' : AlgoPluginManager Plugin} (completed : Completes load m m' true) :
    m'.currentIndex = 1 - m.currentIndex ∧
      m'.slots m.currentIndex = m.slots m.currentIndex ∧
      Accepted load m (m'.slots m'.currentIndex) := by
  obtain ⟨rounds, reached⟩ := completed
  have at_ : ∀ n, FillingAt load m ((fun s => loadStep load s.1 s.2)^[n] (m, .start)).1
      ((fun s => loadStep load s.1 s.2)^[n] (m, .start)).2 := by
    intro n
    induction n with
    | zero => exact ⟨rfl, rfl, rfl⟩
    | succ n ih =>
        rw [Function.iterate_succ_apply']
        exact ih.step
  have final := at_ rounds
  rw [reached] at final
  obtain ⟨kept, current, accepted⟩ := final
  have flipped : m'.currentIndex = 1 - m.currentIndex := current
  exact ⟨flipped, kept, flipped ▸ accepted⟩

theorem Completes.holds {m' : AlgoPluginManager Plugin} {options : BucketOptions}
    {entries : List (Int32 × Plugin)} (file : load.file = some options)
    (loads : loadedEntries load options = some entries) (completed : Completes load m m' true) :
    Holds (m'.slots m'.currentIndex) (numBucketsAfter m options) options.defaultBucket entries := by
  obtain ⟨-, -, options', entries', file', loads', held⟩ := completed.accepted
  obtain rfl := Option.some.inj (file.symm.trans file')
  obtain rfl := Option.some.inj (loads.symm.trans loads')
  exact held

/-- How the loop over the items from the `i`-th on ends the load. -/
def itemsEnd (load : Load Plugin) (options : BucketOptions) : Nat → List (List Char) → LoadPc
  | _, [] => .returned true
  | i, item :: rest =>
      match loadItem load options i item with
      | .loaded _ _ => itemsEnd load options (i + 1) rest
      | .failed => .returned false
      | .crashed => .crashed

theorem exists_items_end (load : Load Plugin) (options : BucketOptions) (index : Fin 2)
    (rest : List (List Char)) (i : Nat) (m : AlgoPluginManager Plugin) :
    ∃ rounds m', (fun s => loadStep load s.1 s.2)^[rounds] (m, .items index options i rest) =
      (m', itemsEnd load options i rest) := by
  induction rest generalizing i m with
  | nil => exact ⟨2, _, rfl⟩
  | cons item rest ih =>
      cases result : loadItem load options i item with
      | loaded bucketId plugin =>
          obtain ⟨rounds, m', reached⟩ := ih (i + 1) (m.setSlot index { m.slots index with
            plugins := (m.slots index).plugins.insert bucketId (some plugin) })
          refine ⟨rounds + 1, m', ?_⟩
          rw [Function.iterate_succ_apply]
          simpa only [loadStep, itemsEnd, result] using reached
      | failed => exact ⟨1, m, by simp [loadStep, itemsEnd, result]⟩
      | crashed => exact ⟨1, m, by simp [loadStep, itemsEnd, result]⟩

/-- Every load of a file that can be read comes to its end. -/
theorem exists_end {options : BucketOptions} (file : load.file = some options)
    (m : AlgoPluginManager Plugin) :
    ∃ rounds m', (fun s => loadStep load s.1 s.2)^[rounds] (m, .start) =
      (m', itemsEnd load options 0 (bucketItems options)) := by
  let index := 1 - m.currentIndex
  let cleared := m.setSlot index { m.slots index with plugins := ∅ }
  obtain ⟨rounds, m', reached⟩ := exists_items_end load options index (bucketItems options) 0
    (cleared.setSlot index { cleared.slots index with
      numPlugins := options.numBuckets.getD (cleared.slots index).numPlugins })
  refine ⟨rounds + 3, m', ?_⟩
  rw [Function.iterate_succ_apply, Function.iterate_succ_apply, Function.iterate_succ_apply]
  simpa only [loadStep, file] using reached

theorem itemsEnd_of_entries {options : BucketOptions} {i : Nat} {rest : List (List Char)}
    {entries : List (Int32 × Plugin)} (loads : entriesFrom load options i rest = some entries) :
    itemsEnd load options i rest = .returned true := by
  induction rest generalizing i entries with
  | nil => rfl
  | cons item rest ih =>
      rw [entriesFrom] at loads
      split at loads
      · rename_i bucketId plugin result
        obtain ⟨more, loads, -⟩ := Option.map_eq_some_iff.mp loads
        rw [itemsEnd, result]
        exact ih loads
      · cases loads

/-- From any state, a load whose items can all be loaded returns true. -/
theorem exists_completes {options : BucketOptions} {entries : List (Int32 × Plugin)}
    (file : load.file = some options) (loads : loadedEntries load options = some entries)
    (m : AlgoPluginManager Plugin) : ∃ m', Completes load m m' true := by
  obtain ⟨rounds, m', reached⟩ := exists_end file m
  rw [itemsEnd_of_entries loads] at reached
  exact ⟨m', rounds, reached⟩

end Load

/-! ## What Select makes of it -/

theorem select_eq (id : UInt64) (m : AlgoPluginManager Plugin) :
    select id m =
      if (m.slots m.currentIndex).numPlugins = 0 then .faulted
      else .returned (((m.slots m.currentIndex).plugins[modulus id
        (m.slots m.currentIndex).numPlugins]?).getD (m.slots m.currentIndex).defaultPlugin) := by
  by_cases zero : (m.slots m.currentIndex).numPlugins = 0
  · simp [select, selectStep, zero]
  · cases found : (m.slots m.currentIndex).plugins[modulus id
        (m.slots m.currentIndex).numPlugins]? <;> simp [select, selectStep, zero, found]

variable {m : AlgoPluginManager Plugin} {numBuckets defaultBucket : Int32}
  {entries : List (Int32 × Plugin)}

/-- The entry that is listed last for the user's bucket, or else for the default
bucket; the null entry gives the same answer as no entry. -/
theorem select_of_holds (holds : Holds (m.slots m.currentIndex) numBuckets defaultBucket entries)
    (id : UInt64) :
    select id m =
      if numBuckets = 0 then .faulted
      else .returned ((lastListed entries (modulus id numBuckets).toInt).or
        (lastListed entries defaultBucket.toInt)) := by
  rw [select_eq, holds.modulus]
  split
  · rfl
  · rw [holds.plugins, holds.default]
    by_cases here : modulus id numBuckets = defaultBucket
    · rw [if_pos here, here, Option.getD_some, Option.or_self]
    · rw [if_neg here]
      cases lastListed entries (modulus id numBuckets).toInt <;> rfl

theorem exists_lastListed_iff (entries : List (Int32 × Plugin)) (b : Int32) :
    (∃ plugin, lastListed entries b.toInt = some plugin) ↔ b ∈ entries.map Prod.fst := by
  constructor
  · rintro ⟨plugin, listed⟩
    obtain ⟨entry, found, -⟩ := Option.map_eq_some_iff.mp listed
    have bucket : entry.1 = b := Int32.toInt_inj.mp (by simpa using List.find?_some found)
    rw [← bucket]
    exact List.mem_map_of_mem (List.mem_reverse.mp (List.mem_of_find?_eq_some found))
  · intro inside
    obtain ⟨entry, listed, rfl⟩ := List.mem_map.mp inside
    exact lastListed_of_mem listed

theorem mem_of_lastListed {bucket : Int} {plugin : Plugin}
    (listed : lastListed entries bucket = some plugin) : plugin ∈ entries.map Prod.snd := by
  obtain ⟨entry, found, rfl⟩ := Option.map_eq_some_iff.mp listed
  exact List.mem_map_of_mem (List.mem_reverse.mp (List.mem_of_find?_eq_some found))

/-- `Select` takes a modulus that is not zero and returns a plugin that was loaded
for one of the entries. -/
def ServesListed (entries : List (Int32 × Plugin)) (m : AlgoPluginManager Plugin) (id : UInt64) :
    Prop :=
  (m.slots m.currentIndex).numPlugins ≠ 0 ∧
    ∃ plugin, select id m = .returned (some plugin) ∧ plugin ∈ entries.map Prod.snd

theorem servesListed_iff (holds : Holds (m.slots m.currentIndex) numBuckets defaultBucket entries)
    (id : UInt64) :
    ServesListed entries m id ↔ numBuckets ≠ 0 ∧
      (defaultBucket ∈ entries.map Prod.fst ∨
        modulus id numBuckets ∈ entries.map Prod.fst) := by
  rw [ServesListed, select_of_holds holds, holds.modulus]
  refine and_congr_right fun nonzero => ?_
  rw [if_neg nonzero, ← exists_lastListed_iff, ← exists_lastListed_iff]
  constructor
  · rintro ⟨plugin, returned, -⟩
    rcases Option.or_eq_some_iff.mp (SelectPc.returned.inj returned) with own | ⟨-, default⟩
    · exact Or.inr ⟨plugin, own⟩
    · exact Or.inl ⟨plugin, default⟩
  · intro listed
    cases own : lastListed entries (modulus id numBuckets).toInt with
    | some plugin => exact ⟨plugin, by simp, mem_of_lastListed own⟩
    | none =>
        obtain ⟨plugin, default⟩ :
            ∃ plugin, lastListed entries defaultBucket.toInt = some plugin := by
          simpa [own] using listed
        exact ⟨plugin, by simp [default], mem_of_lastListed default⟩

/-- **When a successful load serves an id.**  The number of buckets is not zero,
and the default bucket or the bucket of the id is listed. -/
theorem serves_listed_iff {load : Load Plugin} {m m' : AlgoPluginManager Plugin}
    (completed : Completes load m m' true) :
    ∃ options entries, load.file = some options ∧ loadedEntries load options = some entries ∧
      ∀ id, ServesListed entries m' id ↔ numBucketsAfter m options ≠ 0 ∧
        (options.defaultBucket ∈ entries.map Prod.fst ∨
          modulus id (numBucketsAfter m options) ∈ entries.map Prod.fst) := by
  obtain ⟨-, -, options, entries, file, loads, holds⟩ := completed.accepted
  exact ⟨options, entries, file, loads, servesListed_iff holds⟩

/-! ## Two histories -/

/-- Any two histories that end with this load, done and successful, route alike. -/
def Forgets (load : Load Plugin) : Prop :=
  ∀ history history' m m', Loaded (history ++ [(load, true)]) m →
    Loaded (history' ++ [(load, true)]) m' → ∀ id, select id m = select id m'

theorem Loaded.last {history : List (Load Plugin × Bool)} {last : Load Plugin × Bool}
    {m : AlgoPluginManager Plugin} (loaded : Loaded (history ++ [last]) m) :
    ∃ old, Loaded history old ∧ Completes last.1 old m last.2 := by
  generalize whole : history ++ [last] = all at loaded
  cases loaded with
  | initial n n' => simp at whole
  | load rounds before completed =>
      obtain ⟨rfl, same⟩ := List.append_inj' whole rfl
      obtain rfl := List.singleton_inj.mp same
      exact ⟨_, before, rounds, completed⟩

theorem Loaded.snoc {history : List (Load Plugin × Bool)} {load : Load Plugin} {ok : Bool}
    {m m' : AlgoPluginManager Plugin} (before : Loaded history m)
    (completed : Completes load m m' ok) : Loaded (history ++ [(load, ok)]) m' := by
  obtain ⟨rounds, reached⟩ := completed
  exact .load rounds before reached

section TwoHistories

variable {load : Load Plugin} {options : BucketOptions}

/-- The same load from a file that gives a number of buckets. -/
def withBuckets (load : Load Plugin) (options : BucketOptions) (n : Int32) : Load Plugin :=
  { load with file := some { options with numBuckets := some n } }

theorem loadedEntries_withBuckets (load : Load Plugin) (options : BucketOptions) (n : Int32) :
    loadedEntries (withBuckets load options n) { options with numBuckets := some n } =
      loadedEntries load options := by
  have same : ∀ i rest, entriesFrom (withBuckets load options n)
      { options with numBuckets := some n } i rest = entriesFrom load options i rest := by
    intro i rest
    induction rest generalizing i with
    | nil => rfl
    | cons item rest ih =>
        have items : loadItem (withBuckets load options n) { options with numBuckets := some n } i
            item = loadItem load options i item := rfl
        simp only [entriesFrom, items, ih]
  exact same 0 (bucketItems options)

/-- Two loads with `n` buckets leave that number in both buffers, and a load that
omits it keeps it. -/
theorem exists_history (file : load.file = some options) (omitted : options.numBuckets = none)
    (loads : loadedEntries load options = some entries) (n : Int32) :
    ∃ history m, Loaded (history ++ [(load, true)]) m ∧
      Holds (m.slots m.currentIndex) n options.defaultBucket entries := by
  have given := (loadedEntries_withBuckets load options n).trans loads
  obtain ⟨m₁, first⟩ := exists_completes rfl given ⟨0, ![⟨∅, none, 0⟩, ⟨∅, none, 0⟩]⟩
  obtain ⟨m₂, second⟩ := exists_completes rfl given m₁
  obtain ⟨m₃, third⟩ := exists_completes file loads m₂
  have holds₁ := first.holds rfl given
  obtain ⟨flipped₂, kept₂, -⟩ := second.accepted
  have holds₃ := third.holds file loads
  have back : m₂.spare = m₁.currentIndex := by
    rw [spare, flipped₂]
    generalize m₁.currentIndex = index
    revert index
    decide
  have modulus : numBucketsAfter m₂ options = n := by
    rw [numBucketsAfter, omitted, Option.getD_none, back, kept₂, holds₁.modulus]
    rfl
  exact ⟨_, m₃, ((Loaded.initial 0 0).snoc first |>.snoc second).snoc third, modulus ▸ holds₃⟩

/-- **A reload forgets the past exactly if its file gives a number of buckets**,
for every file whose items can be loaded. -/
theorem forgets_iff (file : load.file = some options)
    (loads : loadedEntries load options = some entries) :
    Forgets load ↔ options.numBuckets.isSome := by
  constructor
  · intro forgets
    by_contra absent
    have omitted : options.numBuckets = none := by simpa using absent
    obtain ⟨history, m, loaded, holds⟩ := exists_history file omitted loads 0
    obtain ⟨history', m', loaded', holds'⟩ := exists_history file omitted loads 1
    have same := forgets history history' m m' loaded loaded' 0
    rw [select_of_holds holds, select_of_holds holds', if_pos rfl, if_neg (by decide)] at same
    cases same
  · intro given history history' m m' loaded loaded' id
    obtain ⟨n, isN⟩ := Option.isSome_iff_exists.mp given
    have holds : ∀ {history : List (Load Plugin × Bool)} {m : AlgoPluginManager Plugin},
        Loaded (history ++ [(load, true)]) m →
        Holds (m.slots m.currentIndex) n options.defaultBucket entries := by
      intro history m loaded
      obtain ⟨old, -, completed⟩ := loaded.last
      simpa only [numBucketsAfter, isN, Option.getD_some] using completed.holds file loads
    rw [select_of_holds (holds loaded), select_of_holds (holds loaded')]

end TwoHistories

end AlgoPluginManager

/-! ## Poles -/

namespace UncheckedOptions

open AlgoPluginManager TwoBuckets

def list : String := "0:main:a 2:trial:b"

/-- No buckets at all. -/
def zero : Load String := load { numBuckets := some 0, pluginPath := "p", buckets := list }

/-- A default bucket that is not listed. -/
def unlisted : Load String :=
  load { numBuckets := some 4, defaultBucket := 7, pluginPath := "p", buckets := list }

/-- A file without `num_buckets`. -/
def silent : Load String := load { pluginPath := "p", buckets := list }

/-- The manager after some loads of two items each. -/
def after (loads : List (Load String)) : AlgoPluginManager String :=
  loads.foldl (fun m load => ((fun s => loadStep load s.1 s.2)^[7] (m, .start)).1) new

/-- Both loads return true.  After the first every `Select` divides by zero, after
the second `Select(1)` returns a null pointer. -/
theorem accepted_but_unusable :
    Completes zero new (after [zero]) true ∧ select 6 (after [zero]) = .faulted ∧
      Completes unlisted new (after [unlisted]) true ∧
      select 1 (after [unlisted]) = .returned none ∧
      ∀ entries, ¬ ServesListed entries (after [zero]) 6 ∧
        ¬ ServesListed entries (after [unlisted]) 1 := by
  have divides : select 6 (after [zero]) = .faulted := rfl
  have null : select 1 (after [unlisted]) = .returned none := rfl
  refine ⟨⟨7, rfl⟩, divides, ⟨7, rfl⟩, null, ?_⟩
  intro entries
  constructor
  · rintro ⟨-, plugin, returned, -⟩
    rw [divides] at returned
    cases returned
  · rintro ⟨-, plugin, returned, -⟩
    rw [null] at returned
    cases returned

theorem first_load_serves :
    ∃ options entries, first.file = some options ∧ loadedEntries first options = some entries ∧
      ∀ id, ServesListed entries manager id ↔ numBucketsAfter new options ≠ 0 ∧
        (options.defaultBucket ∈ entries.map Prod.fst ∨
          modulus id (numBucketsAfter new options) ∈ entries.map Prod.fst) :=
  serves_listed_iff ⟨7, rfl⟩

/-- The same file, loaded last: after loads with four and eight buckets the id 6 is
in bucket 2, after loads with eight and four it is in no listed bucket. -/
theorem omitted_buckets_remembered :
    Loaded ([(first, true), (second, true)] ++ [(silent, true)]) (after [first, second, silent]) ∧
      Loaded ([(second, true), (first, true)] ++ [(silent, true)]) (after [second, first, silent]) ∧
      select 6 (after [first, second, silent]) = .returned (some "__create_b") ∧
      select 6 (after [second, first, silent]) = .returned (some "__create_a") ∧
      ¬ Forgets silent := by
  have loaded : Loaded ([(first, true), (second, true)] ++ [(silent, true)])
      (after [first, second, silent]) :=
    .load 7 (.load 7 (.load 7 (.initial 0 0) rfl) rfl) rfl
  have loaded' : Loaded ([(second, true), (first, true)] ++ [(silent, true)])
      (after [second, first, silent]) :=
    .load 7 (.load 7 (.load 7 (.initial 0 0) rfl) rfl) rfl
  have trial : select 6 (after [first, second, silent]) = .returned (some "__create_b") := rfl
  have main : select 6 (after [second, first, silent]) = .returned (some "__create_a") := rfl
  refine ⟨loaded, loaded', trial, main, ?_⟩
  intro forgets
  have same := forgets _ _ _ _ loaded loaded' 6
  rw [trial, main] at same
  exact absurd (Option.some.inj (SelectPc.returned.inj same)) (by decide)

theorem given_buckets_forget : Forgets first := by
  have loads : loadedEntries first (options 4 list) =
      some [(0, "__create_a"), (2, "__create_b")] := by decide
  exact (forgets_iff rfl loads).mpr rfl

end UncheckedOptions

end RecommEngine
