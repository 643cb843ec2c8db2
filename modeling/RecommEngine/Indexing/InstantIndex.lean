/-
# Indexing.InstantIndex -- the inverted index and the steps of its two threads

The shared state is `index_` (token to posting list), `att_` (local document id
to attachment), the builder's id counter and the monitor's story counters.  The
builder and the cleaner touch it in steps, each under one lock or one atomic
pointer write:

* `attach`, `create`, `push` are the steps of `IndexBuildThread::AddStoryInternal`;
* `startPass`, `mark`, `clear`, `deleteAtt` are those of one round of
  `CleanOldStoryThread::Run`.

`step` runs one of them.  An interleaving of the two threads is a list of steps;
`addStoryInternal` and `cleanPass` are the lists with nothing in between.  Two
fields record the past and are never read by a step: `unlinked`, the postings
every clear step removed with the cutoff of its pass, and `built`, the local id
every story was given.
-/
import RecommEngine.Idl
import RecommEngine.Theory.Run
import RecommEngine.Indexing.Iterator

namespace RecommEngine.Indexing

set_option autoImplicit false

open Std (ExtTreeMap)
open Util Theory Theory.Run Idl

/-- The two functions outside the repository that the builder calls: the
string hash and the conversion of an `int32` weight to `float`. -/
structure Platform (W : Type) where
  cityHash64 : String → Int64
  floatOfInt32 : Int32 → W

/-- The two counters of `MonitorManager` that indexing updates; an atomic `int`
wraps around. -/
structure MonitorManager where
  numIndexedStoriesCurrent : Int32 := 0
  numIndexedStoriesTotal : Int32 := 0

structure InstantIndex (W : Type) where
  index : ExtTreeMap Int64 (ValidPostingList W) := ∅
  att : ExtTreeMap LocalDocID IndexingAttachment := ∅
  localDocidCounter : LocalDocID := 1
  monitor : MonitorManager := {}

namespace InstantIndex

variable {W : Type}

/-- The iterator `GetPostingList` hands out, with the list it refers to. -/
def getPostingList (m : InstantIndex W) (tokenId : Int64) :
    Option (PostingList W × PostingIteratorImpl) :=
  m.index[tokenId]?.map fun pl => (pl.1, .create pl.1)

/-- `none` is the answer `false`, which leaves the caller's result untouched. -/
def translateToGlobalID (m : InstantIndex W) (localId : LocalDocID) : Option Int64 :=
  m.att[localId]?.map IndexingAttachment.globalDocid

end InstantIndex

theorem card_keys {β : Type} (map : ExtTreeMap LocalDocID β) :
    map.keys.toFinset.card = map.size := by
  rw [List.toFinset_card_of_nodup ExtTreeMap.nodup_keys, ExtTreeMap.length_keys]

structure IndexMachine (W : Type) extends InstantIndex W where
  /-- `target_time` of the cleaner's current pass, once there has been one. -/
  targetTime : Option Int := none
  docToDelete : Finset LocalDocID := ∅
  unlinked : List (Int × Posting W) := []
  built : List (LocalDocID × StoryAddingRequest) := []

inductive IndexEvent (W : Type) where
  | attach (req : StoryAddingRequest)
  | create (story : StoryProfile)
  | push (token : Int64) (localId : LocalDocID) (weight : W) (time : Int)
  | startPass (now : Int)
  | mark (token : Int64)
  | clear (token : Int64)
  | deleteAtt

namespace IndexMachine

variable {W : Type} [Inhabited W]

/-! ## The steps -/

/-- Step 1 of `AddStoryInternal`, under the attachment lock. -/
def attach (P : Platform W) (m : IndexMachine W) (req : StoryAddingRequest) : IndexMachine W :=
  { m with
    localDocidCounter := m.localDocidCounter + 1
    monitor := ⟨m.monitor.numIndexedStoriesCurrent + 1, m.monitor.numIndexedStoriesTotal + 1⟩
    att := m.att.insert m.localDocidCounter ⟨P.cityHash64 req.story.storyId⟩
    built := (m.localDocidCounter, req) :: m.built }

/-- The first pass of step 2: the story's tokens that have no list yet. -/
def newTokens (m : IndexMachine W) (story : StoryProfile) : List Int64 :=
  story.keywords.keys.filter fun token => token ∉ m.index

/-- The two token passes of step 2.  Only the builder adds tokens, so no other
step can come between its look and its write. -/
def createLists (m : IndexMachine W) (story : StoryProfile) : IndexMachine W :=
  { m with index := (m.newTokens story).foldl (fun index token => index.insert token .create) m.index }

/-- One posting of step 2: `AllocatePosting`, the three fields, `AddPosting`. -/
def push (m : IndexMachine W) (token : Int64) (localId : LocalDocID) (weight : W) (time : Int) :
    IndexMachine W :=
  { m with index := m.index.modify token (·.push ⟨localId, weight, Int32.ofInt time⟩) }

def startPass (docLifeTime : Int) (m : IndexMachine W) (now : Int) : IndexMachine W :=
  { m with targetTime := some (now - docLifeTime), docToDelete := ∅ }

def markList (m : IndexMachine W) (token : Int64) : IndexMachine W :=
  match m.targetTime with
  | none => m
  | some targetTime => { m with index := m.index.modify token (·.mark targetTime) }

/-- The postings the clear step of `token` removes. -/
def expiredIn (m : IndexMachine W) (token : Int64) : List (Posting W) :=
  match m.index[token]? with
  | none => []
  | some pl => pl.unlinked

def clearList (m : IndexMachine W) (token : Int64) : IndexMachine W :=
  { m with
    index := m.index.modify token (·.clear)
    docToDelete := m.docToDelete ∪ ((m.expiredIn token).map Posting.localDocid).toFinset
    unlinked := (m.expiredIn token).map (m.targetTime.getD 0, ·) ++ m.unlinked }

/-- The deletion of attachments, under the attachment lock.  The total is
reduced by the number of collected documents, found or not. -/
def deleteAtt (m : IndexMachine W) : IndexMachine W :=
  { m with
    att := m.att.filter fun localId _ => localId ∉ m.docToDelete
    monitor := ⟨m.monitor.numIndexedStoriesCurrent,
      m.monitor.numIndexedStoriesTotal - Int32.ofNat m.docToDelete.card⟩ }

def step (P : Platform W) (docLifeTime : Int) (m : IndexMachine W) : IndexEvent W → IndexMachine W
  | .attach req => m.attach P req
  | .create story => m.createLists story
  | .push token localId weight time => m.push token localId weight time
  | .startPass now => m.startPass docLifeTime now
  | .mark token => m.markList token
  | .clear token => m.clearList token
  | .deleteAtt => m.deleteAtt

/-! ## What a step does to the list of a token

`seqAt m token` is the token's list without its heap; every result about the
index is stated over it. -/

def seqAt (m : IndexMachine W) (token : Int64) : Option (MarkedSeq (Posting W)) :=
  m.index[token]?.map ValidPostingList.abs

/-- The posting `p` is in the list of `token`. -/
def Posted (m : IndexMachine W) (token : Int64) (p : Posting W) : Prop :=
  ∃ s, m.seqAt token = some s ∧ p ∈ s.contents

omit [Inhabited W] in
theorem seqAt_modify (index : ExtTreeMap Int64 (ValidPostingList W)) (token k : Int64)
    (f : ValidPostingList W → ValidPostingList W) (g : MarkedSeq (Posting W) → MarkedSeq (Posting W))
    (same : ∀ pl, (f pl).abs = g pl.abs) :
    (index.modify token f)[k]?.map ValidPostingList.abs =
      if token = k then (index[k]?.map ValidPostingList.abs).map g
      else index[k]?.map ValidPostingList.abs := by
  rw [ExtTreeMap.getElem?_modify]
  by_cases h : token = k
  · subst h
    cases index[token]? <;> simp [same]
  · simp [h]

theorem getElem?_foldl_insert (tokens : List Int64) (index : ExtTreeMap Int64 (ValidPostingList W))
    (k : Int64) :
    (tokens.foldl (fun index token => index.insert token .create) index)[k]? =
      if k ∈ tokens then some ValidPostingList.create else index[k]? := by
  induction tokens generalizing index with
  | nil => simp
  | cons token tokens ih =>
      rw [List.foldl_cons, ih, ExtTreeMap.getElem?_insert]
      by_cases rest : k ∈ tokens
      · simp [rest]
      · by_cases here : token = k
        · simp [here]
        · simp [rest, here, Ne.symm here]

omit [Inhabited W] in
theorem mem_newTokens (m : IndexMachine W) (story : StoryProfile) (k : Int64) :
    k ∈ m.newTokens story ↔ k ∈ story.keywords ∧ m.index[k]? = none := by
  simp [newTokens, ExtTreeMap.mem_keys]

theorem seqAt_create (m : IndexMachine W) (story : StoryProfile) (k : Int64) :
    (m.createLists story).seqAt k =
      if k ∈ story.keywords ∧ m.seqAt k = none then some (.unmarked []) else m.seqAt k := by
  simp only [seqAt, createLists, getElem?_foldl_insert, mem_newTokens]
  by_cases h : k ∈ story.keywords ∧ m.index[k]? = none
  · simp [h]
  · have : ¬(k ∈ story.keywords ∧ m.index[k]?.map ValidPostingList.abs = none) := by
      simpa using h
    simp only [h, this, if_false]

theorem seqAt_push (m : IndexMachine W) (token : Int64) (localId : LocalDocID) (weight : W)
    (time : Int) (k : Int64) :
    (m.push token localId weight time).seqAt k =
      if token = k then (m.seqAt k).map (·.push ⟨localId, weight, Int32.ofInt time⟩)
      else m.seqAt k :=
  seqAt_modify _ _ _ _ _ fun pl => pl.abs_push _

omit [Inhabited W] in
theorem seqAt_mark (m : IndexMachine W) (token : Int64) {targetTime : Int}
    (inPass : m.targetTime = some targetTime) (k : Int64) :
    (m.markList token).seqAt k =
      if token = k then (m.seqAt k).map (·.mark (PostingList.staysAt targetTime))
      else m.seqAt k := by
  simp only [markList, inPass]
  exact seqAt_modify _ _ _ _ _ fun pl => pl.abs_mark _

omit [Inhabited W] in
theorem seqAt_clear (m : IndexMachine W) (token k : Int64) :
    (m.clearList token).seqAt k = if token = k then (m.seqAt k).map (·.clear) else m.seqAt k :=
  seqAt_modify _ _ _ _ _ fun pl => pl.abs_clear

omit [Inhabited W] in
theorem mem_expiredIn (m : IndexMachine W) (token : Int64) (p : Posting W) :
    p ∈ m.expiredIn token ↔ ∃ s, m.seqAt token = some s ∧ p ∈ s.hidden := by
  unfold expiredIn seqAt
  cases m.index[token]? <;> simp

/-- Everything a step can do to the list of token `k`, by the list it leaves. -/
inductive ListChange (m : IndexMachine W) (k : Int64) : IndexEvent W → MarkedSeq (Posting W) → Prop
  | same {e s} (before : m.seqAt k = some s) : ListChange m k e s
  | created {story} (absent : m.seqAt k = none) : ListChange m k (.create story) (.unmarked [])
  | pushed {localId weight time s} (before : m.seqAt k = some s) :
      ListChange m k (.push k localId weight time) (s.push ⟨localId, weight, Int32.ofInt time⟩)
  | marked {targetTime s} (before : m.seqAt k = some s) (inPass : m.targetTime = some targetTime) :
      ListChange m k (.mark k) (s.mark (PostingList.staysAt targetTime))
  | cleared {s} (before : m.seqAt k = some s) : ListChange m k (.clear k) s.clear

theorem listChange {P : Platform W} {docLifeTime : Int} {m : IndexMachine W} {e : IndexEvent W}
    {k : Int64} {s : MarkedSeq (Posting W)} (after : (m.step P docLifeTime e).seqAt k = some s) :
    ListChange m k e s := by
  cases e with
  | attach req => exact .same after
  | create story =>
      simp only [step, seqAt_create] at after
      split at after
      · rename_i new
        cases after
        exact .created new.2
      · exact .same after
  | push token localId weight time =>
      simp only [step, seqAt_push] at after
      split at after
      · rename_i here
        subst here
        obtain ⟨before, same, rfl⟩ := Option.map_eq_some_iff.mp after
        exact .pushed same
      · exact .same after
  | startPass now => exact .same after
  | mark token =>
      cases inPass : m.targetTime with
      | none =>
          simp only [step, markList, inPass] at after
          exact .same after
      | some targetTime =>
          simp only [step, seqAt_mark m token inPass] at after
          split at after
          · rename_i here
            subst here
            obtain ⟨before, same, rfl⟩ := Option.map_eq_some_iff.mp after
            exact .marked same inPass
          · exact .same after
  | clear token =>
      simp only [step, seqAt_clear] at after
      split at after
      · rename_i here
        subst here
        obtain ⟨before, same, rfl⟩ := Option.map_eq_some_iff.mp after
        exact .cleared same
      · exact .same after
  | deleteAtt => exact .same after

end IndexMachine

end RecommEngine.Indexing
