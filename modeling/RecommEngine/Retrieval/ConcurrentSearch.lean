/-
# Retrieval.ConcurrentSearch -- a search while the index changes

One `retrieve` call as a state machine, a step per call it makes on the shared
index: `GetPostingList`, the three iterator calls, and one `TranslateToGlobalID`
per document.  Between two of its steps the builder and the cleaner may take any
number of theirs (`IndexEvent`).

The local ids are collected first and translated later.  If the cleaner deletes
an attachment in between, `getGlobalIDFromLocalID` falls back to the local id
and the response presents it as a story id.  `results_are_stories` proves that
every result is the hash of a story built under the matched id, in every run
where each posting read has an attachment and no attachment is deleted between
the read of an id and its translation (`Undisturbed`).
-/
import RecommEngine.Retrieval.RetrievalHandler

namespace RecommEngine.Retrieval

set_option autoImplicit false

open Std (ExtTreeMap)
open Util Theory Theory.Run Idl Indexing

inductive SearchPc where
  | begin
  | keywords (rest : List RetrievalRequestInfo)
  | hasValue (keyword : Int64) (it : PostingIteratorImpl) (rest : List RetrievalRequestInfo)
  | getValue (keyword : Int64) (it : PostingIteratorImpl) (rest : List RetrievalRequestInfo)
  | next (keyword : Int64) (it : PostingIteratorImpl) (rest : List RetrievalRequestInfo)
  | docs
  | done

structure SearchState (W : Type) where
  index : IndexMachine W := {}
  pc : SearchPc := .begin
  reader : IndexReader W := {}
  docSet : ResultSet := {}
  /-- The local id behind each entry of `docSet`, in order. -/
  matched : List (LocalDocID × Entry) := []
  response : Option (Except Fault RetrievalResponse) := none

inductive SearchEvent (W : Type) where
  | index (e : IndexEvent W)
  | search

/-- What a search is given besides the index. -/
structure Query where
  sort : List Entry → List Entry
  flags : Flags
  request : RetrievalRequest

namespace SearchState

variable {W : Type}

/-! ## The steps of a search -/

def fail (s : SearchState W) (fault : Fault) : SearchState W :=
  { s with pc := .done, response := some (.error fault) }

/-- A call on the iterator of `keyword`, which refers to the list in the index.
Tokens are never removed, so the reference stays good. -/
def onList (s : SearchState W) (keyword : Int64) (call : PostingList W → SearchState W) :
    SearchState W :=
  match s.index.index[keyword]? with
  | none => s.fail .nullDereference
  | some pl => call pl.1

/-- The posting `GetValue` is about to return. -/
def nextPosting (s : SearchState W) : Option (Posting W) :=
  match s.pc with
  | .getValue keyword it _ =>
      match s.index.index[keyword]? with
      | none => none
      | some pl => (it.cur.bind pl.1.innerList.next).map pl.1.innerList.data
  | _ => none

/-- One turn of the document loop of `retrieve`. -/
def docStep (q : Query) (s : SearchState W) : SearchState W :=
  match s.reader.nextDoc s.index.toInstantIndex with
  | none =>
      { s with pc := .done, response := some (RetrievalHandler.finish q.sort q.flags s.docSet {}) }
  | some (doc, reader) =>
      let score := RetrievalHandler.computeRank doc
      if score < q.flags.hitKeywordsRatio * q.request.keywords.length then
        { s with reader := reader }
      else { s with
        reader := reader
        docSet := s.docSet.insertDoc doc.storyId score
        matched := s.matched ++
          (s.reader.mIter.head?.map fun file => (file.1, ⟨doc.storyId, score⟩)).toList }

def searchStep (q : Query) (s : SearchState W) : SearchState W :=
  match s.pc with
  | .begin =>
      { s with
        reader := { s.reader with mKeywordInfo := q.request.keywords, mDocHitsInfo := ∅ }
        pc := .keywords q.request.keywords }
  | .keywords [] =>
      { s with reader := { s.reader with mIter := s.reader.mDocHitsInfo.toList }, pc := .docs }
  | .keywords (info :: rest) =>
      match s.index.getPostingList info.keyword with
      | none => { s with pc := .keywords rest }
      | some (_, it) => { s with pc := .hasValue info.keyword it rest }
  | .hasValue keyword it rest =>
      s.onList keyword fun pl =>
        match it.hasValue pl with
        | (true, it) => { s with pc := .getValue keyword it rest }
        | (false, _) => { s with pc := .keywords rest }
  | .getValue keyword it rest =>
      s.onList keyword fun pl =>
        match it.getValue pl with
        | .error fault => s.fail fault
        | .ok (onedoc, it) =>
            { s with
              reader := s.reader.addHitKeywordToDocInfo ⟨keyword, onedoc.weight⟩ onedoc.localDocid
              pc := .next keyword it rest }
  | .next keyword it rest =>
      s.onList keyword fun pl =>
        match it.next pl with
        | .error fault => s.fail fault
        | .ok it => { s with pc := .hasValue keyword it rest }
  | .docs => s.docStep q
  | .done => s

def step [Inhabited W] (P : Platform W) (docLifeTime : Int) (q : Query) (s : SearchState W) :
    SearchEvent W → SearchState W
  | .index e => { s with index := s.index.step P docLifeTime e }
  | .search => s.searchStep q

/-! ## The condition -/

/-- The local ids collected and not yet translated. -/
def pending (s : SearchState W) : List LocalDocID :=
  match s.pc with
  | .docs => s.reader.mIter.map Prod.fst
  | .done => []
  | _ => s.reader.mDocHitsInfo.keys

/-- A posting that is read has an attachment, and no attachment is deleted
between the read of its id and the translation. -/
def Undisturbed (s : SearchState W) : SearchEvent W → Prop
  | .search => ∀ p ∈ s.nextPosting, p.localDocid ∈ s.index.att
  | .index .deleteAtt => ∀ localId ∈ s.pending, localId ∉ s.index.docToDelete
  | .index _ => True

instance (s : SearchState W) : DecidablePred s.Undisturbed
  | .search => inferInstanceAs (Decidable (∀ p ∈ s.nextPosting, p.localDocid ∈ s.index.att))
  | .index .deleteAtt =>
      inferInstanceAs (Decidable (∀ localId ∈ s.pending, localId ∉ s.index.docToDelete))
  | .index (.attach _) | .index (.create _) | .index (.push _ _ _ _) | .index (.startPass _)
  | .index (.mark _) | .index (.clear _) => .isTrue trivial

/-! ## The invariant -/

/-- `globalId` is the hash of a story built under `localId`. -/
def IsStory (P : Platform W) (m : IndexMachine W) (localId : LocalDocID) (globalId : Int64) :
    Prop :=
  ∃ req, (localId, req) ∈ m.built ∧ globalId = P.cityHash64 req.story.storyId

structure Sound (P : Platform W) (s : SearchState W) : Prop where
  att : ∀ localId a, s.index.att[localId]? = some a → IsStory P s.index localId a.globalDocid
  pending : ∀ localId ∈ s.pending, localId ∈ s.index.att
  matched : ∀ x ∈ s.matched, IsStory P s.index x.1 x.2.storyId
  entries : s.docSet.mDocs = s.matched.map Prod.snd
  response : ∀ response, s.response = some (.ok response) → ∀ r ∈ response.results,
    ∃ localId, (localId, ⟨r.storyId, r.score⟩) ∈ s.matched

theorem sound_init (P : Platform W) : Sound P ({} : SearchState W) :=
  ⟨by simp, by simp [SearchState.pending], by simp, rfl, by simp⟩

theorem IsStory.mono {P : Platform W} {m m' : IndexMachine W} {localId : LocalDocID}
    {globalId : Int64} (more : ∀ x ∈ m.built, x ∈ m'.built) (story : IsStory P m localId globalId) :
    IsStory P m' localId globalId := by
  obtain ⟨req, built, hash⟩ := story
  exact ⟨req, more _ built, hash⟩

/-- A translation that finds an attachment yields a story. -/
theorem Sound.translated {P : Platform W} {s : SearchState W} (sound : Sound P s)
    {localId : LocalDocID} (attached : localId ∈ s.index.att) :
    IsStory P s.index localId
      (IndexReader.getGlobalIDFromLocalID s.index.toInstantIndex localId) := by
  obtain ⟨a, found⟩ := Option.isSome_iff_exists.mp (ExtTreeMap.isSome_getElem?_iff_mem.mpr attached)
  have story := sound.att localId a found
  simpa [IndexReader.getGlobalIDFromLocalID, InstantIndex.translateToGlobalID, found] using story

theorem Sound.docStep {P : Platform W} {q : Query} (sortOk : SortOk q.sort) {s : SearchState W}
    (sound : Sound P s) (pc : s.pc = .docs) : Sound P (s.docStep q) := by
  have pending := sound.pending
  simp only [SearchState.pending, pc] at pending
  unfold SearchState.docStep IndexReader.nextDoc
  rcases iter : s.reader.mIter with _ | ⟨⟨localId, keyInfo⟩, rest⟩
  · refine ⟨sound.att, by simp [SearchState.pending], sound.matched, sound.entries, ?_⟩
    rintro response answer r hr
    have inside := RetrievalHandler.mem_of_finish sortOk (Option.some.inj answer) hr
    rw [sound.entries] at inside
    obtain ⟨⟨localId, entry⟩, hx, same⟩ := List.mem_map.mp inside
    exact ⟨localId, same ▸ hx⟩
  · have story := sound.translated (pending localId (by simp [iter]))
    have tail : ∀ localId ∈ rest.map Prod.fst, localId ∈ s.index.att := by
      intro d hd
      exact pending d (by simp [iter]; exact Or.inr (by simpa using hd))
    simp only [List.head?_cons, Option.map_some, Option.toList_some]
    split
    · exact ⟨sound.att, by simpa [SearchState.pending, pc] using tail, sound.matched, sound.entries,
        sound.response⟩
    · refine ⟨sound.att, by simpa [SearchState.pending, pc] using tail, ?_, ?_, ?_⟩
      · intro x hx
        rcases List.mem_append.mp hx with old | new
        · exact sound.matched x old
        · rw [List.mem_singleton.mp new]
          exact story
      · simp [ResultSet.insertDoc, sound.entries]
      · intro response answer r hr
        obtain ⟨localId, old⟩ := sound.response response answer r hr
        exact ⟨localId, List.mem_append_left _ old⟩

/-- A step that only moves on, with every collected id attached. -/
theorem Sound.moved {P : Platform W} {s : SearchState W} (sound : Sound P s) {pc : SearchPc}
    {reader : IndexReader W}
    (attached : ∀ localId ∈ ({ s with pc := pc, reader := reader } : SearchState W).pending,
      localId ∈ s.index.att) : Sound P { s with pc := pc, reader := reader } :=
  ⟨sound.att, attached, sound.matched, sound.entries, sound.response⟩

theorem Sound.fail {P : Platform W} {s : SearchState W} (sound : Sound P s) (fault : Fault) :
    Sound P (s.fail fault) :=
  ⟨sound.att, by simp [SearchState.fail, SearchState.pending], sound.matched, sound.entries,
    by simp [SearchState.fail]⟩

theorem Sound.onList {P : Platform W} {s : SearchState W} (sound : Sound P s) {keyword : Int64}
    {call : PostingList W → SearchState W}
    (called : ∀ pl, s.index.index[keyword]? = some pl → Sound P (call pl.1)) :
    Sound P (s.onList keyword call) := by
  unfold SearchState.onList
  cases found : s.index.index[keyword]? with
  | none => exact sound.fail _
  | some pl => exact called pl found

theorem Sound.searchStep {P : Platform W} {q : Query} (sortOk : SortOk q.sort) {s : SearchState W}
    (sound : Sound P s) (safe : s.Undisturbed .search) : Sound P (s.searchStep q) := by
  have pending := sound.pending
  cases pc : s.pc with
  | begin =>
      simp only [SearchState.searchStep, pc]
      exact sound.moved (by simp [SearchState.pending])
  | keywords rest =>
      simp only [SearchState.pending, pc] at pending
      cases rest with
      | nil =>
          simp only [SearchState.searchStep, pc]
          apply sound.moved
          simpa only [SearchState.pending, ExtTreeMap.map_fst_toList_eq_keys] using pending
      | cons info rest =>
          simp only [SearchState.searchStep, pc]
          split <;> exact sound.moved pending
  | hasValue keyword it rest =>
      simp only [SearchState.pending, pc] at pending
      simp only [SearchState.searchStep, pc]
      apply sound.onList
      intro pl _
      split <;> exact sound.moved pending
  | getValue keyword it rest =>
      simp only [SearchState.pending, pc] at pending
      simp only [SearchState.searchStep, pc]
      apply sound.onList
      intro pl found
      unfold PostingIteratorImpl.getValue
      by_cases flag : it.hasValueFlag
      · cases link : it.cur.bind pl.1.innerList.next with
        | none =>
            simp only [flag, if_true]
            exact sound.fail _
        | some node =>
            -- The id just read is attached; the others were before.
            simp only [flag, if_true]
            apply sound.moved
            intro localId inside
            simp only [SearchState.pending, ExtTreeMap.mem_keys, IndexReader.mem_addHit] at inside
            rcases inside with rfl | old
            · exact safe _ (by simp [nextPosting, pc, found, link])
            · exact pending localId (ExtTreeMap.mem_keys.mpr old)
      · simp only [flag]
        exact sound.fail _
  | next keyword it rest =>
      simp only [SearchState.pending, pc] at pending
      simp only [SearchState.searchStep, pc]
      apply sound.onList
      intro pl _
      split
      · exact sound.fail _
      · exact sound.moved pending
  | docs =>
      simp only [SearchState.searchStep, pc]
      exact sound.docStep sortOk pc
  | done =>
      simp only [SearchState.searchStep, pc]
      exact sound

/-- A step of the index keeps what the search relies on, if it deletes nothing pending. -/
theorem Sound.indexStep [Inhabited W] {P : Platform W} {docLifeTime : Int} {s : SearchState W}
    {e : IndexEvent W} (sound : Sound P s) (safe : s.Undisturbed (.index e)) :
    Sound P { s with index := s.index.step P docLifeTime e } := by
  obtain ⟨att, pending, matched, entries, response⟩ := sound
  have same : ∀ m : IndexMachine W, m.att = s.index.att → m.built = s.index.built →
      Sound P { s with index := m } := by
    intro m attSame builtSame
    refine ⟨?_, ?_, ?_, entries, response⟩ <;> simp only [attSame, IsStory, builtSame]
    · exact att
    · exact pending
    · exact matched
  cases e with
  | attach req =>
      have more : ∀ x ∈ s.index.built, x ∈ (s.index.attach P req).built :=
        fun x hx => List.mem_cons_of_mem _ hx
      refine ⟨?_, ?_, fun x hx => (matched x hx).mono more, entries, response⟩
      · intro localId a found
        simp only [IndexMachine.step, IndexMachine.attach, ExtTreeMap.getElem?_insert] at found
        split at found
        · rename_i here
          obtain rfl := Std.LawfulEqCmp.eq_of_compare here
          cases found
          exact ⟨req, List.mem_cons_self, rfl⟩
        · exact (att localId a found).mono more
      · intro localId inside
        simp only [IndexMachine.step, IndexMachine.attach, ExtTreeMap.mem_insert]
        exact Or.inr (pending localId inside)
  | deleteAtt =>
      have kept : ∀ localId a, s.index.deleteAtt.att[localId]? = some a ↔
          s.index.att[localId]? = some a ∧ localId ∉ s.index.docToDelete := by
        intro localId a
        simp [IndexMachine.deleteAtt, Option.filter_eq_some_iff]
      refine ⟨?_, ?_, matched, entries, response⟩
      · intro localId a found
        exact att localId a ((kept localId a).mp found).1
      · intro localId inside
        obtain ⟨a, found⟩ := Option.isSome_iff_exists.mp
          (ExtTreeMap.isSome_getElem?_iff_mem.mpr (pending localId inside))
        refine ExtTreeMap.isSome_getElem?_iff_mem.mp (Option.isSome_iff_exists.mpr ⟨a, ?_⟩)
        exact (kept localId a).mpr ⟨found, safe localId inside⟩
  | mark token =>
      refine same _ ?_ ?_ <;> simp only [IndexMachine.step, IndexMachine.markList] <;> split <;> rfl
  | create story => exact same _ rfl rfl
  | push token localId weight time => exact same _ rfl rfl
  | startPass now => exact same _ rfl rfl
  | clear token => exact same _ rfl rfl

/-- **Every result is a story.**  In every interleaving of a search with builder
and cleaner steps in which the search is undisturbed, each story id in the
response is the hash of a story built under the local id that was matched. -/
theorem results_are_stories [Inhabited W] (P : Platform W) (docLifeTime : Int) (q : Query)
    (sortOk : SortOk q.sort) (es : List (SearchEvent W))
    (safe : Along (step P docLifeTime q) Undisturbed {} es) (response : RetrievalResponse)
    (answer : (run (step P docLifeTime q) {} es).response = some (.ok response)) :
    ∀ r ∈ response.results, ∃ localId req,
      (localId, ⟨r.storyId, r.score⟩) ∈ (run (step P docLifeTime q) {} es).matched ∧
      (localId, req) ∈ (run (step P docLifeTime q) {} es).index.built ∧
      r.storyId = P.cityHash64 req.story.storyId := by
  have sound : Sound P (run (step P docLifeTime q) {} es) := by
    refine safe.invariant (?_) (sound_init P)
    intro s e sound safe
    cases e with
    | index e => exact sound.indexStep safe
    | search => exact sound.searchStep sortOk safe
  intro r hr
  obtain ⟨localId, matched⟩ := sound.response response answer r hr
  obtain ⟨req, built, hash⟩ := sound.matched _ matched
  exact ⟨localId, req, matched, built, hash⟩

end SearchState

/-! ## A pass between the read and the translation -/

namespace SearchRace

def platform : Platform Int32 := ⟨fun _ => 77, id⟩

def story : StoryProfile := ⟨"s", 0, "", "", (∅ : Keywords).insert 5 3⟩

def query : Query := ⟨TwoStories.sort, {}, ⟨[⟨5, 0⟩]⟩⟩

def build : List (SearchEvent Int32) :=
  [.index (.attach ⟨story⟩), .index (.create story), .index (.push 5 1 3 10)]

/-- `GetPostingList`, one round of the read loop, and the end of the loop. -/
def readSteps : List (SearchEvent Int32) := List.replicate 7 .search

def pass : List (SearchEvent Int32) :=
  [.index (.startPass 100), .index (.mark 5), .index (.clear 5), .index .deleteAtt]

/-- The translation, and the reply. -/
def replySteps : List (SearchEvent Int32) := [.search, .search]

/-- The pass deletes the attachment after the id was read: the response presents
local id 1 as a story id, though no story hashes to it. -/
theorem local_id_returned :
    (run (SearchState.step platform 10 query) {} (build ++ readSteps ++ pass ++ replySteps)).response =
        some (.ok ⟨.ok, 1, [⟨1, 1⟩]⟩) ∧
      ∀ req : StoryAddingRequest, platform.cityHash64 req.story.storyId ≠ 1 := by
  refine ⟨by decide +kernel, ?_⟩
  intro req
  show (77 : Int64) ≠ 1
  decide

theorem story_returned :
    ∃ response, (run (SearchState.step platform 10 query) {}
        (build ++ readSteps ++ replySteps)).response = some (.ok response) ∧
      response.results.length = 1 ∧ ∀ r ∈ response.results, r.storyId = 77 := by
  have answer : (run (SearchState.step platform 10 query) {}
      (build ++ readSteps ++ replySteps)).response = some (.ok ⟨.ok, 1, [⟨77, 1⟩]⟩) := by
    decide +kernel
  have safe : Along (SearchState.step platform 10 query) SearchState.Undisturbed {}
      (build ++ readSteps ++ replySteps) := by
    rw [replySteps, ← List.singleton_append, ← List.append_assoc, Along.append]
    exact ⟨by decide +kernel, by decide +kernel, trivial⟩
  refine ⟨_, answer, rfl, ?_⟩
  intro r hr
  obtain ⟨_, _, -, -, same⟩ := SearchState.results_are_stories platform 10 query TwoStories.sortOk
    (build ++ readSteps ++ replySteps) safe _ answer r hr
  exact same

end SearchRace

end RecommEngine.Retrieval
