/-
# Retrieval.Rebuild -- searching after a story was built again

A build knows nothing of earlier builds of the same story: it takes the next
local id and posts it under every keyword.  A search ranks local ids, so a story
that was built twice is ranked twice.

`score_addStoryInternal` and `entryOf_addStoryInternal` say what a build changes
for a request: the id and the score of the local id it takes, and nothing else.
`rebuild_adds_copy` puts a second build next to the first: the documents that
`retrieve` ranks are the old ones and one more, under the story's id and with
the same hits.  Lists whose mark stands at the front hide what is pushed onto
them, from both builds alike (`hidesPush`).
-/
import RecommEngine.Retrieval.RetrievalHandler

namespace RecommEngine.Retrieval

set_option autoImplicit false

open Std (ExtTreeMap)
open Theory Idl Indexing

namespace RetrievalHandler

variable {W : Type}

/-! ## What a build changes for a request -/

/-- The mark of the token's list stands at its front. -/
def hidesPush (m : IndexMachine W) (token : Int64) : Bool :=
  match m.seqAt token with
  | some (.atFront _) => true
  | _ => false

/-- The positions of the request at which a new posting of the story is seen. -/
def newHits (m : IndexMachine W) (story : StoryProfile) (request : RetrievalRequest) : Nat :=
  request.keywords.countP fun info =>
    info.keyword ∈ story.keywords ∧ hidesPush m info.keyword = false

instance (flags : Flags) (m : InstantIndex W) (request : RetrievalRequest) (d : LocalDocID) :
    Decidable (Qualifies flags m request d) :=
  inferInstanceAs (Decidable (_ ∧ _))

theorem visibleAt_eq (m : IndexMachine W) (token : Int64) :
    IndexReader.visibleAt m.toInstantIndex token =
      ((m.seqAt token).map MarkedSeq.visible).getD [] := by
  unfold IndexReader.visibleAt IndexMachine.seqAt
  cases m.index[token]? <;> rfl

variable [Inhabited W] (P : Platform W) (docLifeTime : Int) (m : IndexMachine W)
  (req : StoryAddingRequest) (clock : Nat → Int)

/-- A build moves no mark to or from the front of a list. -/
theorem hidesPush_addStoryInternal (token : Int64) :
    hidesPush (m.addStoryInternal P docLifeTime req clock) token = hidesPush m token := by
  unfold hidesPush
  rw [IndexMachine.seqAt_addStoryInternal]
  cases IndexMachine.newPosting P m.localDocidCounter req.story.keywords clock token with
  | none => rfl
  | some posting =>
      cases m.seqAt token with
      | none => rfl
      | some s => cases s <;> rfl

theorem countP_visibleAt (token : Int64) (d : LocalDocID) :
    (IndexReader.visibleAt (m.addStoryInternal P docLifeTime req clock).toInstantIndex token).countP
        (·.localDocid = d) =
      (IndexReader.visibleAt m.toInstantIndex token).countP (·.localDocid = d) +
        if m.localDocidCounter = d ∧ token ∈ req.story.keywords ∧ hidesPush m token = false then 1
        else 0 := by
  rw [visibleAt_eq, visibleAt_eq, IndexMachine.seqAt_addStoryInternal]
  cases new : IndexMachine.newPosting P m.localDocidCounter req.story.keywords clock token with
  | none => simp [IndexMachine.newPosting_eq_none.mp new]
  | some posting =>
      have inside : token ∈ req.story.keywords := by
        by_contra absent
        rw [IndexMachine.newPosting_eq_none.mpr absent] at new
        cases new
      have own : posting.localDocid = m.localDocidCounter := (IndexMachine.newPosting_stamp new).1
      unfold hidesPush
      cases m.seqAt token with
      | none => simp [MarkedSeq.push, MarkedSeq.visible, inside, own, List.countP_cons]
      | some s =>
          cases s <;> simp [MarkedSeq.push, MarkedSeq.visible, inside, own, List.countP_cons]

theorem score_addStoryInternal (request : RetrievalRequest) (d : LocalDocID) :
    score (m.addStoryInternal P docLifeTime req clock).toInstantIndex request d =
      score m.toInstantIndex request d +
        if m.localDocidCounter = d then newHits m req.story request else 0 := by
  unfold score newHits
  induction request.keywords with
  | nil => simp
  | cons info infos ih =>
      rw [List.map_cons, List.sum_cons, ih, countP_visibleAt, List.map_cons, List.sum_cons,
        List.countP_cons]
      by_cases here : m.localDocidCounter = d
      · simp only [here, true_and, if_true, decide_eq_true_eq]
        omega
      · simp only [here, false_and, if_false]
        omega

theorem newHits_addStoryInternal (story : StoryProfile) (request : RetrievalRequest) :
    newHits (m.addStoryInternal P docLifeTime req clock) story request =
      newHits m story request := by
  simp only [newHits, hidesPush_addStoryInternal]

theorem entryOf_addStoryInternal (request : RetrievalRequest) (d : LocalDocID) :
    entryOf (m.addStoryInternal P docLifeTime req clock).toInstantIndex request d =
      if m.localDocidCounter = d then
        ⟨P.cityHash64 req.story.storyId,
          ((score m.toInstantIndex request d + newHits m req.story request : Nat) : ℚ)⟩
      else entryOf m.toInstantIndex request d := by
  obtain ⟨att, -, -, -⟩ := IndexMachine.addStoryInternal_frame P docLifeTime m req clock
  simp only [entryOf, score_addStoryInternal, IndexReader.getGlobalIDFromLocalID,
    InstantIndex.translateToGlobalID, att, ExtTreeMap.getElem?_insert]
  by_cases here : m.localDocidCounter = d
  · simp [here]
  · simp [here]

/-- The documents that `retrieve` ranks, as it ranks them. -/
def ranking (flags : Flags) (m : InstantIndex W) (request : RetrievalRequest) : List Entry :=
  (pool flags m request).map (entryOf m request)

theorem qualifies_addStoryInternal (flags : Flags) (request : RetrievalRequest) {d : LocalDocID}
    (other : m.localDocidCounter ≠ d) :
    Qualifies flags (m.addStoryInternal P docLifeTime req clock).toInstantIndex request d ↔
      Qualifies flags m.toInstantIndex request d := by
  simp only [Qualifies, score_addStoryInternal, if_neg other, Nat.add_zero]

/-- A build changes the pool at the local id it takes only. -/
theorem pool_addStoryInternal (flags : Flags) (request : RetrievalRequest) :
    (pool flags (m.addStoryInternal P docLifeTime req clock).toInstantIndex request).Perm
      ((if Qualifies flags (m.addStoryInternal P docLifeTime req clock).toInstantIndex request
          m.localDocidCounter
        then [m.localDocidCounter] else []) ++
        (pool flags m.toInstantIndex request).erase m.localDocidCounter) := by
  have ids := perm_erase_of_mem_iff (d := m.localDocidCounter)
    (nodup_pool flags m.toInstantIndex request)
    (nodup_pool flags (m.addStoryInternal P docLifeTime req clock).toInstantIndex request) ?_
  · simpa only [mem_pool_iff] using ids
  · intro a other
    rw [mem_pool_iff, mem_pool_iff]
    exact qualifies_addStoryInternal P docLifeTime m req clock flags request (Ne.symm other)

/-- A build adds its document to the ranking, if it qualifies, in place of one
that had the same local id. -/
theorem ranking_addStoryInternal (flags : Flags) (request : RetrievalRequest) :
    (ranking flags (m.addStoryInternal P docLifeTime req clock).toInstantIndex request).Perm
      ((if Qualifies flags (m.addStoryInternal P docLifeTime req clock).toInstantIndex request
          m.localDocidCounter
        then [entryOf (m.addStoryInternal P docLifeTime req clock).toInstantIndex request
          m.localDocidCounter] else []) ++
        ((pool flags m.toInstantIndex request).erase m.localDocidCounter).map
          (entryOf m.toInstantIndex request)) := by
  let built := (m.addStoryInternal P docLifeTime req clock).toInstantIndex
  let d := m.localDocidCounter
  have entries := (pool_addStoryInternal P docLifeTime m req clock flags request).map
    (entryOf built request)
  rw [List.map_append] at entries
  refine entries.trans ?_
  have left : d ∉ (pool flags m.toInstantIndex request).erase d :=
    (nodup_pool flags m.toInstantIndex request).not_mem_erase
  have old : ((pool flags m.toInstantIndex request).erase d).map (entryOf built request) =
      ((pool flags m.toInstantIndex request).erase d).map (entryOf m.toInstantIndex request) := by
    apply List.map_congr_left
    intro a inside
    have other : d ≠ a := fun same => left (same.symm ▸ inside)
    rw [entryOf_addStoryInternal, if_neg (show m.localDocidCounter ≠ a from other)]
  rw [old]
  apply List.Perm.append_right
  split <;> exact List.Perm.refl _

end RetrievalHandler

open RetrievalHandler

/-- **A story built twice is ranked twice.**  After the second build `retrieve`
ranks the documents it ranked after the first and, if it passes the filter, one
more, under the story's id and with the same hits as the first; it returns the
first `max_doc_return` of them.  The scores of the two local ids before their
builds are 0 unless the 32-bit ids have come round. -/
theorem rebuild_adds_copy {W : Type} [Inhabited W] {sort : List Entry → List Entry}
    (sortOk : SortOk sort) (flags : Flags) (P : Platform W) (docLifeTime : Int)
    (m : IndexMachine W) (req : StoryAddingRequest) (clock clock' : Nat → Int)
    (request : RetrievalRequest) :
    let once := m.addStoryInternal P docLifeTime req clock
    let twice := once.addStoryInternal P docLifeTime req clock'
    let first := m.localDocidCounter
    let copy := once.localDocidCounter
    let hits := newHits m req.story request
    entryOf once.toInstantIndex request first =
        ⟨P.cityHash64 req.story.storyId, ((score m.toInstantIndex request first + hits : Nat) : ℚ)⟩ ∧
      entryOf twice.toInstantIndex request copy =
        ⟨P.cityHash64 req.story.storyId,
          ((score once.toInstantIndex request copy + hits : Nat) : ℚ)⟩ ∧
      (ranking flags twice.toInstantIndex request).Perm
        ((if Qualifies flags twice.toInstantIndex request copy
          then [entryOf twice.toInstantIndex request copy] else []) ++
          ((pool flags once.toInstantIndex request).erase copy).map
            (entryOf once.toInstantIndex request)) ∧
      ∃ enough, ∀ rounds, enough ≤ rounds →
        retrieve sort flags twice.toInstantIndex rounds request {} = .ok
          ⟨.ok, min ((ranking flags twice.toInstantIndex request).length : Int) flags.maxDocReturn,
            ((sort (ranking flags twice.toInstantIndex request)).take
              (min ((ranking flags twice.toInstantIndex request).length : Int)
                flags.maxDocReturn).toNat).map fun e => ⟨e.storyId, e.score⟩⟩ := by
  intro once twice first copy hits
  refine ⟨?_, ?_, ?_, ?_⟩
  · rw [entryOf_addStoryInternal, if_pos rfl]
  · rw [entryOf_addStoryInternal, if_pos rfl, newHits_addStoryInternal]
  · exact ranking_addStoryInternal P docLifeTime once req clock' flags request
  · exact retrieve_eq sortOk flags twice.toInstantIndex request

/-! ## A story that pushes another one out -/

namespace PushedAgain

open TwoStories (platform sort sortOk)

def other : IndexMachine Int32 :=
  ({} : IndexMachine Int32).addStoryInternal platform 10 (TwoStories.request "bb" [(2, 5)])
    fun _ => 10

def story : StoryAddingRequest := TwoStories.request "a" [(1, 3), (2, 4)]

def once : IndexMachine Int32 := other.addStoryInternal platform 10 story fun _ => 10

def twice : IndexMachine Int32 := once.addStoryInternal platform 10 story fun _ => 11

def request : RetrievalRequest := ⟨[⟨1, 0⟩, ⟨2, 0⟩]⟩

/-- Two documents are returned: story 1 and story 2 after one build of story 1,
and story 1 twice after two. -/
theorem second_build_pushes_out :
    retrieve sort ⟨2, 1 / 5⟩ once.toInstantIndex 10 request {} =
        .ok ⟨.ok, 2, [⟨1, 2⟩, ⟨2, 1⟩]⟩ ∧
      retrieve sort ⟨2, 1 / 5⟩ twice.toInstantIndex 10 request {} =
        .ok ⟨.ok, 2, [⟨1, 2⟩, ⟨1, 2⟩]⟩ ∧
      ¬ ([⟨1, 2⟩, ⟨2, 1⟩] : List RetrievalResult).Perm [⟨1, 2⟩, ⟨1, 2⟩] := by
  refine ⟨by decide +kernel, by decide +kernel, by decide⟩

/-- With room for all, the copy comes next to the first document of the story. -/
theorem second_build_ranked :
    (ranking {} twice.toInstantIndex request).Perm
      (entryOf twice.toInstantIndex request 3 ::
        (pool {} once.toInstantIndex request).map (entryOf once.toInstantIndex request)) := by
  have copies : (ranking {} twice.toInstantIndex request).Perm
      ((if Qualifies {} twice.toInstantIndex request 3
        then [entryOf twice.toInstantIndex request 3] else []) ++
        ((pool {} once.toInstantIndex request).erase 3).map
          (entryOf once.toInstantIndex request)) :=
    (rebuild_adds_copy sortOk {} platform 10 other story (fun _ => 10) (fun _ => 11) request).2.2.1
  have qualifies : Qualifies {} twice.toInstantIndex request 3 := by decide +kernel
  have unused : (pool {} once.toInstantIndex request).erase 3 =
      pool {} once.toInstantIndex request := by decide +kernel
  rw [if_pos qualifies, unused] at copies
  exact copies

end PushedAgain

end RecommEngine.Retrieval
