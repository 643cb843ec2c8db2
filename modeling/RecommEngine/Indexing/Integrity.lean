/-
# Indexing.Integrity -- postings and attachments

A search returns local ids and translates them through `att_`.  `Integrity`
says that every posting still linked has an attachment.  A build keeps it.  A
pass forgets a document as soon as *one* of its postings is cut, while its
other postings are judged by their own timestamps: the pass keeps `Integrity`
exactly if its cutoff does not fall between two postings of one document
(`NotSplit`).  Each posting of a story reads the clock for itself, so a story
built across the tick of a second can be split.
-/
import RecommEngine.Indexing.Operations

namespace RecommEngine.Indexing

set_option autoImplicit false

open Std (ExtTreeMap)
open Theory Theory.Run Idl

namespace IndexMachine

variable {W : Type}

/-- Every posting a search can return is translated. -/
def Integrity (m : IndexMachine W) : Prop :=
  ∀ k p, m.Posted k p → (m.translateToGlobalID p.localDocid).isSome

theorem isSome_translate (m : IndexMachine W) (localId : LocalDocID) :
    (m.translateToGlobalID localId).isSome ↔ ∃ a, m.att[localId]? = some a := by
  rw [InstantIndex.translateToGlobalID, Option.isSome_map, Option.isSome_iff_exists]

variable [Inhabited W]

theorem posted_addStoryInternal {P : Platform W} {docLifeTime : Int} {m : IndexMachine W}
    {req : StoryAddingRequest} {clock : Nat → Int} {k : Int64} {p : Posting W} :
    (m.addStoryInternal P docLifeTime req clock).Posted k p ↔ m.Posted k p ∨
      newPosting P m.localDocidCounter req.story.keywords clock k = some p := by
  rw [Posted, Posted, seqAt_addStoryInternal]
  cases new : newPosting P m.localDocidCounter req.story.keywords clock k with
  | none => simp
  | some posting => cases m.seqAt k <;> simp [or_comm, eq_comm]

omit [Inhabited W] in
/-- The documents a pass forgets, on sorted lists: those with a posting below the cutoff. -/
theorem losesPosting_iff {m : IndexMachine W}
    (sorted : ∀ k s, m.seqAt k = some s → YoungestFirst s) {targetTime : Int} {localId : LocalDocID} :
    m.LosesPosting targetTime localId ↔
      ∃ k p, m.Posted k p ∧ p.localDocid = localId ∧ p.timestamp.toInt < targetTime := by
  constructor
  · rintro ⟨k, s, before, p, cut, same⟩
    have old := not_stay_of_mem_dropWhile
      ((sorted k s before).pairwise_staysAt targetTime) cut
    exact ⟨k, p, ⟨s, before, (List.dropWhile_sublist _).subset cut⟩, same,
      by simpa [PostingList.staysAt] using old⟩
  · rintro ⟨k, p, ⟨s, before, inside⟩, same, old⟩
    refine ⟨k, s, before, p, ?_, same⟩
    rw [← List.takeWhile_append_dropWhile (p := PostingList.staysAt targetTime) (l := s.contents),
      List.mem_append] at inside
    apply inside.resolve_left
    intro kept
    have stays := List.mem_takeWhile_imp kept
    simp only [PostingList.staysAt, decide_eq_true_eq] at stays
    omega

/-- A build gives the new document its attachment before its postings. -/
theorem Integrity.addStoryInternal {P : Platform W} {docLifeTime : Int} {m : IndexMachine W}
    {req : StoryAddingRequest} {clock : Nat → Int} (integrity : Integrity m) :
    Integrity (m.addStoryInternal P docLifeTime req clock) := by
  intro k p posted
  rw [isSome_translate, (addStoryInternal_frame P docLifeTime m req clock).1,
    ExtTreeMap.getElem?_insert]
  rcases posted_addStoryInternal.mp posted with before | new
  · obtain ⟨a, found⟩ := (isSome_translate m p.localDocid).mp (integrity k p before)
    by_cases here : m.localDocidCounter = p.localDocid
    · exact ⟨_, by simp [here]; rfl⟩
    · exact ⟨a, by simp [here, found]⟩
  · rw [(newPosting_stamp new).1]
    exact ⟨⟨P.cityHash64 req.story.storyId⟩, by simp⟩

end IndexMachine

/-! ## A story split by the cutoff -/

namespace SplitStory

def platform : Platform Int32 := ⟨fun _ => 77, id⟩

def request : StoryAddingRequest := ⟨⟨"s", 0, "", "", ((∅ : Keywords).insert 1 3).insert 2 4⟩⟩

/-- The same story with both postings in one second. -/
def withinTick : List IndexOp := [.build request fun _ => 10, .pass 15, .pass 21]

end SplitStory

end RecommEngine.Indexing
