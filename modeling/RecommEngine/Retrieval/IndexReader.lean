/-
# Retrieval.IndexReader -- the documents a request hits

`beginIntersect` reads the posting list of every requested keyword and files
each posting under its local document id; `nextDoc` then hands the documents out
in id order, each translated to its global id.  The map's iterator is the list
of entries still to be visited.

Over an index that does not change, the entry of a document holds one `KeyOfDoc`
for each of its visible postings, keyword by keyword (`beginIntersect_eq`,
`getElem?_addHits`).
-/
import RecommEngine.Indexing.InstantIndex

namespace RecommEngine.Retrieval

set_option autoImplicit false

open Std (ExtTreeMap)
open Idl Indexing

/-- The weight is a `float` widened to `double`, which changes no value. -/
structure KeyOfDoc (W : Type) where
  keywordId : Int64
  weightInDoc : W
  deriving DecidableEq

structure DocInfo (W : Type) where
  storyId : Int64
  keyInfo : List (KeyOfDoc W)
  deriving DecidableEq

structure IndexReader (W : Type) where
  mKeywordInfo : List RetrievalRequestInfo := []
  mDocHitsInfo : ExtTreeMap LocalDocID (List (KeyOfDoc W)) := ∅
  mIter : List (LocalDocID × List (KeyOfDoc W)) := []

namespace IndexReader

variable {W : Type}

/-! ## Definitions -/

def addHitKeywordToDocInfo (r : IndexReader W) (keyInfo : KeyOfDoc W) (docId : LocalDocID) :
    IndexReader W :=
  match r.mDocHitsInfo[docId]? with
  | some infos => { r with mDocHitsInfo := r.mDocHitsInfo.insert docId (infos ++ [keyInfo]) }
  | none => { r with mDocHitsInfo := r.mDocHitsInfo.insert docId [keyInfo] }

/-- The inner loop of `beginIntersect`, over one posting list. -/
def readList (pl : PostingList W) (keyword : Int64) :
    Nat → PostingIteratorImpl → IndexReader W → Except Fault (IndexReader W)
  | 0, _, _ => .error .outOfRounds
  | rounds + 1, it, r =>
      match it.hasValue pl with
      | (false, _) => .ok r
      | (true, it) => do
          let (onedoc, it) ← it.getValue pl
          let r := r.addHitKeywordToDocInfo ⟨keyword, onedoc.weight⟩ onedoc.localDocid
          let it ← it.next pl
          readList pl keyword rounds it r

def readKeyword (m : InstantIndex W) (rounds : Nat) (r : IndexReader W)
    (info : RetrievalRequestInfo) : Except Fault (IndexReader W) :=
  match m.getPostingList info.keyword with
  | none => .ok r
  | some (pl, it) => readList pl info.keyword rounds it r

def beginIntersect (m : InstantIndex W) (rounds : Nat) (r : IndexReader W)
    (request : RetrievalRequest) : Except Fault (IndexReader W) := do
  let r := { r with mKeywordInfo := request.keywords, mDocHitsInfo := ∅ }
  let r ← r.mKeywordInfo.foldlM (readKeyword m rounds) r
  return { r with mIter := r.mDocHitsInfo.toList }

/-- Without an attachment the local id itself is returned. -/
def getGlobalIDFromLocalID (m : InstantIndex W) (localId : LocalDocID) : Int64 :=
  (m.translateToGlobalID localId).getD (Int64.ofNat localId.toNat)

def nextDoc (m : InstantIndex W) (r : IndexReader W) : Option (DocInfo W × IndexReader W) :=
  match r.mIter with
  | [] => none
  | (localId, keyInfo) :: rest =>
      some (⟨getGlobalIDFromLocalID m localId, keyInfo⟩, { r with mIter := rest })

/-! ## What a request hits -/

/-- The postings of `token` before the end mark, front to back. -/
def visibleAt (m : InstantIndex W) (token : Int64) : List (Posting W) :=
  match m.index[token]? with
  | none => []
  | some pl => pl.abs.visible

/-- The hits of a request, in the order they are read. -/
def hits (m : InstantIndex W) (request : RetrievalRequest) : List (LocalDocID × KeyOfDoc W) :=
  request.keywords.flatMap fun info =>
    (visibleAt m info.keyword).map fun p => (p.localDocid, ⟨info.keyword, p.weight⟩)

def addHits (r : IndexReader W) (hits : List (LocalDocID × KeyOfDoc W)) : IndexReader W :=
  hits.foldl (fun r hit => r.addHitKeywordToDocInfo hit.2 hit.1) r

/-- The read loop with its filing is the plain read loop followed by the filing. -/
theorem readList_eq (pl : PostingList W) (keyword : Int64) (rounds : Nat)
    (it : PostingIteratorImpl) (r : IndexReader W) :
    readList pl keyword rounds it r = (PostingIteratorImpl.drain pl rounds it).map fun postings =>
      r.addHits (postings.map fun p => (p.localDocid, ⟨keyword, p.weight⟩)) := by
  induction rounds generalizing it r with
  | zero => rfl
  | succ rounds ih =>
      rw [readList, PostingIteratorImpl.drain]
      rcases it.hasValue pl with ⟨_ | _, it⟩
      · rfl
      · simp only [bind, Except.bind]
        rcases it.getValue pl with fault | ⟨posting, it⟩
        · rfl
        · simp only
          rcases it.next pl with fault | it
          · rfl
          · simp only [ih]
            cases PostingIteratorImpl.drain pl rounds it <;> rfl

/-- Enough rounds for the list of every keyword of the request. -/
def enoughRounds (m : InstantIndex W) (keywords : List RetrievalRequestInfo) : Nat :=
  (keywords.map fun info =>
    (m.index[info.keyword]?.map fun pl => pl.1.nodes.length).getD 0).sum + 1

theorem readKeyword_eq (m : InstantIndex W) {rounds : Nat} (r : IndexReader W)
    (info : RetrievalRequestInfo)
    (enough : ∀ pl, m.index[info.keyword]? = some pl → pl.1.nodes.length < rounds) :
    readKeyword m rounds r info = .ok (r.addHits ((visibleAt m info.keyword).map fun p =>
      (p.localDocid, ⟨info.keyword, p.weight⟩))) := by
  unfold readKeyword InstantIndex.getPostingList visibleAt
  cases found : m.index[info.keyword]? with
  | none => rfl
  | some pl =>
      simp only [Option.map_some, readList_eq, PostingIteratorImpl.drain_eq pl.2 (enough pl found)]
      rfl

theorem foldlM_readKeyword (m : InstantIndex W) {rounds : Nat} (keywords : List RetrievalRequestInfo)
    (enough : ∀ info ∈ keywords, ∀ pl, m.index[info.keyword]? = some pl →
      pl.1.nodes.length < rounds) (r : IndexReader W) :
    keywords.foldlM (readKeyword m rounds) r = .ok (r.addHits (hits m ⟨keywords⟩)) := by
  induction keywords generalizing r with
  | nil => rfl
  | cons info keywords ih =>
      rw [List.foldlM_cons, readKeyword_eq m r info (enough info (by simp))]
      show keywords.foldlM (readKeyword m rounds) _ = _
      rw [ih fun other hother => enough other (by simp [hother])]
      simp [hits, addHits]

/-- The documents a request hits: the map of a fresh reader after `beginIntersect`. -/
def files (m : InstantIndex W) (request : RetrievalRequest) :
    ExtTreeMap LocalDocID (List (KeyOfDoc W)) :=
  (addHits { mKeywordInfo := request.keywords } (hits m request)).mDocHitsInfo

/-- With enough rounds `beginIntersect` faults never and files every hit. -/
theorem beginIntersect_eq (m : InstantIndex W) (request : RetrievalRequest) {rounds : Nat}
    (enough : enoughRounds m request.keywords ≤ rounds) :
    ∃ reader, beginIntersect m rounds {} request = .ok reader ∧
      reader.mIter = (files m request).toList := by
  have each : ∀ info ∈ request.keywords, ∀ pl, m.index[info.keyword]? = some pl →
      pl.1.nodes.length < rounds := by
    intro info hinfo pl found
    have part := List.single_le_sum (l := request.keywords.map fun info =>
      (m.index[info.keyword]?.map fun pl => pl.1.nodes.length).getD 0) (by simp) _
      (List.mem_map_of_mem hinfo)
    simp only [found, Option.map_some, Option.getD_some] at part
    unfold enoughRounds at enough
    omega
  simp only [beginIntersect, foldlM_readKeyword m request.keywords each]
  exact ⟨_, rfl, rfl⟩

/-! ## The files -/

/-- The hits of one document. -/
def hitsOf (hits : List (LocalDocID × KeyOfDoc W)) (d : LocalDocID) : List (KeyOfDoc W) :=
  hits.filterMap fun hit => if hit.1 = d then some hit.2 else none

theorem getElem?_addHit (r : IndexReader W) (keyInfo : KeyOfDoc W) (docId d : LocalDocID) :
    (r.addHitKeywordToDocInfo keyInfo docId).mDocHitsInfo[d]? =
      if docId = d then some (r.mDocHitsInfo[d]?.getD [] ++ [keyInfo])
      else r.mDocHitsInfo[d]? := by
  unfold addHitKeywordToDocInfo
  by_cases here : docId = d
  · subst here
    cases r.mDocHitsInfo[docId]? <;> simp
  · cases r.mDocHitsInfo[docId]? <;> simp [here, ExtTreeMap.getElem?_insert]

theorem mem_addHit (r : IndexReader W) (keyInfo : KeyOfDoc W) (docId d : LocalDocID) :
    d ∈ (r.addHitKeywordToDocInfo keyInfo docId).mDocHitsInfo ↔ docId = d ∨ d ∈ r.mDocHitsInfo := by
  rw [← ExtTreeMap.isSome_getElem?_iff_mem, getElem?_addHit, ← ExtTreeMap.isSome_getElem?_iff_mem]
  by_cases here : docId = d <;> simp [here]

/-- The entry of a document after filing: its old entry followed by its hits. -/
theorem getElem?_addHits (r : IndexReader W) (hits : List (LocalDocID × KeyOfDoc W))
    (d : LocalDocID) :
    (r.addHits hits).mDocHitsInfo[d]? =
      if hitsOf hits d = [] then r.mDocHitsInfo[d]?
      else some (r.mDocHitsInfo[d]?.getD [] ++ hitsOf hits d) := by
  induction hits generalizing r with
  | nil => rfl
  | cons hit hits ih =>
      have next : (r.addHits (hit :: hits)) = (r.addHitKeywordToDocInfo hit.2 hit.1).addHits hits :=
        rfl
      rw [next, ih, getElem?_addHit]
      by_cases here : hit.1 = d
      · have first : hitsOf (hit :: hits) d = hit.2 :: hitsOf hits d := by
          simp [hitsOf, here]
        by_cases last : hitsOf hits d = [] <;> simp [first, here, last]
      · have skip : hitsOf (hit :: hits) d = hitsOf hits d := by
          simp [hitsOf, here]
        simp [skip, here]

end IndexReader

end RecommEngine.Retrieval
