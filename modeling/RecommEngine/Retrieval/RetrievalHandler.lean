/-
# Retrieval.RetrievalHandler -- answering a request

`retrieve` scores every hit document by its number of hits, drops those below
the threshold, sorts and truncates.  `std::sort` is a parameter with its
documented contract (`SortOk`); `double` arithmetic on counts is exact.

`retrieve_topK` proves the answer a correct top-`max_doc_return` of the
qualifying documents, for every index that has an attachment for every visible
posting.
-/
import RecommEngine.Indexing.Integrity
import RecommEngine.Retrieval.IndexReader
import RecommEngine.Theory.TopK

namespace RecommEngine.Retrieval

set_option autoImplicit false

open Std (ExtTreeMap)
open Theory Idl Indexing

/-! ## Definitions -/

structure Flags where
  maxDocReturn : Int := 100
  hitKeywordsRatio : ℚ := 1 / 5

structure Entry where
  storyId : Int64
  score : ℚ
  deriving DecidableEq

/-- `entry::operator <`: the higher score comes first. -/
def Entry.lt (left right : Entry) : Bool := right.score < left.score

/-- What `std::sort` promises of a range of entries. -/
structure SortOk (sort : List Entry → List Entry) : Prop where
  perm : ∀ docs, (sort docs).Perm docs
  ordered : ∀ docs, (sort docs).Pairwise fun left right => ¬ right.lt left

structure ResultSet where
  mDocs : List Entry := []
  /-- An `int` in the source: one answer collects fewer than 2^31 documents. -/
  mDocNum : Int := 0

namespace ResultSet

def insertDoc (s : ResultSet) (storyId : Int64) (score : ℚ) : ResultSet :=
  { mDocs := s.mDocs ++ [⟨storyId, score⟩], mDocNum := s.mDocNum + 1 }

def dump (sort : List Entry → List Entry) (s : ResultSet) : Int × ResultSet :=
  (s.mDocNum, { s with mDocs := sort s.mDocs })

def doc (s : ResultSet) (index : Nat) : Except Fault Entry :=
  match s.mDocs[index]? with
  | none => .error .outOfBounds
  | some entry => .ok entry

end ResultSet

namespace RetrievalHandler

variable {W : Type}

/-- `Ranker::compute_rank`. -/
def computeRank (doc : DocInfo W) : ℚ := doc.keyInfo.length

/-- The loop of `retrieve` over the documents. -/
def collectDocs (flags : Flags) (m : InstantIndex W) (request : RetrievalRequest) :
    Nat → IndexReader W → ResultSet → Except Fault ResultSet
  | 0, _, _ => .error .outOfRounds
  | rounds + 1, reader, docSet =>
      match reader.nextDoc m with
      | none => .ok docSet
      | some (doc, reader) =>
          let score := computeRank doc
          if score < flags.hitKeywordsRatio * request.keywords.length then
            collectDocs flags m request rounds reader docSet
          else collectDocs flags m request rounds reader (docSet.insertDoc doc.storyId score)

def pushResult (docSet : ResultSet) (results : List RetrievalResult) (i : Nat) :
    Except Fault (List RetrievalResult) := do
  let entry ← docSet.doc i
  return results ++ [⟨entry.storyId, entry.score⟩]

/-- The code for an empty result is set and then overwritten, as in the source. -/
def makeReply (response : RetrievalResponse) (docNum : Int) (docSet : ResultSet) :
    Except Fault RetrievalResponse := do
  let response := if docNum = 0 then { response with respCode := .keywordNotFound } else response
  let response := { response with respCode := .ok, numResults := docNum }
  let results ← (List.range docNum.toNat).foldlM (pushResult docSet) response.results
  return { response with results := results }

/-- The end of `retrieve`: sort, truncate, reply. -/
def finish (sort : List Entry → List Entry) (flags : Flags) (docSet : ResultSet)
    (response : RetrievalResponse) : Except Fault RetrievalResponse :=
  let (docNum, docSet) := docSet.dump sort
  let docNum := if flags.maxDocReturn < docNum then flags.maxDocReturn else docNum
  makeReply response docNum docSet

/-- The reader is local to the call, so what `endIntersect` clears is dropped with it. -/
def retrieve (sort : List Entry → List Entry) (flags : Flags) (m : InstantIndex W) (rounds : Nat)
    (request : RetrievalRequest) (response : RetrievalResponse) :
    Except Fault RetrievalResponse := do
  let reader ← IndexReader.beginIntersect m rounds {} request
  let docSet ← collectDocs flags m request rounds reader {}
  finish sort flags docSet response

/-! ## The ranking it computes -/

/-- The number of visible postings of `d`, over the positions of the request. -/
def score (m : InstantIndex W) (request : RetrievalRequest) (d : LocalDocID) : Nat :=
  (request.keywords.map fun info =>
    (IndexReader.visibleAt m info.keyword).countP (·.localDocid = d)).sum

def Qualifies (flags : Flags) (m : InstantIndex W) (request : RetrievalRequest)
    (d : LocalDocID) : Prop :=
  0 < score m request d ∧ flags.hitKeywordsRatio * request.keywords.length ≤ score m request d

theorem length_hitsOf (m : InstantIndex W) (request : RetrievalRequest) (d : LocalDocID) :
    (IndexReader.hitsOf (IndexReader.hits m request) d).length = score m request d := by
  rw [IndexReader.hitsOf, IndexReader.hits, List.filterMap_flatMap, List.length_flatMap, score]
  congr 1
  apply List.map_congr_left
  intro info _
  rw [List.filterMap_map, List.length_filterMap_eq_countP]
  apply List.countP_congr
  intro p _
  by_cases here : p.localDocid = d <;> simp [here]

theorem mem_files_iff (m : InstantIndex W) (request : RetrievalRequest) (d : LocalDocID)
    (keyInfo : List (KeyOfDoc W)) :
    (d, keyInfo) ∈ (IndexReader.files m request).toList ↔
      0 < score m request d ∧ keyInfo = IndexReader.hitsOf (IndexReader.hits m request) d := by
  rw [ExtTreeMap.mem_toList_iff_getElem?_eq_some, IndexReader.files, IndexReader.getElem?_addHits,
    ← length_hitsOf, List.length_pos_iff]
  by_cases none : IndexReader.hitsOf (IndexReader.hits m request) d = []
  · simp [none]
  · simp [none, eq_comm]

def passes (flags : Flags) (request : RetrievalRequest)
    (file : LocalDocID × List (KeyOfDoc W)) : Bool :=
  flags.hitKeywordsRatio * request.keywords.length ≤ file.2.length

/-- The entry `retrieve` makes of a hit document. -/
def entryOf (m : InstantIndex W) (request : RetrievalRequest) (d : LocalDocID) : Entry :=
  ⟨IndexReader.getGlobalIDFromLocalID m d, score m request d⟩

/-- The qualifying documents, in id order. -/
def pool (flags : Flags) (m : InstantIndex W) (request : RetrievalRequest) : List LocalDocID :=
  ((IndexReader.files m request).toList.filter (passes flags request)).map Prod.fst

theorem mem_pool_iff {flags : Flags} {m : InstantIndex W} {request : RetrievalRequest}
    {d : LocalDocID} : d ∈ pool flags m request ↔ Qualifies flags m request d := by
  simp only [pool, List.mem_map, List.mem_filter, Prod.exists, exists_and_right, exists_eq_right,
    mem_files_iff, passes, decide_eq_true_eq, Qualifies]
  constructor
  · rintro ⟨keyInfo, ⟨hit, rfl⟩, enough⟩
    exact ⟨hit, by rwa [length_hitsOf] at enough⟩
  · rintro ⟨hit, enough⟩
    exact ⟨_, ⟨hit, rfl⟩, by rwa [length_hitsOf]⟩

theorem nodup_pool (flags : Flags) (m : InstantIndex W) (request : RetrievalRequest) :
    (pool flags m request).Nodup := by
  have keys : ((IndexReader.files m request).toList.map Prod.fst).Nodup := by
    rw [ExtTreeMap.map_fst_toList_eq_keys]
    exact ExtTreeMap.nodup_keys
  exact keys.sublist (List.filter_sublist.map Prod.fst)

theorem length_pool (flags : Flags) (m : InstantIndex W) (request : RetrievalRequest) :
    (pool flags m request).length = {d | Qualifies flags m request d}.ncard := by
  have same : {d | Qualifies flags m request d} = ((pool flags m request).toFinset : Set _) := by
    ext d
    simp [mem_pool_iff]
  rw [same, Set.ncard_coe_finset, List.toFinset_card_of_nodup (nodup_pool flags m request)]

/-! ## The loops -/

theorem collectDocs_eq (flags : Flags) (m : InstantIndex W) (request : RetrievalRequest)
    (rounds : Nat) (reader : IndexReader W) (docSet : ResultSet)
    (enough : reader.mIter.length < rounds) :
    let kept := (reader.mIter.filter (passes flags request)).map fun file =>
      (⟨IndexReader.getGlobalIDFromLocalID m file.1, file.2.length⟩ : Entry)
    collectDocs flags m request rounds reader docSet =
      .ok ⟨docSet.mDocs ++ kept, docSet.mDocNum + kept.length⟩ := by
  induction rounds generalizing reader docSet with
  | zero => simp at enough
  | succ rounds ih =>
      rw [collectDocs]
      rcases iter : reader.mIter with _ | ⟨⟨d, keyInfo⟩, rest⟩
      · simp [IndexReader.nextDoc, iter]
      · rw [iter, List.length_cons] at enough
        simp only [IndexReader.nextDoc, iter, computeRank]
        have tail := fun docSet => ih { reader with mIter := rest } docSet (by simpa using enough)
        by_cases low : (keyInfo.length : ℚ) < flags.hitKeywordsRatio * request.keywords.length
        · have skip : passes flags request (d, keyInfo) = false := by simpa [passes] using low
          simp only [low, if_true, tail, List.filter_cons, skip]
          simp
        · have keep : passes flags request (d, keyInfo) = true := by
            simpa [passes] using not_lt.mp low
          simp only [low, if_false, tail, List.filter_cons, keep, ResultSet.insertDoc]
          simp
          ring

theorem foldlM_pushResult (docSet : ResultSet) (n : Nat) (bound : n ≤ docSet.mDocs.length)
    (results : List RetrievalResult) :
    (List.range n).foldlM (pushResult docSet) results =
      .ok (results ++ (docSet.mDocs.take n).map fun e => ⟨e.storyId, e.score⟩) := by
  induction n with
  | zero => simp; rfl
  | succ n ih =>
      rw [List.range_succ, List.foldlM_append, ih (by omega)]
      have here : docSet.mDocs[n]? = some docSet.mDocs[n] := List.getElem?_eq_getElem bound
      simp only [List.foldlM_cons, List.foldlM_nil, bind, Except.bind, pushResult, ResultSet.doc,
        here, pure, Except.pure]
      rw [List.take_add_one, here, Option.toList_some, List.map_append, ← List.append_assoc]
      rfl

/-- Whatever the loop returns comes from the result set. -/
theorem mem_of_pushResults {docSet : ResultSet} {indices : List Nat}
    {results out : List RetrievalResult}
    (ok : indices.foldlM (pushResult docSet) results = .ok out) {r : RetrievalResult} (hr : r ∈ out) :
    r ∈ results ∨ ⟨r.storyId, r.score⟩ ∈ docSet.mDocs := by
  induction indices generalizing results with
  | nil =>
      cases ok
      exact Or.inl hr
  | cons i indices ih =>
      rw [List.foldlM_cons] at ok
      cases found : docSet.mDocs[i]? with
      | none => simp [pushResult, ResultSet.doc, found, bind, Except.bind] at ok
      | some entry =>
          simp only [pushResult, ResultSet.doc, found, bind, Except.bind, pure, Except.pure] at ok
          rcases ih ok with old | new
          · rcases List.mem_append.mp old with old | new
            · exact Or.inl old
            · rw [List.mem_singleton.mp new]
              exact Or.inr (List.mem_of_getElem? found)
          · exact Or.inr new

theorem mem_of_makeReply {docSet : ResultSet} {docNum : Int} {response : RetrievalResponse}
    (ok : makeReply {} docNum docSet = .ok response) {r : RetrievalResult}
    (hr : r ∈ response.results) : ⟨r.storyId, r.score⟩ ∈ docSet.mDocs := by
  simp only [makeReply, bind, Except.bind] at ok
  split at ok
  · cases ok
  · rename_i results loop
    cases ok
    apply (mem_of_pushResults loop hr).resolve_left
    by_cases zero : docNum = 0 <;> simp [zero]

theorem mem_of_finish {sort : List Entry → List Entry} (sortOk : SortOk sort) {flags : Flags}
    {docSet : ResultSet} {response : RetrievalResponse}
    (ok : finish sort flags docSet {} = .ok response) {r : RetrievalResult}
    (hr : r ∈ response.results) : ⟨r.storyId, r.score⟩ ∈ docSet.mDocs := by
  change makeReply {} _ ⟨sort docSet.mDocs, docSet.mDocNum⟩ = _ at ok
  exact (sortOk.perm docSet.mDocs).subset (mem_of_makeReply ok hr)

theorem makeReply_eq (response : RetrievalResponse) {docNum : Int} (docSet : ResultSet)
    (bound : docNum.toNat ≤ docSet.mDocs.length) :
    makeReply response docNum docSet = .ok
      { respCode := .ok
        numResults := docNum
        results := response.results ++
          (docSet.mDocs.take docNum.toNat).map fun e => ⟨e.storyId, e.score⟩ } := by
  have loop := foldlM_pushResult docSet docNum.toNat bound response.results
  by_cases zero : docNum = 0 <;> simp only [makeReply, zero, if_true, if_false] at loop ⊢ <;>
    simp only [loop] <;> rfl

/-- The whole call, up to the sorting: what is sorted is the pool's entries, and
what is returned is the front of the sorted entries. -/
theorem retrieve_eq {sort : List Entry → List Entry} (sortOk : SortOk sort) (flags : Flags)
    (m : InstantIndex W) (request : RetrievalRequest) :
    let entries := (pool flags m request).map (entryOf m request)
    let docNum := min (entries.length : Int) flags.maxDocReturn
    ∃ enough, ∀ rounds, enough ≤ rounds → retrieve sort flags m rounds request {} =
      .ok ⟨.ok, docNum, ((sort entries).take docNum.toNat).map fun e => ⟨e.storyId, e.score⟩⟩ := by
  intro entries docNum
  refine ⟨max (IndexReader.enoughRounds m request.keywords) ((IndexReader.files m request).toList.length + 1),
    ?_⟩
  intro rounds enough
  have entriesEq : ((IndexReader.files m request).toList.filter (passes flags request)).map (fun file =>
      (⟨IndexReader.getGlobalIDFromLocalID m file.1, file.2.length⟩ : Entry)) = entries := by
    simp only [entries, pool, List.map_map]
    apply List.map_congr_left
    intro file inside
    obtain ⟨-, same⟩ := (mem_files_iff m request file.1 file.2).mp (List.mem_of_mem_filter inside)
    simp [entryOf, same, length_hitsOf]
  obtain ⟨reader, filed, iter⟩ := IndexReader.beginIntersect_eq m request
    (le_trans (le_max_left _ _) enough)
  have collected := collectDocs_eq flags m request rounds reader {} (by
    rw [iter]
    exact le_trans (le_max_right _ _) enough)
  simp only [iter, entriesEq, List.nil_append, zero_add] at collected
  have cut : (if flags.maxDocReturn < (entries.length : Int) then flags.maxDocReturn
      else (entries.length : Int)) = docNum := by
    simp only [docNum]
    split <;> omega
  have bound : docNum.toNat ≤ (sort entries).length := by
    rw [(sortOk.perm entries).length_eq]
    omega
  have reply := makeReply_eq {} ⟨sort entries, (entries.length : Int)⟩ bound
  simp only [retrieve, bind, Except.bind, filed, collected]
  show makeReply {} (if flags.maxDocReturn < (entries.length : Int) then flags.maxDocReturn
    else (entries.length : Int)) ⟨sort entries, entries.length⟩ = _
  rw [cut, reply]
  rfl

theorem translate_of_score_pos {m : InstantIndex W}
    (attached : ∀ k, ∀ p ∈ IndexReader.visibleAt m k, p.localDocid ∈ m.att)
    {request : RetrievalRequest} {d : LocalDocID} (hit : 0 < score m request d) :
    m.translateToGlobalID d = some (IndexReader.getGlobalIDFromLocalID m d) := by
  obtain ⟨count, inside, pos⟩ := List.exists_mem_ne_zero_of_sum_ne_zero hit.ne'
  obtain ⟨info, -, rfl⟩ := List.mem_map.mp inside
  obtain ⟨p, visible, same⟩ := List.countP_pos_iff.mp (Nat.pos_of_ne_zero pos)
  obtain rfl : p.localDocid = d := by simpa using same
  obtain ⟨a, found⟩ := Option.isSome_iff_exists.mp
    (ExtTreeMap.isSome_getElem?_iff_mem.mpr (attached info.keyword p visible))
  simp [IndexReader.getGlobalIDFromLocalID, InstantIndex.translateToGlobalID, found]

/-- **The answer is a correct top-`max_doc_return` of the qualifying documents.** -/
theorem retrieve_topK {sort : List Entry → List Entry} (sortOk : SortOk sort) (flags : Flags)
    (limit : 0 ≤ flags.maxDocReturn) (m : InstantIndex W)
    (attached : ∀ k, ∀ p ∈ IndexReader.visibleAt m k, p.localDocid ∈ m.att)
    (request : RetrievalRequest) :
    ∃ response enough,
      (∀ rounds, enough ≤ rounds → retrieve sort flags m rounds request {} = .ok response) ∧
      response.numResults = response.results.length ∧
      (response.results.length : Int) =
        min ({d | Qualifies flags m request d}.ncard : Int) flags.maxDocReturn ∧
      (response.results.Pairwise fun a b => b.score ≤ a.score) ∧
      ∃ ids : List LocalDocID, ids.Nodup ∧
        List.Forall₂ (fun d r => Qualifies flags m request d ∧
          m.translateToGlobalID d = some r.storyId ∧ r.score = (score m request d : ℚ))
          ids response.results ∧
        ∀ d, Qualifies flags m request d → d ∉ ids →
          ∀ r ∈ response.results, (score m request d : ℚ) ≤ r.score := by
  let entries := (pool flags m request).map (entryOf m request)
  let docNum := min (entries.length : Int) flags.maxDocReturn
  obtain ⟨enough, answer⟩ := retrieve_eq sortOk flags m request
  obtain ⟨ids, best, chosen⟩ := TopK.of_sorted (fun d => (score m request d : ℚ))
    Entry.score (entryOf m request) (nodup_pool flags m request)
    (fun _ => rfl) (sortOk.perm entries)
    ((sortOk.ordered entries).imp fun h => by simpa [Entry.lt] using h) docNum.toNat
  have results : ((sort entries).take docNum.toNat).map (fun e => (⟨e.storyId, e.score⟩ :
      RetrievalResult)) = ids.map fun d =>
        ⟨IndexReader.getGlobalIDFromLocalID m d, score m request d⟩ := by
    rw [← chosen, List.map_map]
    rfl
  have count : (ids.length : Int) = docNum := by
    rw [best.length, ← List.length_map (f := entryOf m request)]
    simp only [docNum, entries]
    omega
  refine ⟨_, enough, answer, ?_, ?_, ?_, ids, best.nodup, ?_, ?_⟩ <;> simp only
  · rw [results]
    simpa [docNum, entries] using count.symm
  · rw [results, ← length_pool]
    simpa [docNum, entries] using count
  · rw [results, List.pairwise_map]
    exact best.ordered
  · rw [results, List.forall₂_map_right_iff, List.forall₂_same]
    intro d inside
    have qualifies := mem_pool_iff.mp (best.subset d inside)
    exact ⟨qualifies, translate_of_score_pos attached qualifies.1, rfl⟩
  · intro d qualifies left r hr
    rw [results] at hr
    obtain ⟨b, hb, rfl⟩ := List.mem_map.mp hr
    exact best.best d (mem_pool_iff.mpr qualifies) left b hb

end RetrievalHandler

/-! ## Between operations of the index -/

theorem attached_of_integrity {W : Type} {m : IndexMachine W} (integrity : m.Integrity) :
    ∀ k, ∀ p ∈ IndexReader.visibleAt m.toInstantIndex k, p.localDocid ∈ m.att := by
  intro k p visible
  unfold IndexReader.visibleAt at visible
  cases found : m.index[k]? with
  | none => simp [found] at visible
  | some pl =>
      rw [found] at visible
      have posted : m.Posted k p :=
        ⟨pl.abs, by simp [IndexMachine.seqAt, found], pl.abs.visible_sublist.subset visible⟩
      have translated := integrity k p posted
      rw [InstantIndex.translateToGlobalID, Option.isSome_map] at translated
      exact ExtTreeMap.isSome_getElem?_iff_mem.mp translated

namespace TwoStories

def platform : Platform Int32 := ⟨fun s => s.length.toInt64, id⟩

def request (id : String) (keywords : List (Int64 × Int32)) : StoryAddingRequest :=
  ⟨⟨id, 0, "", "", .ofList keywords⟩⟩

def index : IndexMachine Int32 :=
  (({} : IndexMachine Int32).addStoryInternal platform 10 (request "a" [(1, 3), (2, 4)])
    fun _ => 10).addStoryInternal platform 10 (request "bb" [(2, 5)]) fun _ => 12

def sort (docs : List Entry) : List Entry := docs.insertionSort fun a b => b.score ≤ a.score

theorem sortOk : SortOk sort := by
  refine ⟨fun docs => List.perm_insertionSort _ docs, ?_⟩
  intro docs
  have : Std.Total fun a b : Entry => b.score ≤ a.score := ⟨fun a b => le_total b.score a.score⟩
  have : IsTrans Entry fun a b => b.score ≤ a.score := ⟨fun _ _ _ ab bc => le_trans bc ab⟩
  have sorted := List.pairwise_insertionSort (fun a b : Entry => b.score ≤ a.score) docs
  exact sorted.imp fun h => by simpa [Entry.lt] using h

/-- Keyword 2 is asked for twice: the second story scores two, the first three. -/
theorem retrieve_repeated_keyword :
    ∃ response enough, (∀ rounds, enough ≤ rounds →
      RetrievalHandler.retrieve sort {} index.toInstantIndex rounds ⟨[⟨2, 0⟩, ⟨1, 0⟩, ⟨2, 0⟩]⟩ {} =
        .ok response) ∧ response.numResults = response.results.length ∧
      response.results.Pairwise fun a b => b.score ≤ a.score := by
  have integrity : index.Integrity := by
    refine IndexMachine.Integrity.addStoryInternal (IndexMachine.Integrity.addStoryInternal ?_)
    rintro k p ⟨s, absent, -⟩
    simp [IndexMachine.seqAt] at absent
  obtain ⟨response, enough, answer, count, -, ordered, -⟩ := RetrievalHandler.retrieve_topK sortOk
    {} (by decide) index.toInstantIndex (attached_of_integrity integrity)
    ⟨[⟨2, 0⟩, ⟨1, 0⟩, ⟨2, 0⟩]⟩
  exact ⟨response, enough, answer, count, ordered⟩

end TwoStories

end RecommEngine.Retrieval
