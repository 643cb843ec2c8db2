/-
# RecommEngineHandler -- answering a query

`query` loads the user and the context story, retrieves documents for their
keywords, filters them down to the candidates, lets a plugin rank these and cuts
the ranking to the requested length.  What it calls is a field of the handler:
the replies of redis and leveldb, the retrieval, the plugin.

* `candidates_eq`: the candidates are the values at the kept positions of
  `Theory.FirstOfKind`, so a result is dropped only for the user's history, for a
  profile that does not load, or for a candidate of the same signature before it;
* `cutToTopN_iff`: the answer is the plugin's list cut to `topN` exactly if the
  plugin returns the number of its results and `topN` is not negative, or there
  are no results;
* `classified_iff`: an empty retrieval is told apart from a retrieval whose
  documents are all filtered out exactly if it does not happen, since
  `makeReply` overwrites the code it sets for it.
-/
import RecommEngine.Retrieval.RetrievalHandler
import RecommEngine.Theory.FirstOfKind
import RecommEngine.UserProfileStorage

namespace RecommEngine

set_option autoImplicit false

open Std (ExtTreeMap)
open Theory Theory.ByteStream Idl Indexing Retrieval

/-! ## The forward store -/

/-- `LocalDict::Get`: 0 with the value, 1 when there is none, 2 on an error. -/
abbrev LocalDict := Int64 → Nat × Bytes

/-- A default-constructed `StoryProfile`. -/
def blankStory : StoryProfile := ⟨"", 0, "", "", ∅⟩

/-- `StoryProfileStorage::GetProfile`. -/
def getProfile (T : Thrift StoryProfile) (db : LocalDict) (key : Int64) (value : StoryProfile) :
    Bool × StoryProfile :=
  let (status, serializedValue) := db key
  if status = 0 then T.stringToThrift serializedValue value
  else if status = 1 then (false, { value with storyId := "" })
  else (false, value)

/-! ## The handler -/

/-- `IAlgoPlugin::Rank`: the number it returns and the results it fills in. -/
abbrev Rank :=
  UserProfile → StoryProfile → List StoryProfile → Int32 × List RecommendationResult

structure RecommEngineHandler where
  cityHash64 : String → Int64
  userThrift : Thrift UserProfile
  storyThrift : Thrift StoryProfile
  /-- What redis answers to the GET of a user, as `getUserProfile` takes it. -/
  userReply : String → Option (Option Bytes)
  db : LocalDict
  retrieve : RetrievalRequest → RetrievalResponse
  /-- `AlgoPluginManager::Select`. -/
  select : String → Rank

/-- `static_cast<std::size_t>`. -/
def sizeT (n : Int) : Nat := (n % 2 ^ 64).toNat

namespace RecommEngineHandler

variable (h : RecommEngineHandler)

/-- The answer of `GetUserProfile` is only logged. -/
def userProfile (uid : String) : UserProfile :=
  (getUserProfile h.userThrift (h.userReply uid) blankProfile).2

def load (key : Int64) : Option StoryProfile :=
  match getProfile h.storyThrift h.db key blankStory with
  | (true, storyProfile) => some storyProfile
  | (false, _) => none

def contextStory (url : String) : Option StoryProfile := h.load (h.cityHash64 url)

/-- The user's keywords, then the story's, each in key order. -/
def retrievalRequest (user : UserProfile) (story : StoryProfile) : RetrievalRequest :=
  ⟨(user.keywords.toList ++ story.keywords.toList).map fun entry => ⟨entry.1, entry.2⟩⟩

/-- One round of the candidate loop, over `existence` and `candidates`. -/
def addCandidate (history : List Int64) (s : Finset Int64 × List StoryProfile)
    (result : RetrievalResult) : Finset Int64 × List StoryProfile :=
  if result.storyId ∈ history then s
  else
    match h.load result.storyId with
    | none => s
    | some storyProfile =>
        if storyProfile.signature ∈ s.1 then s
        else (insert storyProfile.signature s.1, s.2 ++ [storyProfile])

def candidates (user : UserProfile) (results : List RetrievalResult) : List StoryProfile :=
  (results.foldl (h.addCandidate (user.history.getD [])) (∅, [])).2

/-- The end of `query`, with what the plugin has left in the response. -/
def truncate (topN : Int16) (ranked : Int32 × List RecommendationResult) :
    RecommendationResponse :=
  if ranked.2.length ≠ sizeT ranked.1.toInt then ⟨.error, ranked.2⟩
  else if ranked.2.length = 0 then ⟨.emptyRankResult, ranked.2⟩
  else ⟨.ok, ranked.2.take (min (sizeT topN.toInt) ranked.2.length)⟩

/-- The response starts out with the code `error` and no results. -/
def query (request : RecommendationRequest) : RecommendationResponse :=
  let user := h.userProfile request.uid
  match h.contextStory request.url with
  | none => ⟨.error, []⟩
  | some story =>
      let retrieval := h.retrieve (retrievalRequest user story)
      if retrieval.respCode ≠ .ok then ⟨.noDoc, []⟩
      else if (h.candidates user retrieval.results).length = 0 then ⟨.noCandidate, []⟩
      else
        truncate request.topN
          (h.select user.uid user story (h.candidates user retrieval.results))

/-! ## The candidates -/

/-- What a result stands for: its profile, unless the user has seen it. -/
def unseen (user : UserProfile) (result : RetrievalResult) : Option StoryProfile :=
  if result.storyId ∈ user.history.getD [] then none else h.load result.storyId

/-- The loop is the filter of `Theory.FirstOfKind` over signatures. -/
theorem addCandidate_eq (user : UserProfile) :
    h.addCandidate (user.history.getD []) =
      FirstOfKind.pick (h.unseen user) StoryProfile.signature := by
  funext s result
  unfold addCandidate FirstOfKind.pick unseen
  split
  · rfl
  · cases h.load result.storyId <;> rfl

/-- The result at position `i` is kept: it is not in the history, its profile
loads, and no position kept before it has the same signature. -/
abbrev KeptAt (user : UserProfile) (results : List RetrievalResult) (i : Nat) : Prop :=
  FirstOfKind.Kept (h.unseen user) StoryProfile.signature results i

variable {h}

theorem unseen_eq_some {user : UserProfile} {result : RetrievalResult} {p : StoryProfile} :
    h.unseen user result = some p ↔
      result.storyId ∉ user.history.getD [] ∧ h.load result.storyId = some p := by
  by_cases seen : result.storyId ∈ user.history.getD []
  · simp [unseen, seen]
  · simp [unseen, seen]

theorem unseen_eq_none {user : UserProfile} {result : RetrievalResult} :
    h.unseen user result = none ↔
      result.storyId ∈ user.history.getD [] ∨ h.load result.storyId = none := by
  by_cases seen : result.storyId ∈ user.history.getD []
  · simp [unseen, seen]
  · simp [unseen, seen]

theorem keptAt_iff {user : UserProfile} {results : List RetrievalResult} {i : Nat}
    {r : RetrievalResult} (here : results[i]? = some r) :
    h.KeptAt user results i ↔ r.storyId ∉ user.history.getD [] ∧
      ∃ p, h.load r.storyId = some p ∧ ∀ j < i, h.KeptAt user results j →
        ∀ q, FirstOfKind.valueAt (h.unseen user) results j = some q →
          q.signature ≠ p.signature := by
  have value : FirstOfKind.valueAt (h.unseen user) results i = h.unseen user r := by
    simp [FirstOfKind.valueAt, here]
  rw [KeptAt, FirstOfKind.kept_iff, value]
  constructor
  · rintro ⟨p, loads, first⟩
    obtain ⟨new, profile⟩ := unseen_eq_some.mp loads
    exact ⟨new, p, profile, first⟩
  · rintro ⟨new, p, profile, first⟩
    exact ⟨p, unseen_eq_some.mpr ⟨new, profile⟩, first⟩

/-- **The candidates of a query** are the profiles at the kept positions, in the
order of the retrieval results.  Their signatures are distinct, none is in the
history, and a result that was dropped was dropped for one of three reasons. -/
theorem candidates_eq (h : RecommEngineHandler) (user : UserProfile)
    (results : List RetrievalResult) :
    h.candidates user results =
        FirstOfKind.keptValues (h.unseen user) StoryProfile.signature results results.length ∧
      (∀ i r, results[i]? = some r →
        (h.KeptAt user results i ↔ r.storyId ∉ user.history.getD [] ∧
          ∃ p, h.load r.storyId = some p ∧ ∀ j < i, h.KeptAt user results j →
            ∀ q, FirstOfKind.valueAt (h.unseen user) results j = some q →
              q.signature ≠ p.signature)) ∧
      ((h.candidates user results).map StoryProfile.signature).Nodup ∧
      (∀ p ∈ h.candidates user results, ∃ r ∈ results,
        r.storyId ∉ user.history.getD [] ∧ h.load r.storyId = some p) ∧
      (∀ i r, results[i]? = some r → ¬ h.KeptAt user results i →
        r.storyId ∈ user.history.getD [] ∨ h.load r.storyId = none ∨
          ∃ j < i, h.KeptAt user results j ∧ ∃ p q, h.load r.storyId = some p ∧
            FirstOfKind.valueAt (h.unseen user) results j = some q ∧
            q.signature = p.signature) := by
  have loop : h.candidates user results =
      FirstOfKind.keptValues (h.unseen user) StoryProfile.signature results results.length := by
    rw [candidates, addCandidate_eq, FirstOfKind.foldl_pick]
  refine ⟨loop, fun i r here => keptAt_iff here, ?_, ?_, ?_⟩
  · rw [loop]
    exact FirstOfKind.nodup_keptValues _
  · intro p inside
    rw [loop] at inside
    obtain ⟨i, -, -, value⟩ := FirstOfKind.mem_keptValues.mp inside
    obtain ⟨r, here, loads⟩ := Option.bind_eq_some_iff.mp value
    exact ⟨r, List.mem_of_getElem? here, unseen_eq_some.mp loads⟩
  · intro i r here dropped
    rw [keptAt_iff here] at dropped
    by_contra other
    push Not at other
    obtain ⟨new, loads, unmatched⟩ := other
    obtain ⟨p, profile⟩ := Option.ne_none_iff_exists'.mp loads
    exact dropped ⟨new, p, profile, fun j less kept q value =>
      unmatched j less kept p q profile value⟩

/-! ## The cut -/

/-- What the plugin returns, if the query gets as far as ranking. -/
def ranked (h : RecommEngineHandler) (request : RecommendationRequest) :
    Option (Int32 × List RecommendationResult) :=
  let user := h.userProfile request.uid
  (h.contextStory request.url).bind fun story =>
    let retrieval := h.retrieve (retrievalRequest user story)
    let found := h.candidates user retrieval.results
    if retrieval.respCode = .ok ∧ found ≠ [] then some (h.select user.uid user story found)
    else none

/-- A query ends before the plugin, with a code of its own and no results, or
with the plugin's answer. -/
theorem query_eq (h : RecommEngineHandler) (request : RecommendationRequest) :
    (h.ranked request = none ∧ (h.query request).responseCode ≠ .ok ∧
      (h.query request).results = []) ∨
    ∃ answer, h.ranked request = some answer ∧ h.query request = truncate request.topN answer := by
  unfold ranked query
  cases h.contextStory request.url with
  | none => exact Or.inl ⟨rfl, by simp, rfl⟩
  | some story =>
      simp only [Option.bind_some, List.length_eq_zero_iff]
      generalize retrieved : h.retrieve (retrievalRequest (h.userProfile request.uid) story) =
        retrieval
      by_cases fine : retrieval.respCode = .ok
      · by_cases empty : h.candidates (h.userProfile request.uid) retrieval.results = []
        · exact Or.inl (by simp [fine, empty])
        · refine Or.inr ⟨h.select (h.userProfile request.uid).uid (h.userProfile request.uid) story
            (h.candidates (h.userProfile request.uid) retrieval.results), ?_, ?_⟩
          · simp [fine, empty]
          · simp [fine, empty]
      · exact Or.inl (by simp [fine])

/-- An answer `ok` holds the list cut to its first `topN` results, and every other
answer is empty. -/
structure IsCut (topN : Int16) (results : List RecommendationResult)
    (response : RecommendationResponse) : Prop where
  cut : response.responseCode = .ok →
    response.results = results.take (min (max topN.toInt 0).toNat results.length)
  bounded : response.responseCode = .ok → (response.results.length : Int) ≤ max topN.toInt 0
  empty : response.responseCode ≠ .ok → response.results = []

theorem sizeT_of_nonneg {n : Int16} (nonneg : 0 ≤ n.toInt) :
    sizeT n.toInt = (max n.toInt 0).toNat := by
  have := n.toInt_lt
  rw [sizeT, Int.emod_eq_of_lt nonneg (by omega), max_eq_left nonneg]

/-- A negative count becomes a very large one. -/
theorem sizeT_pos_of_neg {n : Int16} (negative : n.toInt < 0) : 0 < sizeT n.toInt := by
  have := n.le_toInt
  rw [sizeT]
  omega

/-- When the end of `query` cuts right: there is nothing to cut, or the plugin
returns the number of its results and `topN` is not negative. -/
theorem isCut_truncate_iff (topN : Int16) (answer : Int32 × List RecommendationResult) :
    IsCut topN answer.2 (truncate topN answer) ↔
      answer.2 = [] ∨ (answer.2.length = sizeT answer.1.toInt ∧ 0 ≤ topN.toInt) := by
  obtain ⟨numResults, results⟩ := answer
  cases results with
  | nil =>
      refine iff_of_true ?_ (Or.inl rfl)
      unfold truncate
      split
      · exact ⟨by simp, by simp, by simp⟩
      · exact ⟨by simp, by simp, by simp⟩
  | cons first rest =>
      simp only [reduceCtorEq, false_or]
      unfold truncate
      by_cases count : (first :: rest).length = sizeT numResults.toInt
      · simp only [count, ne_eq, not_true_eq_false, if_false, true_and]
        rw [← count, if_neg (by simp)]
        constructor
        · intro right
          by_contra negative
          have none := right.bounded rfl
          have := sizeT_pos_of_neg (not_le.mp negative)
          simp only [List.length_take, List.length_cons] at none
          omega
        · intro nonneg
          rw [sizeT_of_nonneg nonneg]
          refine ⟨fun _ => rfl, fun _ => ?_, fun other => absurd rfl other⟩
          simp only [List.length_take]
          omega
      · refine iff_of_false ?_ (fun both => count both.1)
        rw [if_pos count]
        intro right
        have none := right.empty (by simp)
        cases none

/-- The list the plugin leaves, none if the query does not get there. -/
def pluginResults (h : RecommEngineHandler) (request : RecommendationRequest) :
    List RecommendationResult :=
  ((h.ranked request).map Prod.snd).getD []

/-- An answer `ok` comes from the plugin, and the answer is its list, cut. -/
def CutToTopN (h : RecommEngineHandler) (request : RecommendationRequest) : Prop :=
  ((h.query request).responseCode = .ok → (h.ranked request).isSome) ∧
    IsCut request.topN (h.pluginResults request) (h.query request)

/-- **The cut is right** exactly if the plugin, where the query reaches it, leaves
no results, or returns their number and the request has a non-negative `topN`. -/
theorem cutToTopN_iff (h : RecommEngineHandler) (request : RecommendationRequest) :
    h.CutToTopN request ↔ ∀ answer, h.ranked request = some answer →
      answer.2 = [] ∨ (answer.2.length = sizeT answer.1.toInt ∧ 0 ≤ request.topN.toInt) := by
  unfold CutToTopN pluginResults
  rcases h.query_eq request with ⟨unranked, failed, empty⟩ | ⟨answer, found, answered⟩
  · refine iff_of_true ⟨fun ok => absurd ok failed, ?_⟩ (by simp [unranked])
    exact ⟨fun ok => absurd ok failed, fun ok => absurd ok failed, fun _ => empty⟩
  · rw [answered, found, Option.map_some, Option.getD_some, isCut_truncate_iff]
    simp

/-! ## The two empty outcomes -/

/-- The handler retrieves from the index `m`. -/
def RetrievesFrom {W : Type} (h : RecommEngineHandler) (sort : List Entry → List Entry)
    (flags : Flags) (m : InstantIndex W) : Prop :=
  ∀ request, ∃ enough, ∀ rounds, enough ≤ rounds →
    RetrievalHandler.retrieve sort flags m rounds request {} = .ok (h.retrieve request)

/-- There are no candidates exactly if every result has been seen or does not load. -/
theorem candidates_eq_nil_iff {user : UserProfile} {results : List RetrievalResult} :
    h.candidates user results = [] ↔
      ∀ r ∈ results, r.storyId ∈ user.history.getD [] ∨ h.load r.storyId = none := by
  rw [candidates, addCandidate_eq, FirstOfKind.foldl_pick, FirstOfKind.keptValues_eq_nil_iff]
  exact forall₂_congr fun r _ => unseen_eq_none

/-- The codes of the retrieval and of the query tell what was found.  `found` says
that some document passes the hit filter. -/
structure Classified (h : RecommEngineHandler) (request : RecommendationRequest)
    (story : StoryProfile) (found : Prop) : Prop where
  notFound : (h.retrieve (retrievalRequest (h.userProfile request.uid) story)).respCode =
    .keywordNotFound ↔ ¬ found
  ok : (h.retrieve (retrievalRequest (h.userProfile request.uid) story)).respCode = .ok ↔ found
  noDoc : (h.query request).responseCode = .noDoc ↔ ¬ found
  noCandidate : (h.query request).responseCode = .noCandidate ↔ found ∧
    ∀ r ∈ (h.retrieve (retrievalRequest (h.userProfile request.uid) story)).results,
      r.storyId ∈ (h.userProfile request.uid).history.getD [] ∨ h.load r.storyId = none

theorem truncate_code (topN : Int16) (answer : Int32 × List RecommendationResult) :
    (truncate topN answer).responseCode ≠ .noDoc ∧
      (truncate topN answer).responseCode ≠ .noCandidate := by
  unfold truncate
  split
  · simp
  · split <;> simp

/-- With a retrieval that answers `ok` a query answers `noCandidate` exactly if
there is no candidate, and never `noDoc`. -/
theorem query_code {request : RecommendationRequest} {story : StoryProfile}
    (context : h.contextStory request.url = some story)
    (fine : (h.retrieve (retrievalRequest (h.userProfile request.uid) story)).respCode = .ok) :
    (h.query request).responseCode ≠ .noDoc ∧
      ((h.query request).responseCode = .noCandidate ↔ h.candidates (h.userProfile request.uid)
        (h.retrieve (retrievalRequest (h.userProfile request.uid) story)).results = []) := by
  unfold query
  simp only [context, fine, ne_eq, not_true_eq_false, if_false, List.length_eq_zero_iff]
  split
  · rename_i empty
    simp [empty]
  · rename_i some_
    simp [some_, truncate_code]

/-- **The two empty outcomes are told apart** exactly if some document passes the
hit filter: a retrieval that finds none answers `ok` all the same. -/
theorem classified_iff {W : Type} (h : RecommEngineHandler) {sort : List Entry → List Entry}
    (sortOk : SortOk sort) (flags : Flags) (m : InstantIndex W)
    (retrieves : h.RetrievesFrom sort flags m) (request : RecommendationRequest)
    (story : StoryProfile) (context : h.contextStory request.url = some story) :
    h.Classified request story (∃ d, RetrievalHandler.Qualifies flags m
        (retrievalRequest (h.userProfile request.uid) story) d) ↔
      ∃ d, RetrievalHandler.Qualifies flags m
        (retrievalRequest (h.userProfile request.uid) story) d := by
  have fine : (h.retrieve (retrievalRequest (h.userProfile request.uid) story)).respCode =
      .ok := by
    obtain ⟨enough, answer⟩ := retrieves (retrievalRequest (h.userProfile request.uid) story)
    obtain ⟨enough', answer'⟩ := RetrievalHandler.retrieve_eq sortOk flags m
      (retrievalRequest (h.userProfile request.uid) story)
    have same := (answer (max enough enough') (le_max_left _ _)).symm.trans
      (answer' (max enough enough') (le_max_right _ _))
    rw [Except.ok.inj same]
  obtain ⟨noDoc, noCandidate⟩ := query_code context fine
  constructor
  · intro classified
    exact classified.ok.mp fine
  · intro found
    refine ⟨?_, ?_, ?_, ?_⟩
    · simp [fine, found]
    · simp [fine, found]
    · exact iff_of_false noDoc (not_not.mpr found)
    · rw [noCandidate, candidates_eq_nil_iff]
      exact (and_iff_right found).symm

end RecommEngineHandler

/-! ## Answers that do not match what happened -/

namespace SportsPage

open RecommEngineHandler

/-- The context story. -/
def story : StoryProfile := ⟨"s", 7, "u", "", (∅ : Keywords).insert 2 1⟩

def result (storyId : String) : RecommendationResult where
  storyId := storyId
  url := ""
  title := ""

/-- What `retrieve` answers with the default flags, in closed form. -/
def response (m : InstantIndex Int32) (request : RetrievalRequest) : RetrievalResponse :=
  let entries := (RetrievalHandler.pool {} m request).map (RetrievalHandler.entryOf m request)
  let docNum := min (entries.length : Int) 100
  ⟨.ok, docNum, ((TwoStories.sort entries).take docNum.toNat).map fun e => ⟨e.storyId, e.score⟩⟩

/-- A story in thrift's binary protocol. -/
def binaryProtocol (p : StoryProfile) : Bytes :=
  LostClick.stringField 1 p.storyId ++
    [0x0a, 0, 2] ++ LostClick.int 8 p.signature.toUInt64.toNat ++
    LostClick.stringField 3 p.url ++ LostClick.stringField 4 p.title ++
    LostClick.keywordsField 5 p.keywords ++ [0]

/-- Thrift on one story. -/
def thriftOn (story : StoryProfile) : Thrift StoryProfile where
  thriftToString := binaryProtocol
  stringToThrift bytes target :=
    if bytes = binaryProtocol story then (true, story) else (false, target)

/-- A handler over an index, with one story in the forward store, no users and a
plugin that returns what it is told to. -/
def handler (m : InstantIndex Int32) (answer : Int32 × List RecommendationResult) :
    RecommEngineHandler where
  cityHash64 := TwoStories.platform.cityHash64
  userThrift := LostClick.thrift
  storyThrift := thriftOn story
  userReply := fun _ => some none
  db := fun key => if key = 1 then (0, binaryProtocol story) else (1, [])
  retrieve := response m
  select := fun _ _ _ _ => answer

theorem handler_retrievesFrom (m : InstantIndex Int32)
    (answer : Int32 × List RecommendationResult) :
    (handler m answer).RetrievesFrom TwoStories.sort {} m :=
  fun request => RetrievalHandler.retrieve_eq TwoStories.sortOk {} m request

/-- The plugin counts right. -/
def counting : RecommEngineHandler :=
  handler TwoStories.index.toInstantIndex (2, [result "a", result "b"])

/-- The plugin reports a failure and has filled in a result. -/
def failing : RecommEngineHandler := handler TwoStories.index.toInstantIndex (-1, [result "a"])

/-- With a negative `topN` all results are returned, and after a failure of the
plugin an error is answered with results. -/
theorem uncut_answers :
    (counting.query ⟨"x", "u", -1⟩ = ⟨.ok, [result "a", result "b"]⟩ ∧
      ¬ counting.CutToTopN ⟨"x", "u", -1⟩) ∧
    failing.query ⟨"x", "u", 10⟩ = ⟨.error, [result "a"]⟩ ∧
      ¬ failing.CutToTopN ⟨"x", "u", 10⟩ := by
  have all : counting.query ⟨"x", "u", -1⟩ = ⟨.ok, [result "a", result "b"]⟩ := by
    decide +kernel
  have error : failing.query ⟨"x", "u", 10⟩ = ⟨.error, [result "a"]⟩ := by decide +kernel
  refine ⟨⟨all, ?_⟩, error, ?_⟩
  · rintro ⟨-, cut⟩
    have bounded := cut.bounded (by rw [all])
    rw [all] at bounded
    exact absurd bounded (by decide)
  · rintro ⟨-, cut⟩
    have empty := cut.empty (by rw [error]; decide)
    rw [error] at empty
    cases empty

/-- No document passes the filter of an empty index, and the query answers
`noCandidate`. -/
theorem empty_index_no_candidate :
    let h := handler {} (0, [])
    h.RetrievesFrom TwoStories.sort {} ({} : InstantIndex Int32) ∧
      h.contextStory "u" = some story ∧
      (∀ d, ¬ RetrievalHandler.Qualifies {} ({} : InstantIndex Int32)
        (retrievalRequest (h.userProfile "x") story) d) ∧
      (h.retrieve (retrievalRequest (h.userProfile "x") story)).respCode = .ok ∧
      (h.query ⟨"x", "u", 10⟩).responseCode = .noCandidate ∧
      ¬ h.Classified ⟨"x", "u", 10⟩ story (∃ d, RetrievalHandler.Qualifies {}
        ({} : InstantIndex Int32) (retrievalRequest (h.userProfile "x") story) d) := by
  intro h
  have none : ∀ d, ¬ RetrievalHandler.Qualifies {} ({} : InstantIndex Int32)
      (retrievalRequest (h.userProfile "x") story) d := by
    intro d qualifies
    have pos := qualifies.1
    simp [RetrievalHandler.score, IndexReader.visibleAt] at pos
  refine ⟨handler_retrievesFrom {} (0, []), rfl, none, rfl, by decide +kernel, ?_⟩
  intro classified
  obtain ⟨d, qualifies⟩ := classified.ok.mp rfl
  exact none d qualifies

/-- Over an index with the story's keyword the codes are right. -/
theorem filled_index_classified :
    counting.contextStory "u" = some story ∧
      counting.Classified ⟨"x", "u", 10⟩ story (∃ d, RetrievalHandler.Qualifies {}
        TwoStories.index.toInstantIndex (retrievalRequest (counting.userProfile "x") story) d) := by
  refine ⟨rfl, (classified_iff counting TwoStories.sortOk {} TwoStories.index.toInstantIndex
    (handler_retrievesFrom _ _) ⟨"x", "u", 10⟩ story rfl).mpr ⟨1, ?_⟩⟩
  have score : RetrievalHandler.score TwoStories.index.toInstantIndex
      (retrievalRequest (counting.userProfile "x") story) 1 = 1 := by decide +kernel
  rw [RetrievalHandler.Qualifies, score]
  have one : (retrievalRequest (counting.userProfile "x") story).keywords.length = 1 := by
    decide +kernel
  rw [one]
  norm_num

end SportsPage

end RecommEngine
