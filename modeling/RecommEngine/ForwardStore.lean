/-
# ForwardStore -- the keys stories are written and read with

Three places hash a string to the 64-bit key of a story: `add_story` writes the
profile under the hash of the story id, the index builder labels the story's
local id with the same hash, and `query` reads twice, with a retrieved label and
with the hash of the *url* of the request.

In every run of `add_story` calls and builder rounds the labels lead back to the
profile (`load_storyId`), and the url does exactly for stories whose url is their
id (`read_as_written_iff`).
-/
import RecommEngine.RecommEngineHandler
import RecommEngine.StoryManagement

namespace RecommEngine

set_option autoImplicit false

open Std (ExtTreeMap)
open Theory.Run Idl Indexing Retrieval

namespace StoryManagement

variable {W : Type}

/-- The forward store as leveldb reads it: the newest put of a key counts. -/
def forwardDb (T : Thrift StoryProfile) (s : StoryManagement W) : LocalDict :=
  fun key =>
    match s.forward.find? fun put => put.2.1 = key with
    | some put => (0, T.thriftToString put.2.2)
    | none => (1, [])

/-- A query handler in the same process. -/
def serving (P : Platform W) (s : StoryManagement W) (h : RecommEngineHandler) :
    RecommEngineHandler :=
  { h with cityHash64 := P.cityHash64, db := s.forwardDb h.storyThrift }

/-- The ids and urls of the stories of a run. -/
def strings (s : StoryManagement W) : List String :=
  s.calls.flatMap fun c => [c.req.story.storyId, c.req.story.url]

def NoCollision (P : Platform W) (s : StoryManagement W) : Prop :=
  ∀ a ∈ s.strings, ∀ b ∈ s.strings, P.cityHash64 a = P.cityHash64 b → a = b

/-! ## Where keys come from -/

/-- A stored profile is the story of a call, under the hash of its id, and the
label of a local id is the hash of the id of the story it was last given to. -/
structure Keyed (P : Platform W) (s : StoryManagement W) : Prop where
  stored : ∀ put ∈ s.forward, ∃ c ∈ s.calls, put.2 = (P.cityHash64 c.req.story.storyId, c.req.story)
  labelled : ∀ localId req, s.index.built.find? (fun entry => entry.1 = localId) =
    some (localId, req) → s.index.att[localId]? = some ⟨P.cityHash64 req.story.storyId⟩

variable {P : Platform W} {s : StoryManagement W}

/-- Moving a call on loses no story. -/
theorem mem_set_req {calls : List AddStoryCall} {i : Nat} {req : StoryAddingRequest} {pc : CallPc}
    (pc' : CallPc) (here : calls[i]? = some ⟨req, pc⟩) {c : AddStoryCall} (inside : c ∈ calls) :
    ∃ c' ∈ calls.set i ⟨req, pc'⟩, c'.req = c.req := by
  obtain ⟨j, within, rfl⟩ := List.mem_iff_getElem.mp inside
  by_cases same : i = j
  · subst same
    have own : calls[i] = ⟨req, pc⟩ :=
      Option.some.inj ((List.getElem?_eq_getElem within).symm.trans here)
    exact ⟨⟨req, pc'⟩, List.mem_set within _, by rw [own]⟩
  · exact ⟨calls[j], List.mem_iff_getElem.mpr ⟨j, by simpa using within, by simp [same]⟩, rfl⟩

/-- A step that changes neither the stores nor the index, and loses no story. -/
theorem Keyed.of_calls {s' : StoryManagement W} (keyed : Keyed P s)
    (forward : s'.forward = s.forward) (index : s'.index = s.index)
    (calls : ∀ c ∈ s.calls, ∃ c' ∈ s'.calls, c'.req = c.req) : Keyed P s' := by
  refine ⟨?_, ?_⟩
  · intro put inside
    rw [forward] at inside
    obtain ⟨c, called, same⟩ := keyed.stored put inside
    obtain ⟨c', called', req⟩ := calls c called
    exact ⟨c', called', by rw [same, req]⟩
  · rw [index]
    exact keyed.labelled

theorem Keyed.backupStory (keyed : Keyed P s) (i : Nat) (now : Int64) :
    Keyed P (s.backupStory i now) := by
  unfold StoryManagement.backupStory
  split
  · rename_i req ret here
    exact keyed.of_calls rfl rfl fun c inside => mem_set_req _ here inside
  · exact keyed

theorem Keyed.addProfile (keyed : Keyed P s) (i : Nat) (accepted : Bool) :
    Keyed P (s.addProfile P i accepted) := by
  unfold StoryManagement.addProfile
  split
  · rename_i req here
    have moved : Keyed P { s with calls := s.calls.set i ⟨req, .answered .ok⟩ } :=
      keyed.of_calls rfl rfl fun c inside => mem_set_req _ here inside
    cases accepted with
    | false => exact moved
    | true =>
        refine ⟨?_, moved.labelled⟩
        intro put inside
        rcases List.mem_cons.mp inside with rfl | old
        · exact ⟨_, List.mem_set (List.getElem?_eq_some_iff.mp here).1 _, rfl⟩
        · exact moved.stored put old
  · exact keyed

/-- A build gives its local id to its story, also if the id had another before. -/
theorem Keyed.buildNext [Inhabited W] {docLifeTime : Int} (keyed : Keyed P s)
    (getClock : Nat → Int64) (clock : Nat → Int) : Keyed P (s.buildNext P docLifeTime getClock clock) := by
  unfold StoryManagement.buildNext
  split
  · exact keyed
  · rename_i i req docPool _
    obtain ⟨att, -, built, -⟩ :=
      IndexMachine.addStoryInternal_frame P docLifeTime s.index req clock
    refine ⟨keyed.stored, ?_⟩
    intro localId other newest
    simp only [built, List.find?_cons] at newest
    simp only [att, ExtTreeMap.getElem?_insert]
    by_cases here : s.index.localDocidCounter = localId
    · simp only [here, decide_true, Option.some.injEq, Prod.mk.injEq, true_and] at newest
      simp [here, newest]
    · simp only [here, decide_false] at newest
      simp [here, keyed.labelled localId other newest]

theorem Keyed.writeNext (keyed : Keyed P s) (getClock : Nat → Int64) :
    Keyed P (s.writeNext getClock) := by
  unfold StoryManagement.writeNext
  split
  · exact keyed
  · exact keyed.of_calls rfl rfl fun c inside => ⟨c, inside, rfl⟩

theorem Keyed.step [Inhabited W] {docLifeTime : Int} (keyed : Keyed P s) (e : StoryEvent) :
    Keyed P (s.step P docLifeTime e) := by
  cases e with
  | call req now =>
      exact keyed.of_calls rfl rfl fun c inside => ⟨c, List.mem_append_left _ inside, rfl⟩
  | backup i now => exact keyed.backupStory i now
  | store i accepted => exact keyed.addProfile i accepted
  | build getClock clock => exact keyed.buildNext getClock clock
  | write getClock => exact keyed.writeNext getClock

theorem keyed_run [Inhabited W] (P : Platform W) (docLifeTime : Int)
    (docPoolSize replayLogBuffer : Nat) (es : List StoryEvent) :
    Keyed P (run (step P docLifeTime) (init docPoolSize replayLogBuffer) es) := by
  have start : Keyed P (init docPoolSize replayLogBuffer : StoryManagement W) :=
    ⟨by simp [init], by simp [init]⟩
  exact run_history (I := fun _ s => Keyed P s) start (fun _ e _ keyed => keyed.step e) es
    (List.prefix_refl _)

/-! ## Reading -/

/-- A profile loads exactly if it is the newest put of its key. -/
theorem load_serving (h : RecommEngineHandler) {key : Int64} {story : StoryProfile}
    (inverts : ∀ put ∈ s.forward, h.storyThrift.ReadsBack blankStory put.2.2) :
    (s.serving P h).load key = some story ↔
      ∃ put, s.forward.find? (fun put => put.2.1 = key) = some put ∧ put.2.2 = story := by
  simp only [RecommEngineHandler.load, getProfile, serving, forwardDb]
  cases found : s.forward.find? fun put => put.2.1 = key with
  | none => simp
  | some put =>
      have read := inverts put (List.mem_of_find?_eq_some found)
      rw [Thrift.ReadsBack] at read
      simp [read]

/-- The strings of a stored story are strings of the run. -/
theorem Keyed.mem_strings (keyed : Keyed P s) {put : Nat × Int64 × StoryProfile}
    (inside : put ∈ s.forward) : put.2.1 = P.cityHash64 put.2.2.storyId ∧
      put.2.2.storyId ∈ s.strings ∧ put.2.2.url ∈ s.strings := by
  obtain ⟨c, called, same⟩ := keyed.stored put inside
  rw [same]
  refine ⟨rfl, ?_, ?_⟩
  · exact List.mem_flatMap.mpr ⟨c, called, by simp⟩
  · exact List.mem_flatMap.mpr ⟨c, called, by simp⟩

/-- The hash of its id leads to a story that was not overwritten. -/
theorem Keyed.load_storyId (keyed : Keyed P s) (noCollision : NoCollision P s)
    (h : RecommEngineHandler)
    (inverts : ∀ put ∈ s.forward, h.storyThrift.ReadsBack blankStory put.2.2)
    {newer older : List (Nat × Int64 × StoryProfile)} {put : Nat × Int64 × StoryProfile}
    (split : s.forward = newer ++ put :: older)
    (latest : ∀ other ∈ newer, other.2.2.storyId ≠ put.2.2.storyId) :
    (s.serving P h).load (P.cityHash64 put.2.2.storyId) = some put.2.2 := by
  have inside : put ∈ s.forward := by simp [split]
  obtain ⟨key, own, -⟩ := keyed.mem_strings inside
  refine (load_serving h inverts).mpr ⟨put, ?_, rfl⟩
  rw [split, List.find?_append, List.find?_eq_none.mpr, Option.none_or, List.find?_cons_of_pos]
  · simpa using key
  · intro other there
    obtain ⟨key', own', -⟩ := keyed.mem_strings
      (show other ∈ s.forward by rw [split]; exact List.mem_append_left _ there)
    have apart := latest other there
    simp only [decide_eq_true_eq, key']
    exact fun same => apart (noCollision _ own' _ own same)

/-- The ids under which a story is retrieved load its profile: those of the local
ids that were last given to it. -/
def CandidateLoads (P : Platform W) (s : StoryManagement W) (h : RecommEngineHandler)
    (story : StoryProfile) : Prop :=
  ∀ localId req, s.index.built.find? (fun entry => entry.1 = localId) = some (localId, req) →
    req.story.storyId = story.storyId →
    (s.serving P h).load (IndexReader.getGlobalIDFromLocalID s.index.toInstantIndex localId) =
      some story

/-- **The forward store is read with the key it is written with** exactly for
stories whose url is their id; the ids a story is retrieved under always lead to
it.  `put` is a put that no later put of the run has overwritten. -/
theorem read_as_written_iff [Inhabited W] (P : Platform W) (docLifeTime : Int)
    (docPoolSize replayLogBuffer : Nat) (es : List StoryEvent) (h : RecommEngineHandler)
    (noCollision : NoCollision P (run (step P docLifeTime) (init docPoolSize replayLogBuffer) es))
    (inverts : ∀ put ∈ (run (step P docLifeTime) (init docPoolSize replayLogBuffer) es).forward,
      h.storyThrift.ReadsBack blankStory put.2.2)
    (newer older : List (Nat × Int64 × StoryProfile)) (put : Nat × Int64 × StoryProfile)
    (split : (run (step P docLifeTime) (init docPoolSize replayLogBuffer) es).forward =
      newer ++ put :: older)
    (latest : ∀ other ∈ newer, other.2.2.storyId ≠ put.2.2.storyId) :
    let s := run (step P docLifeTime) (init docPoolSize replayLogBuffer) es
    ((s.serving P h).contextStory put.2.2.url = some put.2.2 ∧ s.CandidateLoads P h put.2.2 ↔
      put.2.2.url = put.2.2.storyId) ∧ s.CandidateLoads P h put.2.2 := by
  intro s
  have keyed : Keyed P s := keyed_run P docLifeTime docPoolSize replayLogBuffer es
  have byId := keyed.load_storyId noCollision h inverts split latest
  have candidate : s.CandidateLoads P h put.2.2 := by
    intro localId req newest id
    have label := keyed.labelled localId req newest
    simp only [IndexReader.getGlobalIDFromLocalID, InstantIndex.translateToGlobalID, label,
      Option.map_some, Option.getD_some, id]
    exact byId
  refine ⟨⟨?_, ?_⟩, candidate⟩
  · rintro ⟨context, -⟩
    have inside : put ∈ s.forward := by
      show put ∈ (run (step P docLifeTime) (init docPoolSize replayLogBuffer) es).forward
      simp [split]
    obtain ⟨-, own, url⟩ := keyed.mem_strings inside
    -- What the url leads to is stored under the hash of its own id.
    obtain ⟨other, found, same⟩ := (load_serving h inverts).mp context
    obtain ⟨key, -, -⟩ := keyed.mem_strings (List.mem_of_find?_eq_some found)
    have read := List.find?_some found
    replace read : other.2.1 = P.cityHash64 put.2.2.url := of_decide_eq_true read
    rw [key, same] at read
    exact (noCollision _ own _ url read).symm
  · intro sameString
    refine ⟨?_, candidate⟩
    rw [RecommEngineHandler.contextStory, sameString]
    exact byId

end StoryManagement

/-! ## A story with a url of its own -/

namespace NewsItem

open StoryManagement

def platform : Platform Int32 := TwoStories.platform

def story (id url : String) : StoryProfile := ⟨id, 7, url, "", (∅ : Keywords).insert 2 1⟩

def added (id url : String) : StoryManagement Int32 :=
  run (step platform 10) (init 10 10)
    [.call ⟨story id url⟩ 0, .backup 0 0, .store 0 true, .build (fun _ => 0) fun _ => 0]

def handler (profile : StoryProfile) : RecommEngineHandler :=
  { SportsPage.handler {} (0, []) with storyThrift := SportsPage.thriftOn profile }

theorem handler_inverts (profile : StoryProfile) :
    (handler profile).storyThrift.ReadsBack blankStory profile :=
  if_pos rfl

/-- The story was added and built, no two strings collide, and its url finds nothing. -/
theorem url_not_found :
    (added "s" "uu").calls.map AddStoryCall.pc = [.answered .ok] ∧
      NoCollision platform (added "s" "uu") ∧
      (added "s" "uu").forward = [(0, 1, story "s" "uu")] ∧
      ((added "s" "uu").serving platform (handler (story "s" "uu"))).contextStory "uu" = none := by
  refine ⟨by decide +kernel, ?_, rfl, rfl⟩
  have strings : (added "s" "uu").strings = ["s", "uu"] := rfl
  rw [NoCollision, strings]
  decide

theorem url_is_id_found :
    (added "s" "s").forward = [(0, 1, story "s" "s")] ∧
      ((added "s" "s").serving platform (handler (story "s" "s"))).contextStory "s" =
        some (story "s" "s") := by
  have forward : (added "s" "s").forward = [(0, 1, story "s" "s")] := rfl
  have strings : (added "s" "s").strings = ["s", "s"] := rfl
  refine ⟨forward, ((read_as_written_iff platform 10 10 10
    [.call ⟨story "s" "s"⟩ 0, .backup 0 0, .store 0 true, .build (fun _ => 0) fun _ => 0]
    (handler (story "s" "s")) ?_ ?_ [] [] (0, 1, story "s" "s") forward (by simp)).1.mpr rfl).1⟩
  · show NoCollision platform (added "s" "s")
    rw [NoCollision, strings]
    decide
  · show ∀ put ∈ (added "s" "s").forward, _
    rw [forward]
    simp [handler_inverts]

end NewsItem

end RecommEngine
