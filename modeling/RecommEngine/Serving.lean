/-
# Serving -- from `add_story` to the candidates of a query

The stages of the server put together: calls of `add_story` in steps, the build pool and
its thread, the cleaner, the forward store, `retrieve` and the candidates of `query`.
Builds and passes are whole operations, and the postings of a build are stamped in
one second.

What the server is for is said by the `StoryLog` of `Indexing.Refinement`: the stories
built, the newest first, and the cutoff of the last pass.  `Found` are the stories of
the log that a request should find.

* `search_answers`: the log is the stream of the accepted calls as far as it was built,
  in order, and `retrieve` answers the best of the `found` stories, each under
  the hash of its id and with the number of requested keywords it has.
* `recommends_exactly`: unless the answer was cut, the signatures among the candidates of
  a query are those of the found stories' newest profiles, without the user's history.
-/
import RecommEngine.ForwardStore
import RecommEngine.Indexing.Refinement

namespace RecommEngine

set_option autoImplicit false

open Std (ExtTreeMap)
open Util Theory Theory.Run Idl Indexing Retrieval

/-! ## The requests a log answers -/

namespace Indexing.BuiltStory

/-- How many keywords of the request the story has; a keyword that is requested twice
counts twice. -/
def overlap (request : RetrievalRequest) (b : BuiltStory) : Nat :=
  request.keywords.countP fun info => info.keyword ∈ b.keywords

/-- The story as an entry of the result set. -/
def entry {W : Type} (P : Platform W) (request : RetrievalRequest) (b : BuiltStory) : Entry :=
  ⟨P.cityHash64 b.req.story.storyId, b.overlap request⟩

end Indexing.BuiltStory

namespace Indexing.StoryLog

/-- The story is alive, has some of the keywords and enough of them. -/
def Finds (flags : Flags) (request : RetrievalRequest) (log : StoryLog) (b : BuiltStory) : Prop :=
  log.Survives b ∧ 0 < b.overlap request ∧
    flags.hitKeywordsRatio * request.keywords.length ≤ b.overlap request

instance (flags : Flags) (request : RetrievalRequest) (log : StoryLog) :
    DecidablePred (log.Finds flags request) := fun b =>
  inferInstanceAs (Decidable (log.Survives b ∧ 0 < b.overlap request ∧
    flags.hitKeywordsRatio * request.keywords.length ≤ b.overlap request))

def found (flags : Flags) (request : RetrievalRequest) (log : StoryLog) : List BuiltStory :=
  log.stories.filter (log.Finds flags request)

end Indexing.StoryLog

/-! ## The search over a log -/

namespace Retrieval.RetrievalHandler

variable {W : Type} {P : Platform W} {docLifeTime : Int} {past : List DatedOp} {m : IndexMachine W}
  {log : StoryLog}

/-- What a search sees of a token. -/
theorem visibleAt_refines (refines : m.Refines P log) (k : Int64) :
    IndexReader.visibleAt m.toInstantIndex k = log.postings P k := by
  have list := refines.lists k
  unfold IndexReader.visibleAt
  unfold IndexMachine.seqAt at list
  split at list
  · obtain ⟨pl, here, abs⟩ := Option.map_eq_some_iff.mp list
    rw [here]
    simp [abs, MarkedSeq.visible]
  · rename_i absent
    rw [Option.map_eq_none_iff.mp list, StoryLog.postings_eq_nil P absent]

/-- The posting of a story in the list of `k` carries its id. -/
theorem posting_has_id (b c : BuiltStory) (k : Int64) :
    ((b.posting P k).map fun p => decide (p.localDocid = UInt32.ofNat c.localId)).getD false =
      decide (k ∈ b.keywords ∧ UInt32.ofNat b.localId = UInt32.ofNat c.localId) := by
  cases posting : b.posting P k with
  | none => simp [BuiltStory.posting_eq_none.mp posting]
  | some p =>
      have has : k ∈ b.keywords := by
        by_contra absent
        rw [BuiltStory.posting_eq_none.mpr absent] at posting
        cases posting
      obtain ⟨weight, -, rfl⟩ := Option.map_eq_some_iff.mp posting
      simp [has]

/-- Ids tell stories apart, so a list holds one posting of a story that is alive and has the
keyword, and none of any other. -/
theorem countP_postings (dated : log.WellDated docLifeTime past) (ok : Admissible docLifeTime past)
    {b : BuiltStory} (inside : b ∈ log.stories) (k : Int64) :
    (log.postings P k).countP (fun p => p.localDocid = UInt32.ofNat b.localId) =
      if log.Survives b ∧ k ∈ b.keywords then 1 else 0 := by
  have once : log.stories.countP (fun c => UInt32.ofNat c.localId = UInt32.ofNat b.localId) = 1 := by
    have count := List.count_eq_one_of_mem (dated.nodup_ids ok)
      (List.mem_map_of_mem (f := fun c => UInt32.ofNat c.localId) inside)
    rw [List.count, List.countP_map] at count
    rw [← count]
    apply List.countP_congr
    intro c _
    simp
  rw [StoryLog.postings, List.countP_filterMap, List.countP_filter]
  simp only [posting_has_id]
  split
  · rename_i alive
    rw [← once]
    apply List.countP_congr
    intro c member
    simp only [Bool.and_eq_true, decide_eq_true_eq]
    constructor
    · exact fun both => both.1.2
    · intro same
      obtain rfl := dated.unique ok member inside same
      exact ⟨⟨alive.2, same⟩, alive.1⟩
  · rename_i gone
    rw [List.countP_eq_zero]
    intro c member
    simp only [Bool.and_eq_true, decide_eq_true_eq]
    rintro ⟨⟨has, same⟩, survives⟩
    obtain rfl := dated.unique ok member inside same
    exact gone ⟨survives, has⟩

/-- A story is scored by the requested keywords it has, as long as it is alive. -/
theorem score_refines (refines : m.Refines P log) (dated : log.WellDated docLifeTime past)
    (ok : Admissible docLifeTime past) (request : RetrievalRequest) {b : BuiltStory}
    (inside : b ∈ log.stories) :
    score m.toInstantIndex request (UInt32.ofNat b.localId) =
      if log.Survives b then b.overlap request else 0 := by
  have each : ∀ info : RetrievalRequestInfo, (IndexReader.visibleAt m.toInstantIndex info.keyword).countP
      (fun p => p.localDocid = UInt32.ofNat b.localId) =
        if log.Survives b ∧ info.keyword ∈ b.keywords then 1 else 0 := by
    intro info
    rw [visibleAt_refines refines]
    exact countP_postings dated ok inside info.keyword
  rw [score]
  simp only [each]
  split
  · rename_i alive
    rw [BuiltStory.overlap]
    induction request.keywords with
    | nil => rfl
    | cons info rest ih =>
        rw [List.map_cons, List.sum_cons, ih, List.countP_cons]
        simp only [alive, true_and, decide_eq_true_eq]
        omega
  · rename_i gone
    simp [gone]

/-- Only stories are scored. -/
theorem exists_story_of_score (refines : m.Refines P log) {request : RetrievalRequest} {d : LocalDocID}
    (hit : 0 < score m.toInstantIndex request d) : ∃ b ∈ log.stories, UInt32.ofNat b.localId = d := by
  obtain ⟨count, inside, pos⟩ := List.exists_mem_ne_zero_of_sum_ne_zero hit.ne'
  obtain ⟨info, -, rfl⟩ := List.mem_map.mp inside
  obtain ⟨p, visible, same⟩ := List.countP_pos_iff.mp (Nat.pos_of_ne_zero pos)
  rw [visibleAt_refines refines, StoryLog.postings, List.mem_filterMap] at visible
  obtain ⟨b, member, posting⟩ := visible
  obtain ⟨weight, -, rfl⟩ := Option.map_eq_some_iff.mp posting
  exact ⟨b, List.mem_of_mem_filter member, by simpa using same⟩

theorem qualifies_refines (refines : m.Refines P log) (dated : log.WellDated docLifeTime past)
    (ok : Admissible docLifeTime past) (flags : Flags) (request : RetrievalRequest) {b : BuiltStory}
    (inside : b ∈ log.stories) :
    Qualifies flags m.toInstantIndex request (UInt32.ofNat b.localId) ↔ log.Finds flags request b := by
  rw [Qualifies, score_refines refines dated ok request inside, StoryLog.Finds]
  split
  · rename_i alive
    simp [alive]
  · rename_i gone
    simp [gone]

/-- The documents that pass are the stories found. -/
theorem pool_refines (refines : m.Refines P log) (dated : log.WellDated docLifeTime past)
    (ok : Admissible docLifeTime past) (flags : Flags) (request : RetrievalRequest) :
    (pool flags m.toInstantIndex request).Perm
      ((log.found flags request).map fun b => UInt32.ofNat b.localId) := by
  have distinct : ((log.found flags request).map fun b => UInt32.ofNat b.localId).Nodup :=
    (dated.nodup_ids ok).sublist (List.filter_sublist.map _)
  rw [List.perm_ext_iff_of_nodup (nodup_pool flags _ request) distinct]
  intro d
  rw [mem_pool_iff, List.mem_map]
  constructor
  · intro qualifies
    obtain ⟨b, inside, rfl⟩ := exists_story_of_score refines qualifies.1
    have finds := (qualifies_refines refines dated ok flags request inside).mp qualifies
    exact ⟨b, List.mem_filter.mpr ⟨inside, by simpa using finds⟩, rfl⟩
  · rintro ⟨b, found, rfl⟩
    obtain ⟨inside, finds⟩ := List.mem_filter.mp found
    exact (qualifies_refines refines dated ok flags request inside).mpr (by simpa using finds)

/-- A story found is entered under the hash of its id. -/
theorem entryOf_refines (refines : m.Refines P log) (dated : log.WellDated docLifeTime past)
    (ok : Admissible docLifeTime past) {flags : Flags} {request : RetrievalRequest} {b : BuiltStory}
    (found : b ∈ log.found flags request) :
    entryOf m.toInstantIndex request (UInt32.ofNat b.localId) = b.entry P request := by
  obtain ⟨inside, finds⟩ := List.mem_filter.mp found
  have alive : log.Survives b := (of_decide_eq_true finds).1
  have label := (refines.att (UInt32.ofNat b.localId) ⟨P.cityHash64 b.req.story.storyId⟩).mpr
    ⟨b, inside, rfl, rfl, Or.inr alive⟩
  rw [entryOf, BuiltStory.entry, score_refines refines dated ok request inside, if_pos alive]
  simp [IndexReader.getGlobalIDFromLocalID, InstantIndex.translateToGlobalID, label]

theorem entries_refines (refines : m.Refines P log) (dated : log.WellDated docLifeTime past)
    (ok : Admissible docLifeTime past) (flags : Flags) (request : RetrievalRequest) :
    ((pool flags m.toInstantIndex request).map (entryOf m.toInstantIndex request)).Perm
      ((log.found flags request).map (BuiltStory.entry P request)) := by
  have perm := (pool_refines refines dated ok flags request).map (entryOf m.toInstantIndex request)
  rw [List.map_map] at perm
  refine perm.trans (List.Perm.of_eq ?_)
  apply List.map_congr_left
  intro b found
  exact entryOf_refines refines dated ok found

end Retrieval.RetrievalHandler

/-! ## The server -/

/-- A step of an `add_story` call or of a pool thread, or a whole pass of the cleaner. -/
inductive ServerEvent where
  | story (e : StoryEvent)
  | pass (now : Int)

/-- A build reads the same second for all its postings. -/
def ServerEvent.Dated : ServerEvent → Prop
  | .story (.build _ clock) => ∀ i, clock i = clock 0
  | _ => True

def Indexing.DatedOp.request : DatedOp → Option StoryAddingRequest
  | .build req _ => some req
  | .pass _ => none

/-- The log keeps the stories in the order of their builds. -/
theorem Indexing.StoryLog.run_requests (docLifeTime : Int) (log : StoryLog) (ops : List DatedOp) :
    (run (StoryLog.step docLifeTime) log ops).stories.reverse.map BuiltStory.req =
      log.stories.reverse.map BuiltStory.req ++ ops.filterMap DatedOp.request := by
  induction ops generalizing log with
  | nil => simp
  | cons op ops ih =>
      rw [run_cons, ih]
      cases op with
      | build req time => simp [StoryLog.step, DatedOp.request]
      | pass now => rw [List.filterMap_cons_none rfl, StoryLog.step]

namespace StoryManagement

variable {W : Type}

theorem index_backupStory (s : StoryManagement W) (i : Nat) (now : Int64) :
    (s.backupStory i now).index = s.index ∧ (s.backupStory i now).docPool = s.docPool := by
  unfold backupStory
  split <;> exact ⟨rfl, rfl⟩

theorem index_addProfile (P : Platform W) (s : StoryManagement W) (i : Nat) (accepted : Bool) :
    (s.addProfile P i accepted).index = s.index ∧ (s.addProfile P i accepted).docPool = s.docPool := by
  unfold addProfile
  split <;> exact ⟨rfl, rfl⟩

theorem index_writeNext (s : StoryManagement W) (getClock : Nat → Int64) :
    (s.writeNext getClock).index = s.index ∧ (s.writeNext getClock).docPool = s.docPool := by
  unfold writeNext
  split <;> exact ⟨rfl, rfl⟩

variable [Inhabited W]

def serve (P : Platform W) (docLifeTime : Int) (s : StoryManagement W) :
    ServerEvent → StoryManagement W
  | .story e => s.step P docLifeTime e
  | .pass now => { s with index := s.index.cleanPass P docLifeTime now }

omit [Inhabited W] in
/-- The operation on the index that an event is; a build round at an empty pool is none. -/
def performed (s : StoryManagement W) : ServerEvent → List DatedOp
  | .story (.build getClock clock) =>
      (s.docPool.tryGetInternal getClock).1.toList.map fun entry => .build entry.2 (clock 0)
  | .pass now => [.pass now]
  | _ => []

/-- The operations on the index in a run. -/
def history (P : Platform W) (docLifeTime : Int) (s : StoryManagement W) : List ServerEvent → List DatedOp
  | [] => []
  | e :: es => s.performed e ++ history P docLifeTime (s.serve P docLifeTime e) es

omit [Inhabited W] in
/-- The request that an event puts into the build pool. -/
def accepts (s : StoryManagement W) : ServerEvent → List StoryAddingRequest
  | .story (.call req now) => if (s.docPool.tryPut (s.calls.length, req) now).1 then [req] else []
  | _ => []

/-- The requests of a run that got into the build pool. -/
def accepted (P : Platform W) (docLifeTime : Int) (s : StoryManagement W) :
    List ServerEvent → List StoryAddingRequest
  | [] => []
  | e :: es => s.accepts e ++ accepted P docLifeTime (s.serve P docLifeTime e) es

/-- An event does to the index what it is recorded for. -/
theorem index_serve (P : Platform W) (docLifeTime : Int) (s : StoryManagement W) {e : ServerEvent}
    (dated : e.Dated) :
    (s.serve P docLifeTime e).index =
      run (IndexMachine.perform P docLifeTime) s.index ((s.performed e).map DatedOp.toOp) := by
  cases e with
  | pass now => rfl
  | story e =>
      cases e with
      | call req now => rfl
      | backup i now => exact (s.index_backupStory i now).1
      | store i accepted => exact (s.index_addProfile P i accepted).1
      | build getClock clock =>
          have constant : clock = fun _ => clock 0 := funext dated
          rw [serve, step, buildNext, performed]
          cases got : s.docPool.tryGetInternal getClock with
          | mk item rest =>
              cases item with
              | none => rfl
              | some entry =>
                  show s.index.addStoryInternal P docLifeTime entry.2 clock =
                    s.index.addStoryInternal P docLifeTime entry.2 fun _ => clock 0
                  rw [← constant]
      | write getClock => exact (s.index_writeNext getClock).1

theorem index_history (P : Platform W) (docLifeTime : Int) (s : StoryManagement W) {es : List ServerEvent}
    (dated : ∀ e ∈ es, e.Dated) :
    (run (serve P docLifeTime) s es).index =
      run (IndexMachine.perform P docLifeTime) s.index ((s.history P docLifeTime es).map DatedOp.toOp) := by
  induction es generalizing s with
  | nil => rfl
  | cons e es ih =>
      rw [run_cons, ih _ fun f inside => dated f (List.mem_cons_of_mem _ inside),
        index_serve P docLifeTime s (dated e List.mem_cons_self), history, List.map_append, run_append]

/-- The build pool is a queue between the calls and the builder. -/
theorem pool_serve (P : Platform W) (docLifeTime : Int) {s : StoryManagement W}
    (untimed : s.docPool.Untimed) (e : ServerEvent) :
    (s.serve P docLifeTime e).docPool.Untimed ∧
      (s.performed e).filterMap DatedOp.request ++ (s.serve P docLifeTime e).docPool.items.map Prod.snd =
        s.docPool.items.map Prod.snd ++ s.accepts e := by
  have same : ∀ {t : StoryManagement W}, t.docPool = s.docPool → t.docPool.Untimed ∧
      [] ++ t.docPool.items.map Prod.snd = s.docPool.items.map Prod.snd ++ [] := by
    intro t pool
    rw [pool]
    exact ⟨untimed, by simp⟩
  cases e with
  | pass now => exact same rfl
  | story e =>
      cases e with
      | call req now =>
          refine ⟨untimed.tryPut _ _, ?_⟩
          have items := s.docPool.items_tryPut (s.calls.length, req) now
          have room := s.docPool.tryPut_accepted (s.calls.length, req) now
          show [] ++ (s.docPool.tryPut (s.calls.length, req) now).2.items.map Prod.snd = _
          rw [items, accepts]
          by_cases some_ : s.docPool.items.length < s.docPool.capacity
          · simp [some_, room.mpr some_]
          · simp [some_, Bool.not_eq_true _ ▸ room.not.mpr some_]
      | backup i now => exact same (s.index_backupStory i now).2
      | store i accepted => exact same (s.index_addProfile P i accepted).2
      | build getClock clock =>
          have none_ : s.accepts (.story (.build getClock clock)) = [] := rfl
          rw [serve, step, buildNext, performed, none_]
          cases got : s.docPool.tryGetInternal getClock with
          | mk item rest =>
              cases item with
              | none => exact same rfl
              | some entry =>
                  obtain ⟨taken, untimed'⟩ := untimed.tryGet_some got
                  exact ⟨untimed', by simp [taken, DatedOp.request]⟩
      | write getClock => exact same (s.index_writeNext getClock).2

theorem pool_history (P : Platform W) (docLifeTime : Int) {s : StoryManagement W}
    (untimed : s.docPool.Untimed) (es : List ServerEvent) :
    (s.history P docLifeTime es).filterMap DatedOp.request ++
        (run (serve P docLifeTime) s es).docPool.items.map Prod.snd =
      s.docPool.items.map Prod.snd ++ s.accepted P docLifeTime es := by
  induction es generalizing s with
  | nil => simp [history, accepted]
  | cons e es ih =>
      obtain ⟨untimed', first⟩ := pool_serve P docLifeTime untimed e
      rw [history, accepted, List.filterMap_append, run_cons, List.append_assoc, ih untimed',
        ← List.append_assoc, first, List.append_assoc]

/-! ## What a search answers -/

theorem entries_found {P : Platform W} {docLifeTime : Int} {docPoolSize replayLogBuffer : Nat}
    {es : List ServerEvent} (dated : ∀ e ∈ es, e.Dated)
    (ok : Admissible docLifeTime (history P docLifeTime (init docPoolSize replayLogBuffer) es))
    (flags : Flags) (request : RetrievalRequest) :
    let s := run (serve P docLifeTime) (init docPoolSize replayLogBuffer) es
    let log := run (StoryLog.step docLifeTime) {}
      (history P docLifeTime (init docPoolSize replayLogBuffer) es)
    ((RetrievalHandler.pool flags s.index.toInstantIndex request).map
        (RetrievalHandler.entryOf s.index.toInstantIndex request)).Perm
      ((log.found flags request).map (BuiltStory.entry P request)) := by
  intro s log
  have refines : s.index.Refines P log := by
    have index := index_history P docLifeTime (init docPoolSize replayLogBuffer : StoryManagement W) dated
    show (run (serve P docLifeTime) (init docPoolSize replayLogBuffer) es).index.Refines P log
    rw [index]
    exact IndexMachine.refines_run P ok
  exact RetrievalHandler.entries_refines refines
    (StoryLog.wellDated_run ok _ (List.prefix_refl _)) ok flags request

theorem stories_accepted (P : Platform W) (docLifeTime : Int) (docPoolSize replayLogBuffer : Nat)
    (es : List ServerEvent) :
    let s := run (serve P docLifeTime) (init docPoolSize replayLogBuffer) es
    let log := run (StoryLog.step docLifeTime) {}
      (history P docLifeTime (init docPoolSize replayLogBuffer : StoryManagement W) es)
    log.stories.reverse.map BuiltStory.req ++ s.docPool.items.map Prod.snd =
      accepted P docLifeTime (init docPoolSize replayLogBuffer) es := by
  intro s log
  have untimed : (init docPoolSize replayLogBuffer : StoryManagement W).docPool.Untimed :=
    ProducerConsumerQueue.untimed_new docPoolSize
  have pool := pool_history P docLifeTime untimed es
  have requests := StoryLog.run_requests docLifeTime {}
    (history P docLifeTime (init docPoolSize replayLogBuffer : StoryManagement W) es)
  show (run (StoryLog.step docLifeTime) {} _).stories.reverse.map BuiltStory.req ++ _ = _
  rw [requests]
  exact pool

/-- **The server searches what was added.**  In a run whose builds each stamp all their postings
in one second, with times and ids in range (`Admissible`): the stories built, and then
those in the build pool, are the accepted calls in their order, and `retrieve` answers
the best of the stories found among those built. -/
theorem search_answers (P : Platform W) (docLifeTime : Int) (docPoolSize replayLogBuffer : Nat)
    (es : List ServerEvent) (dated : ∀ e ∈ es, e.Dated)
    (ok : Admissible docLifeTime (history P docLifeTime (init docPoolSize replayLogBuffer) es))
    {sort : List Entry → List Entry} (sortOk : SortOk sort) (flags : Flags)
    (request : RetrievalRequest) :
    let s := run (serve P docLifeTime) (init docPoolSize replayLogBuffer) es
    let log := run (StoryLog.step docLifeTime) {}
      (history P docLifeTime (init docPoolSize replayLogBuffer) es)
    log.stories.reverse.map BuiltStory.req ++ s.docPool.items.map Prod.snd =
        accepted P docLifeTime (init docPoolSize replayLogBuffer) es ∧
      ∃ entries enough, entries.Perm ((log.found flags request).map (BuiltStory.entry P request)) ∧
        ∀ rounds, enough ≤ rounds →
          RetrievalHandler.retrieve sort flags s.index.toInstantIndex rounds request {} =
            .ok ⟨.ok, min (entries.length : Int) flags.maxDocReturn,
              ((sort entries).take (min (entries.length : Int) flags.maxDocReturn).toNat).map
                fun e => ⟨e.storyId, e.score⟩⟩ := by
  intro s log
  constructor
  · exact stories_accepted P docLifeTime docPoolSize replayLogBuffer es
  · obtain ⟨enough, answer⟩ := RetrievalHandler.retrieve_eq sortOk flags s.index.toInstantIndex request
    exact ⟨_, enough, entries_found dated ok flags request, answer⟩

/-! ## What a query recommends -/

omit [Inhabited W] in
/-- A stored profile is the story of a call, under the hash of its id. -/
def Recorded (P : Platform W) (s : StoryManagement W) : Prop :=
  ∀ put ∈ s.forward, ∃ c ∈ s.calls, put.2 = (P.cityHash64 c.req.story.storyId, c.req.story)

omit [Inhabited W] in
theorem Recorded.of_calls {P : Platform W} {s s' : StoryManagement W} (recorded : Recorded P s)
    (forward : s'.forward = s.forward) (calls : ∀ c ∈ s.calls, ∃ c' ∈ s'.calls, c'.req = c.req) :
    Recorded P s' := by
  intro put inside
  rw [forward] at inside
  obtain ⟨c, called, same⟩ := recorded put inside
  obtain ⟨c', called', req⟩ := calls c called
  exact ⟨c', called', by rw [same, req]⟩

/-- No event forgets a call. -/
theorem calls_serve (P : Platform W) (docLifeTime : Int) (s : StoryManagement W) (e : ServerEvent) :
    ∀ c ∈ s.calls, ∃ c' ∈ (s.serve P docLifeTime e).calls, c'.req = c.req := by
  have same : ∀ {t : StoryManagement W}, t.calls = s.calls → ∀ c ∈ s.calls, ∃ c' ∈ t.calls, c'.req = c.req :=
    fun is c inside => ⟨c, is ▸ inside, rfl⟩
  cases e with
  | pass now => exact same rfl
  | story e =>
      cases e with
      | call req now => exact fun c inside => ⟨c, List.mem_append_left _ inside, rfl⟩
      | backup i now =>
          rw [serve, step, StoryManagement.backupStory]
          split
          · rename_i req ret here
            exact fun c inside => mem_set_req _ here inside
          · exact same rfl
      | store i accepted =>
          rw [serve, step, StoryManagement.addProfile]
          split
          · rename_i req here
            exact fun c inside => mem_set_req _ here inside
          · exact same rfl
      | build getClock clock =>
          rw [serve, step, buildNext]
          split <;> exact same rfl
      | write getClock =>
          rw [serve, step, StoryManagement.writeNext]
          split <;> exact same rfl

theorem Recorded.serve {P : Platform W} {docLifeTime : Int} {s : StoryManagement W}
    (recorded : Recorded P s) (e : ServerEvent) : Recorded P (s.serve P docLifeTime e) := by
  have calls := calls_serve P docLifeTime s e
  have kept : (s.serve P docLifeTime e).forward = s.forward → Recorded P (s.serve P docLifeTime e) :=
    fun forward => recorded.of_calls forward calls
  cases e with
  | pass now => exact kept rfl
  | story e =>
      cases e with
      | call req now => exact kept rfl
      | backup i now =>
          apply kept
          rw [StoryManagement.serve, step, StoryManagement.backupStory]
          split <;> rfl
      | store i accepted =>
          rw [StoryManagement.serve, step] at calls ⊢
          unfold StoryManagement.addProfile at calls ⊢
          split at calls
          · rename_i req here
            cases accepted with
            | false => exact recorded.of_calls rfl calls
            | true =>
                have before : Recorded P { s with calls := s.calls.set i ⟨req, .answered .ok⟩ } :=
                  recorded.of_calls rfl calls
                intro put inside
                rcases List.mem_cons.mp inside with rfl | old
                · exact ⟨_, List.mem_set (List.getElem?_eq_some_iff.mp here).1 _, rfl⟩
                · exact before put old
          · exact recorded
      | build getClock clock =>
          apply kept
          rw [StoryManagement.serve, step, buildNext]
          split <;> rfl
      | write getClock =>
          apply kept
          rw [StoryManagement.serve, step, StoryManagement.writeNext]
          split <;> rfl

/-- What got into the build pool was called. -/
theorem called_of_accepted (P : Platform W) (docLifeTime : Int) (s : StoryManagement W)
    (es : List ServerEvent) {req : StoryAddingRequest} (inside : req ∈ s.accepted P docLifeTime es) :
    ∃ c ∈ (run (serve P docLifeTime) s es).calls, c.req = req := by
  have later : ∀ (es : List ServerEvent) (s : StoryManagement W), ∀ c ∈ s.calls,
      ∃ c' ∈ (run (StoryManagement.serve P docLifeTime) s es).calls, c'.req = c.req := by
    intro es
    induction es with
    | nil => exact fun s c called => ⟨c, called, rfl⟩
    | cons e es ih =>
        intro s c called
        obtain ⟨c', called', same⟩ := calls_serve P docLifeTime s e c called
        obtain ⟨c'', called'', same'⟩ := ih _ c' called'
        exact ⟨c'', called'', same'.trans same⟩
  induction es generalizing s with
  | nil => cases inside
  | cons e es ih =>
      rw [accepted, List.mem_append] at inside
      rcases inside with now | then_
      · cases e with
        | pass now => cases now
        | story e =>
            cases e with
            | call req' now' =>
                rw [accepts] at now
                split at now
                · obtain rfl := List.mem_singleton.mp now
                  exact later es _ ⟨req, _⟩ (List.mem_append_right _ (List.mem_singleton_self _))
                · cases now
            | _ => cases now
      · exact ih _ then_

/-- A handler over the index of the run retrieves the first of the entries found. -/
theorem results_found {P : Platform W} {docLifeTime : Int} {docPoolSize replayLogBuffer : Nat}
    {es : List ServerEvent} (dated : ∀ e ∈ es, e.Dated)
    (ok : Admissible docLifeTime (history P docLifeTime (init docPoolSize replayLogBuffer) es))
    {sort : List Entry → List Entry} (sortOk : SortOk sort) {flags : Flags} {h : RecommEngineHandler}
    (retrieves : h.RetrievesFrom sort flags
      (run (serve P docLifeTime) (init docPoolSize replayLogBuffer) es).index.toInstantIndex)
    (request : RetrievalRequest) :
    let log := run (StoryLog.step docLifeTime) {}
      (history P docLifeTime (init docPoolSize replayLogBuffer) es)
    ∃ entries : List Entry, entries.Perm ((log.found flags request).map (BuiltStory.entry P request)) ∧
      (h.retrieve request).results =
        (entries.take (min (entries.length : Int) flags.maxDocReturn).toNat).map
          fun e => ⟨e.storyId, e.score⟩ := by
  intro log
  have entries : ((RetrievalHandler.pool flags (run (serve P docLifeTime)
        (init docPoolSize replayLogBuffer) es).index.toInstantIndex request).map
      (RetrievalHandler.entryOf (run (serve P docLifeTime)
        (init docPoolSize replayLogBuffer) es).index.toInstantIndex request)).Perm
      ((log.found flags request).map (BuiltStory.entry P request)) :=
    entries_found dated ok flags request
  generalize indexed : (run (serve P docLifeTime) (init docPoolSize replayLogBuffer)
    es).index.toInstantIndex = m at retrieves entries
  obtain ⟨enough, answered⟩ := retrieves request
  obtain ⟨enough', computed⟩ := RetrievalHandler.retrieve_eq sortOk flags m request
  have same := (answered (max enough enough') (le_max_left _ _)).symm.trans
    (computed (max enough enough') (le_max_right _ _))
  have results := congrArg RetrievalResponse.results (Except.ok.inj same)
  have perm := sortOk.perm ((RetrievalHandler.pool flags m request).map
    (RetrievalHandler.entryOf m request))
  refine ⟨_, perm.trans entries, ?_⟩
  rw [perm.length_eq]
  exact results

omit [Inhabited W] in
/-- The candidates are the stories that load, the first of each signature. -/
theorem candidates_kept (P : Platform W) (s : StoryManagement W) (h : RecommEngineHandler)
    (user : UserProfile) (results : List RetrievalResult) :
    (s.serving P h).candidates user results =
      FirstOfKind.keptValues ((s.serving P h).unseen user) StoryProfile.signature results
        results.length := by
  rw [RecommEngineHandler.candidates, RecommEngineHandler.addCandidate_eq, FirstOfKind.foldl_pick]

omit [Inhabited W] in
/-- A candidate is the story of a call and was not read; it was loaded for a result. -/
theorem candidate_called {P : Platform W} {s : StoryManagement W} (recorded : Recorded P s)
    (h : RecommEngineHandler)
    (inverts : ∀ put ∈ s.forward, h.storyThrift.ReadsBack blankStory put.2.2)
    {user : UserProfile} {results : List RetrievalResult} {p : StoryProfile}
    (candidate : p ∈ (s.serving P h).candidates user results) :
    (∃ c ∈ s.calls, c.req.story = p) ∧ P.cityHash64 p.storyId ∉ user.history.getD [] ∧
      ∃ r ∈ results, r.storyId = P.cityHash64 p.storyId := by
  rw [candidates_kept] at candidate
  obtain ⟨i, -, -, value⟩ := FirstOfKind.mem_keptValues.mp candidate
  obtain ⟨r, here, loads⟩ := Option.bind_eq_some_iff.mp value
  obtain ⟨new, profile⟩ := RecommEngineHandler.unseen_eq_some.mp loads
  obtain ⟨put, newest, rfl⟩ := (load_serving h inverts).mp profile
  obtain ⟨c, called, same⟩ := recorded put (List.mem_of_find?_eq_some newest)
  have read := List.find?_some newest
  replace read : put.2.1 = r.storyId := of_decide_eq_true read
  have story : c.req.story = put.2.2 := by rw [same]
  have hash : r.storyId = P.cityHash64 put.2.2.storyId := by rw [← read, ← story, same]
  exact ⟨⟨c, called, story⟩, hash ▸ new, r, List.mem_of_getElem? here, hash⟩

omit [Inhabited W] in
/-- A result that was not read and whose profile is stored leaves its signature. -/
theorem exists_candidate {P : Platform W} {s : StoryManagement W} (h : RecommEngineHandler)
    (inverts : ∀ put ∈ s.forward, h.storyThrift.ReadsBack blankStory put.2.2) {user : UserProfile}
    {results : List RetrievalResult} {r : RetrievalResult} (inside : r ∈ results)
    (new : r.storyId ∉ user.history.getD []) {put : Nat × Int64 × StoryProfile}
    (newest : s.forward.find? (fun put => put.2.1 = r.storyId) = some put) :
    ∃ p ∈ (s.serving P h).candidates user results, p.signature = put.2.2.signature := by
  have loads : (s.serving P h).unseen user r = some put.2.2 :=
    RecommEngineHandler.unseen_eq_some.mpr ⟨new, (load_serving h inverts).mpr ⟨put, newest, rfl⟩⟩
  rw [candidates_kept]
  exact FirstOfKind.exists_kept_of_kind inside loads

theorem recorded_run (P : Platform W) (docLifeTime : Int) (docPoolSize replayLogBuffer : Nat)
    (es : List ServerEvent) : Recorded P (run (serve P docLifeTime) (init docPoolSize replayLogBuffer) es) := by
  have start : Recorded P (init docPoolSize replayLogBuffer : StoryManagement W) := by
    simp [Recorded, init]
  exact run_history (I := fun _ s => Recorded P s) start (fun _ e _ before => before.serve e) es
    (List.prefix_refl _)

/-- A story of the log was called. -/
theorem built_called (P : Platform W) (docLifeTime : Int) (docPoolSize replayLogBuffer : Nat)
    (es : List ServerEvent) {b : BuiltStory}
    (inside : b ∈ (run (StoryLog.step docLifeTime) {}
      (history P docLifeTime (init docPoolSize replayLogBuffer) es)).stories) :
    ∃ c ∈ (run (serve P docLifeTime) (init docPoolSize replayLogBuffer) es).calls, c.req = b.req := by
  apply called_of_accepted P docLifeTime
  rw [← stories_accepted P docLifeTime docPoolSize replayLogBuffer es]
  apply List.mem_append_left
  exact List.mem_map_of_mem (List.mem_reverse.mpr inside)

/-- **A query recommends what was added**, after a run of that kind in which no two strings share
a hash.  A candidate is the story of a call, the user has not read it, and a story of its
id is among those found.  As long as all that are found are returned, each of them that
the user has not read and whose profile is stored has the signature of that profile,
the newest under its key, among the candidates. -/
theorem recommends_exactly (P : Platform W) (docLifeTime : Int) (docPoolSize replayLogBuffer : Nat)
    (es : List ServerEvent) (dated : ∀ e ∈ es, e.Dated)
    (ok : Admissible docLifeTime (history P docLifeTime (init docPoolSize replayLogBuffer) es))
    (noCollision : NoCollision P (run (serve P docLifeTime) (init docPoolSize replayLogBuffer) es))
    {sort : List Entry → List Entry} (sortOk : SortOk sort) (flags : Flags) (h : RecommEngineHandler)
    (retrieves : h.RetrievesFrom sort flags
      (run (serve P docLifeTime) (init docPoolSize replayLogBuffer) es).index.toInstantIndex)
    (inverts : ∀ put ∈ (run (serve P docLifeTime) (init docPoolSize replayLogBuffer) es).forward,
      h.storyThrift.ReadsBack blankStory put.2.2)
    (user : UserProfile) (request : RetrievalRequest) :
    let s := run (serve P docLifeTime) (init docPoolSize replayLogBuffer) es
    let log := run (StoryLog.step docLifeTime) {}
      (history P docLifeTime (init docPoolSize replayLogBuffer) es)
    let candidates := (s.serving P h).candidates user (h.retrieve request).results
    (∀ p ∈ candidates, (∃ c ∈ s.calls, c.req.story = p) ∧
        P.cityHash64 p.storyId ∉ user.history.getD [] ∧
        ∃ b ∈ log.found flags request, b.req.story.storyId = p.storyId) ∧
      (((log.found flags request).length : Int) ≤ flags.maxDocReturn →
        ∀ b ∈ log.found flags request, P.cityHash64 b.req.story.storyId ∉ user.history.getD [] →
          ∀ put, s.forward.find? (fun put => put.2.1 = P.cityHash64 b.req.story.storyId) = some put →
            ∃ p ∈ candidates, p.signature = put.2.2.signature) := by
  intro s log candidates
  obtain ⟨entries, perm, answer⟩ := results_found dated ok sortOk retrieves request
  constructor
  · intro p candidate
    have recorded : Recorded P s := recorded_run P docLifeTime docPoolSize replayLogBuffer es
    obtain ⟨⟨c, called, story⟩, new, r, result, hash⟩ :=
      candidate_called recorded h inverts candidate
    refine ⟨⟨c, called, story⟩, new, ?_⟩
    rw [answer] at result
    obtain ⟨e, taken, rfl⟩ := List.mem_map.mp result
    obtain ⟨b, found, rfl⟩ := List.mem_map.mp (perm.mem_iff.mp (List.mem_of_mem_take taken))
    obtain ⟨c', called', same'⟩ := built_called P docLifeTime docPoolSize replayLogBuffer es
      (List.mem_of_mem_filter found)
    refine ⟨b, found, ?_⟩
    apply noCollision
    · exact List.mem_flatMap.mpr ⟨c', called', by simp [same']⟩
    · exact List.mem_flatMap.mpr ⟨c, called, by simp [story]⟩
    · exact hash
  · intro fits b found new put newest
    have whole : (min (entries.length : Int) flags.maxDocReturn).toNat = entries.length := by
      have length : entries.length = (log.found flags request).length := by
        rw [perm.length_eq, List.length_map]
      omega
    have inside : (⟨P.cityHash64 b.req.story.storyId, b.overlap request⟩ : RetrievalResult) ∈
        (h.retrieve request).results := by
      rw [answer, whole, List.take_length]
      exact List.mem_map.mpr ⟨b.entry P request, perm.mem_iff.mpr (List.mem_map_of_mem found), rfl⟩
    exact exists_candidate h inverts inside new newest

end StoryManagement

/-! ## A story that was added, built, and not yet too old -/

namespace Bulletin

open StoryManagement

def story : StoryProfile := NewsItem.story "s" "s"

def events : List ServerEvent :=
  [.story (.call ⟨story⟩ 0), .story (.backup 0 0), .story (.store 0 true),
    .story (.build (fun _ => 0) fun _ => 5), .pass 12]

def served : StoryManagement Int32 := run (serve NewsItem.platform 10) (init 10 10) events

/-- What a query for the story's keyword finds. -/
def request : RetrievalRequest := ⟨[⟨2, 0⟩]⟩

/-- Thrift on the story, over the index of the run. -/
def handler : RecommEngineHandler :=
  { NewsItem.handler story with retrieve := SportsPage.response served.index.toInstantIndex }

theorem dated : ∀ e ∈ events, e.Dated := by
  simp [events, ServerEvent.Dated]

theorem history_events :
    history NewsItem.platform 10 (init 10 10) events = [.build ⟨story⟩ 5, .pass 12] := rfl

theorem admissible : Admissible 10 (history NewsItem.platform 10 (init 10 10) events) := by
  rw [history_events]
  constructor
  · decide
  · decide
  · decide
  · decide

theorem forward_served : served.forward = [(0, 1, story)] := rfl

theorem noCollision : NoCollision NewsItem.platform served := by
  have strings : served.strings = ["s", "s"] := rfl
  rw [NoCollision, strings]
  decide

theorem found_events :
    (run (StoryLog.step 10) {} [.build ⟨story⟩ 5, .pass 12]).found {} request =
      [⟨1, ⟨story⟩, 5⟩] := by
  have one : request.keywords.length = 1 := rfl
  have overlap : (⟨1, ⟨story⟩, 5⟩ : BuiltStory).overlap request = 1 := by decide +kernel
  have finds : (run (StoryLog.step 10) {} [.build ⟨story⟩ 5, .pass 12]).Finds {} request
      ⟨1, ⟨story⟩, 5⟩ := by
    refine ⟨by decide +kernel, by simp [overlap], ?_⟩
    rw [overlap, one]
    norm_num
  exact List.filter_cons_of_pos (by simpa using finds)

theorem search_answers_events :
    ∃ entries enough, entries.Perm [(⟨1, 1⟩ : Entry)] ∧ ∀ rounds, enough ≤ rounds →
      RetrievalHandler.retrieve TwoStories.sort {} served.index.toInstantIndex rounds request {} =
        .ok ⟨.ok, min (entries.length : Int) 100,
          ((TwoStories.sort entries).take (min (entries.length : Int) 100).toNat).map
            fun e => ⟨e.storyId, e.score⟩⟩ := by
  obtain ⟨-, entries, enough, perm, answer⟩ := search_answers NewsItem.platform 10 10 10 events dated
    admissible TwoStories.sortOk {} request
  rw [history_events, found_events] at perm
  have entry : (⟨1, ⟨story⟩, 5⟩ : BuiltStory).entry NewsItem.platform request = ⟨1, 1⟩ := by
    decide +kernel
  rw [List.map_singleton, entry] at perm
  exact ⟨entries, enough, perm, answer⟩

theorem recommends_exactly_events :
    ∃ p ∈ (served.serving NewsItem.platform handler).candidates blankProfile
      (handler.retrieve request).results, p.signature = 7 := by
  have inverts : ∀ put ∈ served.forward, handler.storyThrift.ReadsBack blankStory put.2.2 := by
    rw [forward_served]
    intro put inside
    obtain rfl := List.mem_singleton.mp inside
    exact NewsItem.handler_inverts story
  have exactly := (recommends_exactly NewsItem.platform 10 10 10 events dated admissible noCollision
    TwoStories.sortOk {} handler (SportsPage.handler_retrievesFrom _ (0, [])) inverts
    blankProfile request).2
  rw [history_events, found_events] at exactly
  exact exactly (by decide) _ (List.mem_singleton_self _) (by decide) (0, 1, story) rfl

end Bulletin

end RecommEngine
