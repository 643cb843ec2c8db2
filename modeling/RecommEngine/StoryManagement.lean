/-
# StoryManagement -- one request, three stores

`StoryManagementHandler::add_story` puts a story into the build pool and the
replay-log pool and writes it to the forward store; two threads drain the pools.
Any number of calls run at once, each in three steps: the build put, the backup
put, and the forward put with the answer.

Every request travels with the number of its call, which no step reads.  The
forward store is the list of its accepted puts, newest first.

The answer must match the joint outcome: `ok` for a story in all three stores,
`error` for a story in none.  Three things break it: the backup put is made and
its result dropped whatever became of the build put, and the status of a failed
forward put is overwritten with `ok`.  Besides, a put under a key overwrites what
another call has put there.  `answers_match` proves the answers right in every run
where each backup put fares as the build put did, every forward put is accepted,
and none is made under the key of another profile (`AllOrNothing`).
-/
import RecommEngine.Util.ProducerConsumerQueue
import RecommEngine.Indexing.Integrity

namespace RecommEngine

set_option autoImplicit false

open Std (ExtTreeMap)
open Util Theory.Run Idl Indexing

/-- Where an `add_story` call stands. -/
inductive CallPc where
  | atBackup (ret : Bool)
  | atStore
  | answered (status : StoryManagementStatus)
  deriving DecidableEq

structure AddStoryCall where
  req : StoryAddingRequest
  pc : CallPc

structure StoryManagement (W : Type) where
  calls : List AddStoryCall := []
  docPool : ProducerConsumerQueue (Nat × StoryAddingRequest)
  logPool : ProducerConsumerQueue (Nat × StoryAddingRequest)
  index : IndexMachine W := {}
  /-- The calls whose story was built, with the local id it was given. -/
  indexed : List (Nat × LocalDocID) := []
  replayLog : List (Nat × StoryAddingRequest) := []
  forward : List (Nat × Int64 × StoryProfile) := []

inductive StoryEvent where
  /-- `add_story` up to and including the put into the build pool. -/
  | call (req : StoryAddingRequest) (now : Int64)
  | backup (i : Nat) (now : Int64)
  /-- The forward put of call `i`, which leveldb accepts or fails, and the answer. -/
  | store (i : Nat) (accepted : Bool)
  | build (getClock : Nat → Int64) (clock : Nat → Int)
  | write (getClock : Nat → Int64)

namespace StoryManagement

variable {W : Type}

/-! ## The steps -/

/-- Both pools are created with timeout 0. -/
def init (docPoolSize replayLogBuffer : Nat) : StoryManagement W where
  docPool := ⟨docPoolSize, ProducerConsumerQueue.timeoutNone, []⟩
  logPool := ⟨replayLogBuffer, ProducerConsumerQueue.timeoutNone, []⟩

/-- `IndexBuildThread::AddStory`. -/
def addStory (s : StoryManagement W) (req : StoryAddingRequest) (now : Int64) : StoryManagement W :=
  let put := s.docPool.tryPut (s.calls.length, req) now
  { s with docPool := put.2, calls := s.calls ++ [⟨req, .atBackup put.1⟩] }

/-- `ReplayLogWriterThread::BackupStory`, whose answer `AddStory` only logs. -/
def backupStory (s : StoryManagement W) (i : Nat) (now : Int64) : StoryManagement W :=
  match s.calls[i]? with
  | some ⟨req, .atBackup ret⟩ =>
      { s with
        logPool := (s.logPool.tryPut (i, req) now).2
        calls := s.calls.set i ⟨req, if ret then .atStore else .answered .error⟩ }
  | _ => s

/-- `StoryProfileStorage::AddProfile` and the end of `add_story`.  A failed put
sets the status to `error`, and the next statement sets it to `ok`. -/
def addProfile (P : Platform W) (s : StoryManagement W) (i : Nat) (accepted : Bool) :
    StoryManagement W :=
  match s.calls[i]? with
  | some ⟨req, .atStore⟩ =>
      { s with
        forward := if accepted then (i, P.cityHash64 req.story.storyId, req.story) :: s.forward
          else s.forward
        calls := s.calls.set i ⟨req, .answered .ok⟩ }
  | _ => s

/-- One round of `IndexBuildThread::Run`; an empty pool blocks it. -/
def buildNext [Inhabited W] (P : Platform W) (docLifeTime : Int) (s : StoryManagement W)
    (getClock : Nat → Int64) (clock : Nat → Int) : StoryManagement W :=
  match s.docPool.tryGetInternal getClock with
  | (none, _) => s
  | (some (i, req), docPool) =>
      { s with
        docPool := docPool
        index := s.index.addStoryInternal P docLifeTime req clock
        indexed := (i, s.index.localDocidCounter) :: s.indexed }

/-- One round of `ReplayLogWriterThread::Run`; an empty pool blocks it. -/
def writeNext (s : StoryManagement W) (getClock : Nat → Int64) : StoryManagement W :=
  match s.logPool.tryGetInternal getClock with
  | (none, _) => s
  | (some entry, logPool) => { s with logPool := logPool, replayLog := s.replayLog ++ [entry] }

def step [Inhabited W] (P : Platform W) (docLifeTime : Int) (s : StoryManagement W) :
    StoryEvent → StoryManagement W
  | .call req now => s.addStory req now
  | .backup i now => s.backupStory i now
  | .store i accepted => s.addProfile P i accepted
  | .build getClock clock => s.buildNext P docLifeTime getClock clock
  | .write getClock => s.writeNext getClock

/-! ## Where a story is -/

/-- What the forward store holds under a key: the newest put counts. -/
def profileAt (s : StoryManagement W) (key : Int64) : Option StoryProfile :=
  (s.forward.find? fun put => put.2.1 = key).map fun put => put.2.2

def Stored (P : Platform W) (s : StoryManagement W) (req : StoryAddingRequest) : Prop :=
  s.profileAt (P.cityHash64 req.story.storyId) = some req.story

/-- The story was built, with a posting for each of its keywords. -/
def Indexed (s : StoryManagement W) (i : Nat) (req : StoryAddingRequest) : Prop :=
  ∃ localId, (i, localId) ∈ s.indexed ∧
    ∀ k ∈ req.story.keywords, ∃ p, s.index.Posted k p ∧ p.localDocid = localId

def Logged (s : StoryManagement W) (i : Nat) (req : StoryAddingRequest) : Prop :=
  (i, req) ∈ s.replayLog

def Nowhere (s : StoryManagement W) (i : Nat) : Prop :=
  (∀ x ∈ s.forward, x.1 ≠ i) ∧ (∀ x ∈ s.indexed, x.1 ≠ i) ∧ (∀ x ∈ s.replayLog, x.1 ≠ i)

/-- The condition: the backup put finds room exactly if the build put did, and the forward
store accepts its put and holds no other profile under the key. -/
def AllOrNothing (P : Platform W) (s : StoryManagement W) : StoryEvent → Prop
  | .backup i _ => ∀ c ∈ s.calls[i]?, ∀ ret, c.pc = .atBackup ret →
      (ret = true ↔ s.logPool.items.length < s.logPool.capacity)
  | .store i accepted => ∀ c ∈ s.calls[i]?, c.pc = .atStore →
      accepted = true ∧
        ∀ story ∈ s.profileAt (P.cityHash64 c.req.story.storyId), story = c.req.story
  | _ => True

instance (P : Platform W) (s : StoryManagement W) : DecidablePred (AllOrNothing P s)
  | .backup i _ => inferInstanceAs (Decidable (∀ c ∈ s.calls[i]?, ∀ ret, c.pc = .atBackup ret →
      (ret = true ↔ s.logPool.items.length < s.logPool.capacity)))
  | .store i accepted => inferInstanceAs (Decidable (∀ c ∈ s.calls[i]?, c.pc = .atStore →
      accepted = true ∧
        ∀ story ∈ s.profileAt (P.cityHash64 c.req.story.storyId), story = c.req.story))
  | .call _ _ | .build _ _ | .write _ => .isTrue trivial

/-! ## The invariant -/

/-- The calls whose story is in the build pool or built. -/
def docCalls (s : StoryManagement W) : List Nat :=
  s.docPool.items.map Prod.fst ++ s.indexed.map Prod.fst

/-- The calls whose story is in the log pool or written. -/
def logCalls (s : StoryManagement W) : List Nat :=
  s.logPool.items.map Prod.fst ++ s.replayLog.map Prod.fst

def forwardCalls (s : StoryManagement W) : List Nat := s.forward.map Prod.fst

/-- What a call has left behind, by where it stands: whether its story is on
the way to the index, on the way to the log, and in the forward store. -/
def Consistent (inDocs inLog inForward : Prop) : CallPc → Prop
  | .atBackup ret => (inDocs ↔ ret = true) ∧ ¬ inLog ∧ ¬ inForward
  | .atStore => inDocs ∧ inLog ∧ ¬ inForward
  | .answered .ok => inDocs ∧ inLog ∧ inForward
  | .answered .error => ¬ inDocs ∧ ¬ inLog ∧ ¬ inForward

def reqAt (s : StoryManagement W) (i : Nat) : Option StoryAddingRequest :=
  s.calls[i]?.map AddStoryCall.req

structure Flow (P : Platform W) (s : StoryManagement W) : Prop where
  docUntimed : s.docPool.Untimed
  logUntimed : s.logPool.Untimed
  docItems : ∀ x ∈ s.docPool.items, s.reqAt x.1 = some x.2
  logItems : ∀ x ∈ s.logPool.items ++ s.replayLog, s.reqAt x.1 = some x.2
  built : ∀ x ∈ s.indexed, ∃ req, s.reqAt x.1 = some req ∧
    ∀ k ∈ req.story.keywords, ∃ p, s.index.Posted k p ∧ p.localDocid = x.2
  stored : ∀ x ∈ s.forward, ∃ req, s.reqAt x.1 = some req ∧ s.Stored P req
  consistent : ∀ i c, s.calls[i]? = some c →
    Consistent (i ∈ s.docCalls) (i ∈ s.logCalls) (i ∈ s.forwardCalls) c.pc

theorem flow_init (P : Platform W) (docPoolSize replayLogBuffer : Nat) :
    Flow P (init docPoolSize replayLogBuffer : StoryManagement W) :=
  ⟨ProducerConsumerQueue.untimed_new _, ProducerConsumerQueue.untimed_new _,
    by simp [init, ProducerConsumerQueue.items], by simp [init, ProducerConsumerQueue.items],
    by simp [init], by simp [init], by simp [init]⟩

/-- Only the numbers of past calls occur in the pools and stores. -/
theorem Flow.known {P : Platform W} {s : StoryManagement W} (flow : Flow P s) {i : Nat}
    (inside : i ∈ s.docCalls ∨ i ∈ s.logCalls ∨ i ∈ s.forwardCalls) : i < s.calls.length := by
  have bound : ∀ {req}, s.reqAt i = some req → i < s.calls.length := by
    intro req found
    obtain ⟨c, here, -⟩ := Option.map_eq_some_iff.mp found
    exact (List.getElem?_eq_some_iff.mp here).1
  simp only [docCalls, logCalls, forwardCalls, ← List.map_append, List.mem_append, List.mem_map]
    at inside
  rcases inside with (⟨x, hx, rfl⟩ | ⟨x, hx, rfl⟩) | ⟨x, hx, rfl⟩ | ⟨x, hx, rfl⟩
  · exact bound (flow.docItems x hx)
  · obtain ⟨req, found, -⟩ := flow.built x hx
    exact bound found
  · exact bound (flow.logItems x (List.mem_append.mpr hx))
  · obtain ⟨req, found, -⟩ := flow.stored x hx
    exact bound found

/-- Moving one call on keeps every request. -/
theorem reqAt_set {s : StoryManagement W} {i : Nat} {req : StoryAddingRequest} {pc pc' : CallPc}
    (here : s.calls[i]? = some ⟨req, pc⟩) (j : Nat) :
    ((s.calls.set i ⟨req, pc'⟩)[j]?).map AddStoryCall.req = s.reqAt j := by
  rw [reqAt, List.getElem?_set]
  by_cases same : i = j
  · subst same
    have inside := (List.getElem?_eq_some_iff.mp here).1
    rw [if_pos rfl, if_pos inside, here]
    rfl
  · simp [same]

theorem reqAt_append {s : StoryManagement W} {c : AddStoryCall} {j : Nat} {req : StoryAddingRequest}
    (found : s.reqAt j = some req) : ((s.calls ++ [c])[j]?).map AddStoryCall.req = some req := by
  obtain ⟨old, here, rfl⟩ := Option.map_eq_some_iff.mp found
  rw [List.getElem?_append_left (List.getElem?_eq_some_iff.mp here).1, here]
  rfl

theorem Flow.addStory {P : Platform W} {s : StoryManagement W} (flow : Flow P s)
    (req : StoryAddingRequest) (now : Int64) : Flow P (s.addStory req now) := by
  have inDocs : ∀ j, j ∈ (s.addStory req now).docCalls ↔ j ∈ s.docCalls ∨
      (j = s.calls.length ∧ s.docPool.items.length < s.docPool.capacity) := by
    intro j
    simp only [StoryManagement.addStory, docCalls, List.mem_append, List.mem_map,
      ProducerConsumerQueue.mem_tryPut]
    aesop
  have unseen : s.calls.length ∉ s.docCalls ∧ s.calls.length ∉ s.logCalls ∧
      s.calls.length ∉ s.forwardCalls := by
    refine ⟨fun h => ?_, fun h => ?_, fun h => ?_⟩ <;> refine lt_irrefl _ (flow.known ?_) <;> tauto
  refine ⟨flow.docUntimed.tryPut _ _, flow.logUntimed, ?_,
    fun x hx => reqAt_append (flow.logItems x hx), ?_, ?_,
    ?_⟩
  · intro x hx
    rcases ProducerConsumerQueue.mem_tryPut.mp hx with old | ⟨rfl, -⟩
    · exact reqAt_append (flow.docItems x old)
    · simp [StoryManagement.addStory, reqAt]
  · intro x hx
    obtain ⟨r, found, posted⟩ := flow.built x hx
    exact ⟨r, reqAt_append found, posted⟩
  · intro x hx
    obtain ⟨r, found, same⟩ := flow.stored x hx
    exact ⟨r, reqAt_append found, same⟩
  · intro j c here
    rw [inDocs]
    simp only [StoryManagement.addStory] at here
    rcases Nat.lt_trichotomy j s.calls.length with before | rfl | after
    · rw [List.getElem?_append_left before] at here
      have other : ¬ (j = s.calls.length ∧ s.docPool.items.length < s.docPool.capacity) := by omega
      rw [or_iff_left other]
      exact flow.consistent j c here
    · rw [List.getElem?_append_right (le_refl _), Nat.sub_self, List.getElem?_cons_zero,
        Option.some.injEq] at here
      subst here
      refine ⟨?_, unseen.2⟩
      rw [ProducerConsumerQueue.tryPut_accepted, or_iff_right unseen.1, and_iff_right rfl]
    · rw [List.getElem?_eq_none (by simp; omega)] at here
      cases here

/-- A step that moves call `i` on changes the picture for that call only. -/
theorem consistent_set {s s' : StoryManagement W} {P : Platform W} (flow : Flow P s) {i : Nat}
    {req : StoryAddingRequest} {pc pc' : CallPc} (here : s.calls[i]? = some ⟨req, pc⟩)
    (calls : s'.calls = s.calls.set i ⟨req, pc'⟩)
    (others : ∀ j, j ≠ i → (j ∈ s'.docCalls ↔ j ∈ s.docCalls) ∧ (j ∈ s'.logCalls ↔ j ∈ s.logCalls) ∧
      (j ∈ s'.forwardCalls ↔ j ∈ s.forwardCalls))
    (own : Consistent (i ∈ s'.docCalls) (i ∈ s'.logCalls) (i ∈ s'.forwardCalls) pc') :
    ∀ j c, s'.calls[j]? = some c →
      Consistent (j ∈ s'.docCalls) (j ∈ s'.logCalls) (j ∈ s'.forwardCalls) c.pc := by
  intro j c found
  rw [calls, List.getElem?_set] at found
  by_cases same : i = j
  · subst same
    rw [if_pos rfl, if_pos (List.getElem?_eq_some_iff.mp here).1, Option.some.injEq] at found
    subst found
    exact own
  · rw [if_neg same] at found
    obtain ⟨docs, log, forward⟩ := others j (Ne.symm same)
    rw [docs, log, forward]
    exact flow.consistent j c found

theorem Flow.backupStory {P : Platform W} {s : StoryManagement W} (flow : Flow P s) (i : Nat)
    (now : Int64) (safe : AllOrNothing P s (.backup i now)) : Flow P (s.backupStory i now) := by
  unfold StoryManagement.backupStory
  split
  · rename_i req ret here
    have room := safe _ here ret rfl
    obtain ⟨inDocs, notLogged, notStored⟩ := flow.consistent i _ here
    let s' : StoryManagement W := { s with
      logPool := (s.logPool.tryPut (i, req) now).2
      calls := s.calls.set i ⟨req, if ret then .atStore else .answered .error⟩ }
    have inLog : ∀ j, j ∈ s'.logCalls ↔ j ∈ s.logCalls ∨ (j = i ∧ ret = true) := by
      intro j
      simp only [s', logCalls, List.mem_append, List.mem_map, ProducerConsumerQueue.mem_tryPut, room]
      aesop
    show Flow P s'
    have reqSame : ∀ j, s'.reqAt j = s.reqAt j := reqAt_set here
    refine ⟨flow.docUntimed, flow.logUntimed.tryPut _ _, ?_, ?_, ?_, ?_, ?_⟩
    · simpa only [reqSame] using flow.docItems
    · intro x hx
      rw [reqSame]
      rcases List.mem_append.mp hx with waiting | written
      · rcases ProducerConsumerQueue.mem_tryPut.mp waiting with old | ⟨rfl, -⟩
        · exact flow.logItems x (List.mem_append_left _ old)
        · simp [reqAt, here]
      · exact flow.logItems x (List.mem_append_right _ written)
    · simpa only [reqSame] using flow.built
    · intro x hx
      rw [reqSame]
      exact flow.stored x hx
    · refine consistent_set flow here rfl (fun j other => ⟨Iff.rfl, ?_, Iff.rfl⟩) ?_
      · simp [inLog, other]
      · have docs : i ∈ s'.docCalls ↔ ret = true := inDocs
        have forward : i ∉ s'.forwardCalls := notStored
        cases ret <;> simp [Consistent, inLog, docs, forward, notLogged]
  · exact flow

/-- A put of the profile that a key already has, or under another key. -/
theorem Stored.push {P : Platform W} {s s' : StoryManagement W} {req req' : StoryAddingRequest}
    {i : Nat} (stored : s.Stored P req')
    (alone : ∀ story ∈ s.profileAt (P.cityHash64 req.story.storyId), story = req.story)
    (forward : s'.forward = (i, P.cityHash64 req.story.storyId, req.story) :: s.forward) :
    s'.Stored P req' := by
  rw [Stored, profileAt, forward, List.find?_cons]
  by_cases same : P.cityHash64 req.story.storyId = P.cityHash64 req'.story.storyId
  · have own : req'.story = req.story := alone _ (by rw [same]; exact stored)
    simp [same, own]
  · simp only [same, decide_false]
    exact stored

theorem Flow.addProfile {P : Platform W} {s : StoryManagement W} (flow : Flow P s) (i : Nat)
    (accepted : Bool) (safe : AllOrNothing P s (.store i accepted)) :
    Flow P (s.addProfile P i accepted) := by
  unfold StoryManagement.addProfile
  split
  · rename_i req here
    obtain ⟨rfl, alone⟩ := safe _ here rfl
    obtain ⟨inDocs, inLog, -⟩ := flow.consistent i _ here
    let s' : StoryManagement W := { s with
      forward := (i, P.cityHash64 req.story.storyId, req.story) :: s.forward
      calls := s.calls.set i ⟨req, .answered .ok⟩ }
    show Flow P s'
    have reqSame : ∀ j, s'.reqAt j = s.reqAt j := reqAt_set here
    refine ⟨flow.docUntimed, flow.logUntimed, ?_, ?_, ?_, ?_, ?_⟩
    · simpa only [reqSame] using flow.docItems
    · simpa only [reqSame] using flow.logItems
    · simpa only [reqSame] using flow.built
    · intro x hx
      rw [reqSame]
      rcases List.mem_cons.mp hx with rfl | old
      · exact ⟨req, by simp [reqAt, here], by simp [Stored, profileAt, s']⟩
      · obtain ⟨req', found, stored⟩ := flow.stored x old
        exact ⟨req', found, stored.push alone rfl⟩
    · refine consistent_set flow here rfl (fun j other => ⟨Iff.rfl, Iff.rfl, ?_⟩) ?_
      · simp [s', forwardCalls, other]
      · exact ⟨inDocs, inLog, by simp [s', forwardCalls]⟩
  · exact flow

variable [Inhabited W]

theorem Flow.buildNext {P : Platform W} {docLifeTime : Int} {s : StoryManagement W}
    (flow : Flow P s) (getClock : Nat → Int64) (clock : Nat → Int) :
    Flow P (s.buildNext P docLifeTime getClock clock) := by
  unfold StoryManagement.buildNext
  split
  · exact flow
  · rename_i i req docPool got
    obtain ⟨que, untimed⟩ := flow.docUntimed.tryGet_some got
    have still : ∀ k p, s.index.Posted k p →
        (s.index.addStoryInternal P docLifeTime req clock).Posted k p :=
      fun k p posted => IndexMachine.posted_addStoryInternal.mpr (Or.inl posted)
    refine ⟨untimed, flow.logUntimed, ?_, flow.logItems, ?_, flow.stored, ?_⟩
    · intro x hx
      exact flow.docItems x (by rw [que]; exact List.mem_cons_of_mem _ hx)
    · intro x hx
      rcases List.mem_cons.mp hx with rfl | old
      · refine ⟨req, flow.docItems (i, req) (by simp [que]), ?_⟩
        intro k has
        obtain ⟨p, new⟩ : ∃ p, IndexMachine.newPosting P s.index.localDocidCounter
            req.story.keywords clock k = some p := by
          rw [← Option.isSome_iff_exists, Option.isSome_iff_ne_none, ne_eq,
            IndexMachine.newPosting_eq_none, not_not]
          exact has
        exact ⟨p, IndexMachine.posted_addStoryInternal.mpr (Or.inr new),
          (IndexMachine.newPosting_stamp new).1⟩
      · obtain ⟨r, found, posted⟩ := flow.built x old
        refine ⟨r, found, ?_⟩
        intro k has
        obtain ⟨p, hp, same⟩ := posted k has
        exact ⟨p, still k p hp, same⟩
    · intro j c here
      have inDocs : j ∈ docPool.items.map Prod.fst ++ ((i, s.index.localDocidCounter) ::
          s.indexed).map Prod.fst ↔ j ∈ s.docCalls := by
        simp only [docCalls, que, List.mem_append, List.map_cons, List.mem_cons]
        tauto
      have old := flow.consistent j c here
      rw [← inDocs] at old
      exact old

omit [Inhabited W] in
theorem Flow.writeNext {P : Platform W} {s : StoryManagement W} (flow : Flow P s)
    (getClock : Nat → Int64) : Flow P (s.writeNext getClock) := by
  unfold StoryManagement.writeNext
  split
  · exact flow
  · rename_i entry logPool got
    obtain ⟨que, untimed⟩ := flow.logUntimed.tryGet_some got
    refine ⟨flow.docUntimed, untimed, flow.docItems, ?_, flow.built, flow.stored, ?_⟩
    · intro x hx
      apply flow.logItems x
      simp only [que, List.mem_append, List.mem_cons, List.not_mem_nil, or_false] at hx ⊢
      tauto
    · intro j c here
      have inLog : j ∈ logPool.items.map Prod.fst ++ (s.replayLog ++ [entry]).map Prod.fst ↔
          j ∈ s.logCalls := by
        simp only [logCalls, que, List.mem_append, List.map_cons, List.map_append,
          List.map_nil, List.mem_cons, List.not_mem_nil, or_false]
        tauto
      have old := flow.consistent j c here
      rw [← inLog] at old
      exact old

/-- **Acknowledgements match the joint outcome.**  In every run that is all or
nothing, once both pools are drained, a story answered `ok` is in the forward
store, in the index under each of its keywords, and in the replay log, and a
story answered `error` is in none of them. -/
theorem answers_match (P : Platform W) (docLifeTime : Int) (docPoolSize replayLogBuffer : Nat)
    (es : List StoryEvent)
    (safe : Along (step P docLifeTime) (AllOrNothing P) (init docPoolSize replayLogBuffer) es)
    (drainedDocs : (run (step P docLifeTime) (init docPoolSize replayLogBuffer) es).docPool.que = [])
    (drainedLog : (run (step P docLifeTime) (init docPoolSize replayLogBuffer) es).logPool.que = []) :
    let s := run (step P docLifeTime) (init docPoolSize replayLogBuffer) es
    ∀ i c, s.calls[i]? = some c →
      (c.pc = .answered .ok → s.Stored P c.req ∧ s.Indexed i c.req ∧ s.Logged i c.req) ∧
      (c.pc = .answered .error → s.Nowhere i) := by
  intro s i c here
  have flow : Flow P s := by
    refine safe.invariant (?_) (flow_init P docPoolSize replayLogBuffer)
    intro s e flow safe
    cases e with
    | call req now => exact flow.addStory req now
    | backup i now => exact flow.backupStory i now safe
    | store i accepted => exact flow.addProfile i accepted safe
    | build getClock clock => exact flow.buildNext getClock clock
    | write getClock => exact flow.writeNext getClock
  have docs : s.docCalls = s.indexed.map Prod.fst := by
    simp [docCalls, ProducerConsumerQueue.items, s, drainedDocs]
  have log : s.logCalls = s.replayLog.map Prod.fst := by
    simp [logCalls, ProducerConsumerQueue.items, s, drainedLog]
  have reqHere : s.reqAt i = some c.req := by simp [reqAt, here]
  have consistent := flow.consistent i c here
  rw [docs, log, forwardCalls] at consistent
  constructor
  · intro answered
    rw [answered] at consistent
    obtain ⟨inDocs, inLog, inForward⟩ := consistent
    refine ⟨?_, ?_, ?_⟩
    · obtain ⟨⟨j, entry⟩, hx, rfl⟩ := List.mem_map.mp inForward
      obtain ⟨req, found, stored⟩ := flow.stored _ hx
      obtain rfl : c.req = req := by simpa [reqHere] using found
      exact stored
    · obtain ⟨⟨j, localId⟩, hx, rfl⟩ := List.mem_map.mp inDocs
      obtain ⟨req, found, posted⟩ := flow.built _ hx
      obtain rfl : c.req = req := by simpa [reqHere] using found
      exact ⟨localId, hx, posted⟩
    · obtain ⟨⟨j, req⟩, hx, rfl⟩ := List.mem_map.mp inLog
      have found := flow.logItems _ (List.mem_append_right _ hx)
      obtain rfl : c.req = req := by simpa [reqHere] using found
      exact hx
  · intro answered
    rw [answered] at consistent
    obtain ⟨notDocs, notLog, notForward⟩ := consistent
    exact ⟨fun x hx same => notForward (List.mem_map.mpr ⟨x, hx, same⟩),
      fun x hx same => notDocs (List.mem_map.mpr ⟨x, hx, same⟩),
      fun x hx same => notLog (List.mem_map.mpr ⟨x, hx, same⟩)⟩

end StoryManagement

/-! ## A forward put that fails -/

namespace FailedPut

def platform : Platform Int32 := ⟨fun _ => 77, id⟩

def request : StoryAddingRequest := ⟨⟨"s", 0, "", "", (∅ : Keywords).insert 5 3⟩⟩

/-- One request, drained by both threads; the forward store accepts its put or not. -/
def oneRequest (accepted : Bool) : List StoryEvent :=
  [.call request 0, .backup 0 0, .store 0 accepted, .build (fun _ => 0) fun _ => 10,
    .write fun _ => 0]

/-- The failed put is answered `ok`, and the story is not in the forward store. -/
theorem failed_put_answered_ok :
    let s := run (StoryManagement.step platform 10) (.init 1 1) (oneRequest false)
    s.docPool.que.length = 0 ∧ s.logPool.que.length = 0 ∧
      s.calls.map AddStoryCall.pc = [.answered .ok] ∧ ¬ s.Stored platform request := by
  intro s
  have forward : s.forward = [] := rfl
  exact ⟨by decide, by decide, by decide, by simp [StoryManagement.Stored, StoryManagement.profileAt, forward]⟩

theorem accepted_put_stored :
    let s := run (StoryManagement.step platform 10) (.init 1 1) (oneRequest true)
    s.calls.map AddStoryCall.pc = [.answered .ok] ∧ s.Stored platform request ∧
      s.Indexed 0 request ∧ s.Logged 0 request := by
  intro s
  have here : s.calls[0]? = some ⟨request, .answered .ok⟩ := rfl
  have all := StoryManagement.answers_match platform 10 1 1 (oneRequest true) (by decide) rfl rfl
    0 _ here
  exact ⟨by decide, all.1 rfl⟩

end FailedPut

end RecommEngine
