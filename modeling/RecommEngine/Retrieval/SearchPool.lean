/-
# Retrieval.SearchPool -- the threads of the asynchronous search

`retrieval_search`, the pool of threads it is (`retrieval_task_base`), and the `main` that
opens, activates and deactivates it.  The threads meet `main` at a barrier, then take
workers off the list (`Retrieval.WaitList`) until it is flushed.

An event is what one thread does between two points where it can be held up, or what
somebody else does to the list; so a run is any interleaving.  `pthread_kill` comes
to nothing (`main` installs a handler that does nothing), but it may wake a
thread that waits: `spurious` does that at any time.

`Pooled` says what is on the list and who waits for it, `Stage` where the threads are
when `main` is somewhere.  Every event keeps both, and so `searches_in_turn`: the
workers are searched in the order in which they were put, each once, and no thread
sleeps beside a worker that nobody else will look at.
-/
import RecommEngine.Theory.CondVar
import RecommEngine.Retrieval.WaitList

namespace RecommEngine.Retrieval

set_option autoImplicit false

open Theory Theory.Run

/-! ## The pool -/

/-- Where a thread of the pool is. -/
inductive Svc (T : Type) where
  /-- In `run_svc`, before the barrier. -/
  | created
  | atBarrier
  /-- Before the mutex of `get`. -/
  | atGet
  /-- Inside `pthread_cond_wait`. -/
  | inWait
  | searching (worker : T)
  | finished
  /-- `get` has dereferenced a null pointer. -/
  | crashed
  deriving DecidableEq

/-- Where `main` is. -/
inductive MainThread where
  | constructed
  | opened (ret : Int)
  /-- Inside the barrier of `activate`. -/
  | activating
  | active
  /-- In `join`, before the `pthread_join` of the `i`-th thread. -/
  | joining (i : Nat)
  | joined
  /-- It has waited on a barrier that was never initialised.  What comes of that is undefined,
  and `main` is not followed further. -/
  | undefined
  deriving DecidableEq

/-- A `pthread_barrier_t`. -/
structure Barrier where
  count : Nat
  arrived : Nat := 0

structure RetrievalSearch (T : Type) where
  main : MainThread := .constructed
  threads : List (Svc T) := []
  barrier : Option Barrier := none
  taskList : WaitList T
  /-- The condition variable of the list, and the threads inside its waits. -/
  cond : CondVar Nat := {}
  /-- The workers that `get` has returned. -/
  taken : List T := []

namespace RetrievalSearch

variable {T : Type}

/-- How many threads `open` creates before `pthread_create` fails. -/
def created (fails : Nat → Bool) (threadNum : Nat) : Nat :=
  ((List.range threadNum).takeWhile fun i => !fails i).length

/-- What the system answers to the calls of `open`. -/
structure OpenCall where
  threadNum : Nat
  badStackSize : Bool := false
  noMemory : Bool := false
  fails : Nat → Bool := fun _ => false

def openPool (s : RetrievalSearch T) (call : OpenCall) : RetrievalSearch T :=
  if call.badStackSize then { s with main := .opened (-1) }
  else if call.threadNum = 0 || call.noMemory then { s with main := .opened (-1) }
  else
    { s with
      threads := List.replicate (created call.fails call.threadNum) .created
      barrier := some { count := call.threadNum + 1 }
      main := .opened (if created call.fails call.threadNum = call.threadNum then 0 else -1) }

def leaveBarrier : Svc T → Svc T
  | .atBarrier => .atGet
  | t => t

/-- `pthread_barrier_wait`: the last thread to arrive lets all of them go on. -/
def arrive (s : RetrievalSearch T) : RetrievalSearch T :=
  match s.barrier with
  | none => { s with main := .undefined }
  | some b =>
      if b.arrived + 1 = b.count then
        { s with
          threads := s.threads.map leaveBarrier
          main := if s.main = .activating then .active else s.main
          barrier := some { b with arrived := 0 } }
      else { s with barrier := some { b with arrived := b.arrived + 1 } }

def activate (s : RetrievalSearch T) : RetrievalSearch T :=
  arrive { s with main := .activating }

/-- `flush`, and then `join` has all threads before it. -/
def deactivate (s : RetrievalSearch T) : RetrievalSearch T :=
  { s with taskList := s.taskList.flush, cond := s.cond.broadcast, main := .joining 0 }

/-- `pthread_join` of the `i`-th thread. -/
def join (s : RetrievalSearch T) (i : Nat) : RetrievalSearch T :=
  match s.threads[i]? with
  | none => { s with main := .joined }
  | some .finished => { s with main := .joining (i + 1) }
  | some _ => s

inductive Event (T : Type) where
  | openPool (call : OpenCall)
  | activate
  | deactivate
  | join
  | put (worker : T) (wake : Nat)
  | svc (i : Nat)
  | spurious (wake : Nat)

/-- A worker is put only while it is not on the list. -/
def Allowed (s : RetrievalSearch T) : Event T → Prop
  | .put worker _ => ¬ s.taskList.Linked worker
  | _ => True

/-- The worker that an event puts on the list. -/
def puts (s : RetrievalSearch T) : Event T → List T
  | .put worker _ => if s.taskList.alive then [worker] else []
  | _ => []

variable [DecidableEq T]

def put (s : RetrievalSearch T) (worker : T) (wake : Nat) : RetrievalSearch T :=
  { s with taskList := s.taskList.put worker, cond := s.cond.signal wake }

/-- A thread at the loop condition of `get`. -/
def get (s : RetrievalSearch T) (i : Nat) : RetrievalSearch T :=
  match s.taskList.get with
  | (.waits, taskList) =>
      { s with taskList, threads := s.threads.set i .inWait, cond := s.cond.wait i }
  | (.returned (some worker), taskList) =>
      { s with
        taskList
        threads := s.threads.set i (.searching worker)
        taken := s.taken ++ [worker] }
  | (.returned none, taskList) => { s with taskList, threads := s.threads.set i .finished }
  | (.nullDereference, taskList) => { s with taskList, threads := s.threads.set i .crashed }

/-- The next turn of the `i`-th thread, in `run_svc` and in `svc`. -/
def svc (s : RetrievalSearch T) (i : Nat) : RetrievalSearch T :=
  match s.threads[i]? with
  | some .created => arrive { s with threads := s.threads.set i .atBarrier }
  | some .atGet => s.get i
  | some .inWait =>
      match s.cond.resume (s.cond.ready.idxOf i) with
      | none => s
      | some (_, cond) => get { s with cond } i
  | some (.searching _) => { s with threads := s.threads.set i .atGet }
  | _ => s

/-- `main` makes its calls in order, whatever `open` has returned. -/
def step (s : RetrievalSearch T) : Event T → RetrievalSearch T
  | .openPool call => if s.main = .constructed then s.openPool call else s
  | .activate =>
      match s.main with
      | .opened _ => s.activate
      | _ => s
  | .deactivate => if s.main = .active then s.deactivate else s
  | .join =>
      match s.main with
      | .joining i => s.join i
      | _ => s
  | .put worker wake => s.put worker wake
  | .svc i => s.svc i
  | .spurious wake => { s with cond := s.cond.signal wake }

/-- The constructors; the links of the workers hold anything. -/
def construct (next prev : LinkedListNode T → LinkedListNode T) : RetrievalSearch T where
  taskList := .create next prev

/-- The workers that a run puts on the list. -/
def accepted (s : RetrievalSearch T) : List (Event T) → List T
  | [] => []
  | e :: es => s.puts e ++ accepted (s.step e) es

end RetrievalSearch

/-! ## The list and the threads that wait for it -/

namespace RetrievalSearch

variable {T : Type}

/-- The workers on the list are `queued`, the one put first in front, and the threads
inside `get` are those of the condition variable. -/
structure Pooled (s : RetrievalSearch T) (queued : List T) : Prop where
  list : s.taskList.Represents ⟨queued.reverse, s.taskList.alive⟩
  parties : s.cond.parties.Nodup
  inWait : ∀ i, i ∈ s.cond.parties ↔ s.threads[i]? = some .inWait
  covers : s.taskList.alive = true → s.cond.Covers queued.length
  flushed : s.taskList.alive = false → s.cond.waiting = []
  sound : Svc.crashed ∉ s.threads

/-- What a `get` finds. -/
theorem get_cases [DecidableEq T] {t : WaitList T} {queued : List T} (rep : t.Represents ⟨queued.reverse, t.alive⟩) :
    (t.alive = true ∧ queued = [] ∧ t.get = (.waits, t)) ∨
      (∃ worker rest t', t.alive = true ∧ queued = worker :: rest ∧
        t.get = (.returned (some worker), t') ∧ t'.alive = true ∧ t'.Represents ⟨rest.reverse, true⟩) ∨
      (t.alive = false ∧ t.get = (.returned none, t)) := by
  cases alive : t.alive with
  | false => exact Or.inr (Or.inr ⟨rfl, by simp [WaitList.get, WaitList.take, alive]⟩)
  | true =>
      obtain ⟨answer, rep'⟩ := rep.get
      rw [alive] at answer rep'
      cases queued with
      | nil =>
          have empty : t.isEmpty = true := rep.isEmpty_iff.mpr rfl
          exact Or.inl ⟨rfl, rfl, by simp [WaitList.get, WaitList.take, alive, empty]⟩
      | cons worker rest =>
          refine Or.inr (Or.inl ⟨worker, rest, t.get.2, rfl, rfl, ?_, rep'.alive, ?_⟩)
          · apply Prod.ext
            · rw [answer]
              simp [Deque.answer]
            · rfl
          · simpa [Deque.step] using rep'

section Pooled

variable {s s' : RetrievalSearch T} {queued : List T}

/-- Only what the threads inside `get` do matters. -/
theorem Pooled.same (pooled : s.Pooled queued) (taskList : s'.taskList = s.taskList)
    (cond : s'.cond = s.cond)
    (inWait : ∀ i : Nat, s'.threads[i]? = some .inWait ↔ s.threads[i]? = some .inWait)
    (sound : Svc.crashed ∉ s'.threads) : s'.Pooled queued := by
  refine ⟨?_, ?_, ?_, ?_, ?_, sound⟩
  · rw [taskList]
    exact pooled.list
  · rw [cond]
    exact pooled.parties
  · intro i
    rw [cond, inWait, pooled.inWait]
  · rw [taskList, cond]
    exact pooled.covers
  · rw [taskList, cond]
    exact pooled.flushed

/-- A thread outside the waits goes from one place outside to another. -/
theorem Pooled.moves (pooled : s.Pooled queued) {i : Nat} (outside : s.threads[i]? ≠ some .inWait)
    {t : Svc T} (there : t ≠ .inWait) (fine : t ≠ .crashed) :
    Pooled { s with threads := s.threads.set i t } queued := by
  refine pooled.same rfl rfl ?_ ?_
  · intro j
    dsimp only
    rw [List.getElem?_set]
    split
    · rename_i same
      subst same
      refine iff_of_false ?_ outside
      split
      · simpa using there
      · simp
    · exact Iff.rfl
  · intro inside
    rcases List.mem_or_eq_of_mem_set inside with old | new
    · exact pooled.sound old
    · exact fine new.symm

theorem Pooled.arrive (pooled : s.Pooled queued) : s.arrive.Pooled queued := by
  unfold RetrievalSearch.arrive
  split
  · exact pooled.same rfl rfl (fun _ => Iff.rfl) pooled.sound
  · split
    · refine pooled.same rfl rfl ?_ ?_
      · intro i
        rw [List.getElem?_map]
        rcases s.threads[i]? with _ | t
        · simp
        · cases t <;> simp [leaveBarrier]
      · intro inside
        obtain ⟨t, old, same⟩ := List.mem_map.mp inside
        cases t <;> cases same
        exact pooled.sound old
    · exact pooled.same rfl rfl (fun _ => Iff.rfl) pooled.sound

theorem taken_arrive (s : RetrievalSearch T) : s.arrive.taken = s.taken := by
  unfold RetrievalSearch.arrive
  split
  · rfl
  · split <;> rfl

/-- A step that leaves the list and the waits alone. -/
def Aside (s s' : RetrievalSearch T) (queued : List T) : Prop :=
  s'.Pooled queued ∧ s'.taken = s.taken

theorem Pooled.aside_arrive (pooled : s.Pooled queued) :
    s.Aside s.arrive queued :=
  ⟨pooled.arrive, taken_arrive s⟩

theorem Pooled.aside_main (pooled : s.Pooled queued)
    (main : MainThread) : s.Aside { s with main } queued :=
  ⟨pooled.same rfl rfl (fun _ => Iff.rfl) pooled.sound, rfl⟩

theorem Pooled.aside_openPool (pooled : s.Pooled queued)
    (none_ : s.threads = []) (call : OpenCall) : s.Aside (s.openPool call) queued := by
  unfold openPool
  split
  · exact pooled.aside_main _
  · split
    · exact pooled.aside_main _
    · refine ⟨pooled.same rfl rfl ?_ ?_, rfl⟩
      · intro i
        dsimp only
        rw [List.getElem?_replicate, none_]
        split <;> simp
      · intro inside
        cases List.eq_of_mem_replicate inside

theorem Pooled.aside_join (pooled : s.Pooled queued) (i : Nat) :
    s.Aside (s.join i) queued := by
  unfold RetrievalSearch.join
  split
  · exact pooled.aside_main _
  · exact pooled.aside_main _
  · exact ⟨pooled, rfl⟩

theorem Pooled.spurious (pooled : s.Pooled queued) (wake : Nat) :
    Pooled { s with cond := s.cond.signal wake } queued := by
  have perm := s.cond.signal_parties wake
  refine ⟨pooled.list, perm.nodup_iff.mpr pooled.parties, ?_, ?_, ?_, pooled.sound⟩
  · intro i
    exact perm.mem_iff.trans (pooled.inWait i)
  · intro alive
    exact ((pooled.covers alive).signal wake).mono (Nat.le_succ _)
  · intro dead
    have none_ := pooled.flushed dead
    show (s.cond.signal wake).waiting = []
    rw [CondVar.signal_of_none_waiting none_, none_]

theorem Pooled.deactivate (pooled : s.Pooled queued) : s.deactivate.Pooled queued := by
  have perm := s.cond.broadcast_parties
  refine ⟨?_, perm.nodup_iff.mpr pooled.parties, ?_, ?_, fun _ => rfl, pooled.sound⟩
  · exact ⟨pooled.list.ring, pooled.list.nodup, rfl, pooled.list.num⟩
  · intro i
    exact perm.mem_iff.trans (pooled.inWait i)
  · intro alive
    cases alive

variable [DecidableEq T]

/-- A thread that is outside the waits, or has just left one, takes its turn at the loop
condition of `get`. -/
theorem pooled_get {i : Nat} (inside : i < s.threads.length)
    (list : s.taskList.Represents ⟨queued.reverse, s.taskList.alive⟩)
    (parties : s.cond.parties.Nodup)
    (inWait : ∀ j, j ∈ s.cond.parties ↔ j ≠ i ∧ s.threads[j]? = some .inWait)
    (covers : s.taskList.alive = true → s.cond.Covers (queued.length - 1))
    (flushed : s.taskList.alive = false → s.cond.waiting = [])
    (sound : Svc.crashed ∉ s.threads) :
    ∃ rest, (s.get i).Pooled rest ∧ (s.get i).taken ++ rest = s.taken ++ queued := by
  have moved : ∀ t : Svc T, t ≠ .inWait →
      ∀ j, j ∈ s.cond.parties ↔ (s.threads.set i t)[j]? = some .inWait := by
    intro t there j
    rw [inWait, List.getElem?_set]
    by_cases same : i = j
    · subst same
      simp [inside, there]
    · simp [same, Ne.symm same]
  have fine : ∀ t : Svc T, t ≠ .crashed → Svc.crashed ∉ s.threads.set i t := by
    intro t ok isCrashed
    rcases List.mem_or_eq_of_mem_set isCrashed with old | new
    · exact sound old
    · exact ok new.symm
  rcases get_cases list with ⟨alive, rfl, found⟩ | ⟨worker, rest, t', alive, rfl, found, alive', list'⟩ |
    ⟨dead, found⟩
  · refine ⟨[], ?_, ?_⟩
    · unfold RetrievalSearch.get
      rw [found]
      refine ⟨list, ?_, ?_, fun _ => CondVar.covers_zero _, ?_, fine _ (by simp)⟩
      · apply (s.cond.wait_parties i).nodup_iff.mpr
        exact List.nodup_cons.mpr ⟨fun old => ((inWait i).mp old).1 rfl, parties⟩
      · intro j
        rw [(s.cond.wait_parties i).mem_iff, List.mem_cons, inWait, List.getElem?_set]
        by_cases same : i = j
        · subst same
          simp [inside]
        · simp [same, Ne.symm same]
      · intro dead
        rw [alive] at dead
        cases dead
    · unfold RetrievalSearch.get
      rw [found]
  · refine ⟨rest, ?_, ?_⟩
    · unfold RetrievalSearch.get
      rw [found]
      refine ⟨?_, parties, moved _ (by simp), fun _ => covers alive, ?_, fine _ (by simp)⟩
      · rw [alive']
        exact list'
      · intro dead
        rw [alive'] at dead
        cases dead
    · unfold RetrievalSearch.get
      rw [found]
      simp
  · refine ⟨queued, ?_, ?_⟩
    · unfold RetrievalSearch.get
      rw [found]
      refine ⟨list, parties, moved _ (by simp), ?_, flushed, fine _ (by simp)⟩
      intro alive
      rw [dead] at alive
      cases alive
    · unfold RetrievalSearch.get
      rw [found]

theorem Pooled.svc (pooled : s.Pooled queued) (i : Nat) :
    ∃ rest, (s.svc i).Pooled rest ∧ (s.svc i).taken ++ rest = s.taken ++ queued := by
  have fewer : s.taskList.alive = true → s.cond.Covers (queued.length - 1) :=
    fun alive => (pooled.covers alive).mono (Nat.sub_le _ _)
  unfold RetrievalSearch.svc
  split
  · rename_i here
    have arrives := (pooled.moves (i := i) (by simp [here]) (t := .atBarrier) (by simp) (by simp)).aside_arrive
    exact ⟨queued, arrives.1, by rw [arrives.2]⟩
  · rename_i here
    apply pooled_get (List.getElem?_eq_some_iff.mp here).1 pooled.list pooled.parties _ fewer
      pooled.flushed pooled.sound
    intro j
    rw [pooled.inWait]
    constructor
    · intro waits
      refine ⟨?_, waits⟩
      rintro rfl
      rw [here] at waits
      cases waits
    · exact fun both => both.2
  · rename_i here
    by_cases ready : i ∈ s.cond.ready
    · obtain ⟨cond, runs, same, perm⟩ := CondVar.resume_idxOf ready
      rw [runs]
      have nodup := perm.nodup_iff.mp pooled.parties
      have out := (List.nodup_cons.mp nodup).1
      apply pooled_get (s := { s with cond }) (List.getElem?_eq_some_iff.mp here).1 pooled.list
        (List.nodup_cons.mp nodup).2 _ (fun alive => (pooled.covers alive).resume runs)
        (fun dead => same.trans (pooled.flushed dead)) pooled.sound
      intro j
      rw [← pooled.inWait, perm.mem_iff, List.mem_cons]
      constructor
      · intro inside
        exact ⟨fun is => out (is ▸ inside), Or.inr inside⟩
      · rintro ⟨other, is | inside⟩
        · exact absurd is other
        · exact inside
    · rw [CondVar.resume_idxOf_of_not_mem ready]
      exact ⟨queued, pooled, rfl⟩
  · rename_i here
    exact ⟨queued, pooled.moves (by simp [here]) (by simp) (by simp), rfl⟩
  · exact ⟨queued, pooled, rfl⟩

theorem Pooled.put (pooled : s.Pooled queued) {worker : T} (off : ¬ s.taskList.Linked worker) (wake : Nat) :
    (s.put worker wake).Pooled (queued ++ if s.taskList.alive then [worker] else []) := by
  have linked := (pooled.list.linked_iff worker).not.mp off
  have list := pooled.list.put linked
  have perm := s.cond.signal_parties wake
  have alive : (s.taskList.put worker).alive = s.taskList.alive := by
    rw [list.alive, Deque.step]
    split <;> rfl
  refine ⟨?_, perm.nodup_iff.mpr pooled.parties, ?_, ?_, ?_, pooled.sound⟩
  · show (s.taskList.put worker).Represents _
    rw [Deque.step] at list
    cases on : s.taskList.alive with
    | true => simpa [RetrievalSearch.put, alive, on] using list
    | false => simpa [RetrievalSearch.put, alive, on] using list
  · intro i
    exact perm.mem_iff.trans (pooled.inWait i)
  · intro on
    have before : s.taskList.alive = true := alive.symm.trans on
    rw [if_pos before, List.length_append]
    exact (pooled.covers before).signal wake
  · intro dead
    have none_ := pooled.flushed (alive.symm.trans dead)
    show (s.cond.signal wake).waiting = []
    rw [CondVar.signal_of_none_waiting none_, none_]

end Pooled

theorem Pooled.step [DecidableEq T] {s : RetrievalSearch T} {queued : List T} (pooled : s.Pooled queued)
    (constructed : s.main = .constructed → s.threads = []) {e : Event T} (allowed : s.Allowed e) :
    ∃ rest, (s.step e).Pooled rest ∧ (s.step e).taken ++ rest = s.taken ++ queued ++ s.puts e := by
  have aside : s.Aside (s.step e) queued → s.puts e = [] →
      ∃ rest, (s.step e).Pooled rest ∧ (s.step e).taken ++ rest = s.taken ++ queued ++ s.puts e := by
    rintro ⟨kept, same⟩ none_
    exact ⟨queued, kept, by rw [same, none_, List.append_nil]⟩
  have still : s.Aside s queued := ⟨pooled, rfl⟩
  cases e with
  | openPool call =>
      apply aside _ rfl
      rw [RetrievalSearch.step]
      split
      · rename_i start
        exact pooled.aside_openPool (constructed start) call
      · exact still
  | activate =>
      apply aside _ rfl
      rw [RetrievalSearch.step]
      split
      · exact (pooled.aside_main .activating).1.aside_arrive
      · exact still
  | deactivate =>
      apply aside _ rfl
      rw [RetrievalSearch.step]
      split
      · exact ⟨pooled.deactivate, rfl⟩
      · exact still
  | join =>
      apply aside _ rfl
      rw [RetrievalSearch.step]
      split
      · exact pooled.aside_join _
      · exact still
  | put worker wake => exact ⟨_, pooled.put allowed wake, (List.append_assoc _ _ _).symm⟩
  | svc i =>
      have same : s.puts (.svc i) = [] := rfl
      rw [same, List.append_nil]
      exact pooled.svc i
  | spurious wake => exact aside ⟨pooled.spurious wake, rfl⟩ rfl

end RetrievalSearch

/-! ## The barrier -/

def Svc.waitsAtBarrier {T : Type} : Svc T → Bool
  | .atBarrier => true
  | _ => false

namespace RetrievalSearch

variable {T : Type}

/-- The barrier is closed.  `main` is `extra` of those that wait there. -/
structure AtGate (s : RetrievalSearch T) (b : Barrier) (extra : Nat) : Prop where
  barrier : s.barrier = some b
  before : ∀ t ∈ s.threads, t = .created ∨ t = .atBarrier
  arrived : b.arrived = s.threads.countP Svc.waitsAtBarrier + extra
  closed : b.arrived < b.count
  room : s.threads.length + 1 ≤ b.count

/-- The barrier has let the threads go. -/
def Released (s : RetrievalSearch T) : Prop :=
  ∀ t ∈ s.threads, t ≠ .created ∧ t ≠ .atBarrier

/-- What `main` knows of its threads. -/
def Stage (s : RetrievalSearch T) : Prop :=
  match s.main with
  | .constructed => s.threads = [] ∧ s.barrier = none
  | .opened _ => (s.threads = [] ∧ s.barrier = none) ∨ ∃ b, s.AtGate b 0
  | .activating => ∃ b, s.AtGate b 1
  | .active => s.Released
  | .joining _ | .joined => s.Released ∧ s.taskList.alive = false
  | .undefined => s.threads = []

theorem created_le (fails : Nat → Bool) (threadNum : Nat) : created fails threadNum ≤ threadNum := by
  have := (List.takeWhile_sublist (l := List.range threadNum) fun i => !fails i).length_le
  simpa [created] using this

/-- A thread that arrives first counts as waiting. -/
theorem countP_set {threads : List (Svc T)} {i : Nat} (here : threads[i]? = some .created) :
    (threads.set i .atBarrier).countP Svc.waitsAtBarrier = threads.countP Svc.waitsAtBarrier + 1 := by
  induction threads generalizing i with
  | nil => simp at here
  | cons t threads ih =>
      cases i with
      | zero =>
          obtain rfl : t = .created := by simpa using here
          rw [List.set_cons_zero, List.countP_cons_of_pos rfl, List.countP_cons_of_neg (by simp [Svc.waitsAtBarrier])]
      | succ i =>
          have later := ih (i := i) (by simpa using here)
          rw [List.set_cons_succ, List.countP_cons, List.countP_cons, later]
          omega

theorem AtGate.before_set {s : RetrievalSearch T} {b : Barrier} {extra : Nat} (gate : s.AtGate b extra)
    {i : Nat} : ∀ t ∈ s.threads.set i .atBarrier, t = .created ∨ t = .atBarrier := by
  intro t inside
  rcases List.mem_or_eq_of_mem_set inside with old | new
  · exact gate.before t old
  · exact Or.inr new

/-- The barrier opens to the last one, and then all of them were there. -/
theorem released_of_all {threads : List (Svc T)} (before : ∀ t ∈ threads, t = .created ∨ t = .atBarrier)
    (all : threads.length ≤ threads.countP Svc.waitsAtBarrier) :
    ∀ t ∈ threads.map leaveBarrier, t ≠ .created ∧ t ≠ .atBarrier := by
  have full : threads.countP Svc.waitsAtBarrier = threads.length :=
    Nat.le_antisymm List.countP_le_length all
  intro t inside
  obtain ⟨old, there, rfl⟩ := List.mem_map.mp inside
  have waits := List.countP_eq_length.mp full old there
  rcases before old there with rfl | rfl
  · cases waits
  · simp [leaveBarrier]

theorem arrive_last {s : RetrievalSearch T} {b : Barrier} (barrier : s.barrier = some b)
    (last : b.arrived + 1 = b.count) :
    s.arrive = { s with
      threads := s.threads.map leaveBarrier
      main := if s.main = .activating then .active else s.main
      barrier := some { b with arrived := 0 } } := by
  unfold RetrievalSearch.arrive
  rw [barrier]
  exact if_pos last

theorem arrive_early {s : RetrievalSearch T} {b : Barrier} (barrier : s.barrier = some b)
    (early : b.arrived + 1 ≠ b.count) :
    s.arrive = { s with barrier := some { b with arrived := b.arrived + 1 } } := by
  unfold RetrievalSearch.arrive
  rw [barrier]
  exact if_neg early

/-- `main` arrives. -/
theorem AtGate.activate {s : RetrievalSearch T} {b : Barrier} (gate : s.AtGate b 0) :
    (s.activate.main = .active ∧ s.activate.Released ∧ b.count = s.threads.length + 1) ∨
      (s.activate.main = .activating ∧ s.activate.threads = s.threads ∧
        s.activate.AtGate { b with arrived := b.arrived + 1 } 1) := by
  have counted := gate.arrived
  have some_ := gate.room
  have few : s.threads.countP Svc.waitsAtBarrier ≤ s.threads.length := List.countP_le_length
  by_cases last : b.arrived + 1 = b.count
  · rw [RetrievalSearch.activate, arrive_last (s := { s with main := .activating }) gate.barrier last]
    have all : s.threads.length ≤ s.threads.countP Svc.waitsAtBarrier := by omega
    exact Or.inl ⟨by simp, released_of_all gate.before all, by omega⟩
  · rw [RetrievalSearch.activate, arrive_early (s := { s with main := .activating }) gate.barrier last]
    refine Or.inr ⟨rfl, rfl, rfl, gate.before, ?_, ?_, gate.room⟩
    · show b.arrived + 1 = s.threads.countP Svc.waitsAtBarrier + 1
      omega
    · have := gate.closed
      show b.arrived + 1 < b.count
      omega

/-- A thread arrives. -/
theorem AtGate.thread {s : RetrievalSearch T} {b : Barrier} {extra : Nat} (gate : s.AtGate b extra)
    (main : extra = 0 ∨ (extra = 1 ∧ s.main = .activating)) {i : Nat}
    (here : s.threads[i]? = some .created) :
    let s' := arrive { s with threads := s.threads.set i .atBarrier }
    (s.main = .activating ∧ s'.main = .active ∧ s'.Released ∧ b.count = s.threads.length + 1) ∨
      (s'.main = s.main ∧ s'.threads = s.threads.set i .atBarrier ∧
        s'.AtGate { b with arrived := b.arrived + 1 } extra) := by
  dsimp only
  have counted := gate.arrived
  have room := gate.room
  have more := countP_set here
  have few : (s.threads.set i .atBarrier).countP Svc.waitsAtBarrier ≤ s.threads.length := by
    have := List.countP_le_length (p := Svc.waitsAtBarrier) (l := s.threads.set i .atBarrier)
    rwa [List.length_set] at this
  by_cases last : b.arrived + 1 = b.count
  · rw [arrive_last (s := { s with threads := s.threads.set i .atBarrier }) gate.barrier last]
    rcases main with rfl | ⟨rfl, activating⟩
    · omega
    · have all : (s.threads.set i .atBarrier).length ≤
          (s.threads.set i .atBarrier).countP Svc.waitsAtBarrier := by
        rw [List.length_set]
        omega
      exact Or.inl ⟨activating, by simp [activating], released_of_all gate.before_set all, by omega⟩
  · rw [arrive_early (s := { s with threads := s.threads.set i .atBarrier }) gate.barrier last]
    refine Or.inr ⟨rfl, rfl, rfl, gate.before_set, ?_, ?_, ?_⟩
    · show b.arrived + 1 = (s.threads.set i .atBarrier).countP Svc.waitsAtBarrier + extra
      omega
    · have := gate.closed
      show b.arrived + 1 < b.count
      omega
    · show (s.threads.set i .atBarrier).length + 1 ≤ b.count
      rw [List.length_set]
      exact room

/-- Before the barrier a thread does nothing else. -/
theorem AtGate.svc [DecidableEq T] {s : RetrievalSearch T} {b : Barrier} {extra : Nat}
    (gate : s.AtGate b extra) (i : Nat) :
    (s.svc i = s ∧ s.threads[i]? ≠ some .created) ∨ (s.threads[i]? = some .created ∧
      s.svc i = arrive { s with threads := s.threads.set i .atBarrier }) := by
  unfold RetrievalSearch.svc
  cases here : s.threads[i]? with
  | none => exact Or.inl ⟨rfl, by simp⟩
  | some t =>
      rcases gate.before t (List.mem_of_getElem? here) with rfl | rfl
      · exact Or.inr ⟨rfl, rfl⟩
      · exact Or.inl ⟨rfl, by simp⟩

theorem alive_get [DecidableEq T] (t : WaitList T) : t.get.2.alive = t.alive := by
  unfold WaitList.get WaitList.take
  split
  · rfl
  · split
    · split <;> rfl
    · rfl

/-- What a turn at `get` leaves alone. -/
theorem get_frame [DecidableEq T] (s : RetrievalSearch T) (i : Nat) :
    (s.get i).main = s.main ∧ (s.get i).barrier = s.barrier ∧
      (s.get i).taskList.alive = s.taskList.alive ∧
      ∃ t, t ≠ .created ∧ t ≠ .atBarrier ∧ (s.get i).threads = s.threads.set i t := by
  have alive := alive_get s.taskList
  unfold RetrievalSearch.get
  split <;> rename_i found <;> rw [found] at alive
  · exact ⟨rfl, rfl, alive, .inWait, by simp, by simp, rfl⟩
  · exact ⟨rfl, rfl, alive, .searching _, by simp, by simp, rfl⟩
  · exact ⟨rfl, rfl, alive, .finished, by simp, by simp, rfl⟩
  · exact ⟨rfl, rfl, alive, .crashed, by simp, by simp, rfl⟩

theorem Released.set {s : RetrievalSearch T} (released : s.Released) {i : Nat} {t : Svc T}
    (started : t ≠ .created) (through : t ≠ .atBarrier) {threads : List (Svc T)}
    (same : threads = s.threads.set i t) : ∀ t ∈ threads, t ≠ .created ∧ t ≠ .atBarrier := by
  intro u inside
  rw [same] at inside
  rcases List.mem_or_eq_of_mem_set inside with old | rfl
  · exact released u old
  · exact ⟨started, through⟩

/-- Behind the barrier. -/
theorem Released.svc [DecidableEq T] {s : RetrievalSearch T} (released : s.Released) (i : Nat) :
    (s.svc i).main = s.main ∧ (s.svc i).taskList.alive = s.taskList.alive ∧ (s.svc i).Released := by
  have gets : ∀ cond, (get { s with cond } i).main = s.main ∧
      (get { s with cond } i).taskList.alive = s.taskList.alive ∧ (get { s with cond } i).Released := by
    intro cond
    obtain ⟨main, -, alive, t, started, through, same⟩ := get_frame { s with cond } i
    exact ⟨main, alive, released.set started through same⟩
  unfold RetrievalSearch.svc
  split
  · rename_i here
    exact absurd rfl (released _ (List.mem_of_getElem? here)).1
  · exact gets s.cond
  · split
    · exact ⟨rfl, rfl, released⟩
    · exact gets _
  · exact ⟨rfl, rfl, released.set (t := .atGet) (by simp) (by simp) rfl⟩
  · exact ⟨rfl, rfl, released⟩

theorem AtGate.same {s s' : RetrievalSearch T} {b : Barrier} {extra : Nat} (gate : s.AtGate b extra)
    (threads : s'.threads = s.threads) (barrier : s'.barrier = s.barrier) : s'.AtGate b extra := by
  refine ⟨barrier.trans gate.barrier, ?_, ?_, gate.closed, ?_⟩ <;> rw [threads]
  · exact gate.before
  · exact gate.arrived
  · exact gate.room

/-- Nothing but `main`, the threads and the barrier matters, and that the list stays dead. -/
theorem Stage.same {s s' : RetrievalSearch T} (stage : s.Stage) (main : s'.main = s.main)
    (threads : s'.threads = s.threads) (barrier : s'.barrier = s.barrier)
    (dead : s.taskList.alive = false → s'.taskList.alive = false) : s'.Stage := by
  unfold Stage at stage ⊢
  have released : s.Released → s'.Released := by
    intro released
    rw [Released, threads]
    exact released
  rw [main, threads, barrier]
  cases is : s.main <;> rw [is] at stage
  case constructed => exact stage
  case opened ret => exact stage.imp id fun ⟨b, gate⟩ => ⟨b, gate.same threads barrier⟩
  case activating =>
      obtain ⟨b, gate⟩ := stage
      exact ⟨b, gate.same threads barrier⟩
  case active => exact released stage
  case joining i => exact ⟨released stage.1, dead stage.2⟩
  case joined => exact ⟨released stage.1, dead stage.2⟩
  case undefined => exact stage

theorem stage_openPool {s : RetrievalSearch T} (none_ : s.threads = []) (barrier : s.barrier = none)
    (call : OpenCall) : (s.openPool call).Stage := by
  unfold openPool
  split
  · exact Or.inl ⟨none_, barrier⟩
  · split
    · exact Or.inl ⟨none_, barrier⟩
    · refine Or.inr ⟨_, rfl, ?_, ?_, Nat.succ_pos _, ?_⟩
      · intro t inside
        exact Or.inl (List.eq_of_mem_replicate inside)
      · simp [List.countP_replicate, Svc.waitsAtBarrier]
      · simpa using created_le call.fails call.threadNum

theorem Stage.svc [DecidableEq T] {s : RetrievalSearch T} (stage : s.Stage) (i : Nat) : (s.svc i).Stage := by
  have idle : s.threads = [] → s.svc i = s := by
    intro none_
    simp [RetrievalSearch.svc, none_]
  have gated : ∀ {b extra}, s.AtGate b extra →
      ((extra = 0 ∧ ∃ ret, s.main = .opened ret) ∨ (extra = 1 ∧ s.main = .activating)) →
      (s.svc i).Stage := by
    intro b extra gate main
    rcases gate.svc i with ⟨same, -⟩ | ⟨here, same⟩
    · rw [same]
      exact stage
    · rw [same]
      rcases gate.thread (main.imp And.left id) here with ⟨-, active, released, -⟩ | ⟨main', -, gate'⟩
      · unfold Stage
        rw [active]
        exact released
      · unfold Stage
        rcases main with ⟨rfl, ret, is⟩ | ⟨rfl, is⟩ <;> rw [main'.trans is]
        · exact Or.inr ⟨_, gate'⟩
        · exact ⟨_, gate'⟩
  have before := stage
  unfold Stage at stage
  split at stage <;> rename_i is
  · rw [idle stage.1]
    exact before
  · rcases stage with ⟨none_, -⟩ | ⟨b, gate⟩
    · rw [idle none_]
      exact before
    · exact gated gate (Or.inl ⟨rfl, _, is⟩)
  · obtain ⟨b, gate⟩ := stage
    exact gated gate (Or.inr ⟨rfl, is⟩)
  · obtain ⟨main, -, released⟩ := Released.svc stage i
    unfold Stage
    rw [main, is]
    exact released
  · obtain ⟨main, alive, released⟩ := Released.svc stage.1 i
    unfold Stage
    rw [main, is]
    exact ⟨released, alive.trans stage.2⟩
  · obtain ⟨main, alive, released⟩ := Released.svc stage.1 i
    unfold Stage
    rw [main, is]
    exact ⟨released, alive.trans stage.2⟩
  · rw [idle stage]
    exact before

theorem Stage.step [DecidableEq T] {s : RetrievalSearch T} (stage : s.Stage) (e : Event T) :
    (s.step e).Stage := by
  cases e with
  | openPool call =>
      rw [RetrievalSearch.step]
      split
      · rename_i is
        unfold Stage at stage
        rw [is] at stage
        exact stage_openPool stage.1 stage.2 call
      · exact stage
  | activate =>
      rw [RetrievalSearch.step]
      split
      · rename_i ret is
        unfold Stage at stage
        rw [is] at stage
        rcases stage with ⟨none_, barrier⟩ | ⟨b, gate⟩
        · simpa [RetrievalSearch.activate, RetrievalSearch.arrive, barrier, Stage] using none_
        · rcases gate.activate with ⟨active, released, -⟩ | ⟨activating, -, gate'⟩ <;> unfold Stage
          · rw [active]
            exact released
          · rw [activating]
            exact ⟨_, gate'⟩
      · exact stage
  | deactivate =>
      rw [RetrievalSearch.step]
      split
      · rename_i is
        unfold Stage at stage
        rw [is] at stage
        exact ⟨stage, rfl⟩
      · exact stage
  | join =>
      rw [RetrievalSearch.step]
      split
      · rename_i i is
        have stopped := stage
        unfold Stage at stopped
        rw [is] at stopped
        unfold RetrievalSearch.join
        split
        · exact stopped
        · exact stopped
        · exact stage
      · exact stage
  | put worker wake =>
      have dead : s.taskList.alive = false → (s.taskList.put worker).alive = false := by
        intro dead
        simp [WaitList.put, dead]
      exact stage.same rfl rfl rfl dead
  | svc i => exact stage.svc i
  | spurious wake => exact stage.same rfl rfl rfl id

/-! ## Whole runs -/

variable [DecidableEq T]

/-- What holds in every state of the pool. -/
structure Searches (s : RetrievalSearch T) (queued : List T) : Prop where
  stage : s.Stage
  pooled : s.Pooled queued

theorem searches_construct (next prev : LinkedListNode T → LinkedListNode T) :
    (construct next prev).Searches [] := by
  refine ⟨⟨rfl, rfl⟩, WaitList.create_represents next prev, List.nodup_nil, ?_, ?_, ?_, ?_⟩
  · simp [construct, CondVar.parties]
  · exact fun _ => CondVar.covers_zero _
  · exact fun _ => rfl
  · simp [construct]

theorem Searches.step {s : RetrievalSearch T} {queued : List T} (searches : s.Searches queued) {e : Event T}
    (allowed : s.Allowed e) :
    ∃ rest, (s.step e).Searches rest ∧ (s.step e).taken ++ rest = s.taken ++ queued ++ s.puts e := by
  have constructed : s.main = .constructed → s.threads = [] := by
    intro is
    have stage := searches.stage
    unfold Stage at stage
    rw [is] at stage
    exact stage.1
  obtain ⟨rest, pooled, accounted⟩ := searches.pooled.step constructed allowed
  exact ⟨rest, ⟨searches.stage.step e, pooled⟩, accounted⟩

theorem searches_run {s : RetrievalSearch T} {queued : List T} (searches : s.Searches queued)
    {es : List (Event T)} (allowed : Along step Allowed s es) :
    ∃ rest, (run step s es).Searches rest ∧
      (run step s es).taken ++ rest = s.taken ++ queued ++ s.accepted es := by
  induction es generalizing s queued with
  | nil => exact ⟨queued, searches, by simp [accepted]⟩
  | cons e es ih =>
      obtain ⟨between, searches', accounted⟩ := searches.step allowed.1
      obtain ⟨rest, final, accounted'⟩ := ih searches' allowed.2
      refine ⟨rest, final, ?_⟩
      rw [run_cons, accounted', accounted, accepted]
      simp only [List.append_assoc]

theorem allowed_of_no_put (s : RetrievalSearch T) {es : List (Event T)}
    (none_ : ∀ e ∈ es, ∀ worker wake, e ≠ .put worker wake) : Along step Allowed s es := by
  apply along_iff.mpr
  intro past e inside
  have member : e ∈ es := inside.subset (by simp)
  cases e with
  | put worker wake => exact absurd rfl (none_ _ member worker wake)
  | _ => trivial

/-- **The workers are searched in turn, each once.**  In every state of every run: what
`get` has returned to the threads is the beginning of what was put on the list, the rest is
still on it, and as long as it is alive a thread that waits leaves each worker there
to a thread that is already awake. -/
theorem searches_in_turn (next prev : LinkedListNode T → LinkedListNode T) (es : List (Event T))
    (allowed : Along step Allowed (construct next prev) es) :
    let s := run step (construct next prev) es
    Svc.crashed ∉ s.threads ∧
    ∃ queued, s.taken ++ queued = (construct next prev).accepted es ∧
      (∀ worker, s.taskList.Linked worker ↔ worker ∈ queued) ∧
      (s.taskList.alive = true → s.cond.waiting ≠ [] → queued.length ≤ s.cond.ready.length) := by
  intro s
  obtain ⟨queued, searches, accounted⟩ := searches_run (searches_construct next prev) allowed
  refine ⟨searches.pooled.sound, queued, accounted, ?_, searches.pooled.covers⟩
  intro worker
  rw [searches.pooled.list.linked_iff worker]
  exact List.mem_reverse

end RetrievalSearch

/-! ## Poles -/

namespace TwoThreads

open RetrievalSearch

/-- Links that were never set. -/
def unset : LinkedListNode Nat → LinkedListNode Nat := fun _ => .node 7

/-- A worker is there before the two threads are; the first takes it and the second waits. -/
def searching : List (Event Nat) :=
  [.put 7 0, .openPool { threadNum := 2 }, .svc 1, .svc 0, .activate, .svc 0, .svc 1]

theorem searching_allowed (es : List (Event Nat)) (none_ : ∀ e ∈ es, ∀ worker wake, e ≠ .put worker wake) :
    Along step Allowed (construct unset unset) (.put 7 0 :: es) := by
  refine ⟨?_, allowed_of_no_put _ none_⟩
  intro linked
  simpa using ((WaitList.create_represents unset unset).linked_iff 7).mp linked

theorem searches_in_turn_two :
    let s := run step (construct unset unset) searching
    s.taken = [7] ∧ s.cond.waiting = [1] ∧
    Svc.crashed ∉ s.threads ∧
    ∃ queued, s.taken ++ queued = (construct unset unset).accepted searching ∧
      (∀ worker, s.taskList.Linked worker ↔ worker ∈ queued) ∧
      (s.taskList.alive = true → s.cond.waiting ≠ [] → queued.length ≤ s.cond.ready.length) :=
  ⟨by decide, by decide, searches_in_turn unset unset searching (searching_allowed _ (by simp))⟩

end TwoThreads

end RecommEngine.Retrieval
