/-
# Util.QueueWakeup -- the threads that wait for the queue

`Put` waits on `put_cond_t_` while the queue is full, `Get` on `get_cond_t_`
while it is empty.  Every put signals one getter and every get one putter.  A
`QueueMonitor` is the queue with the two condition variables; an event is one
critical section, run by a thread that enters a call or resumes a waiting one,
together with the clock readings and the choice of the thread it wakes.

The invariant is `CondVar.Covers` twice: ready putters cover the free slots,
ready getters the items.  A get that throws several expired items away frees
several slots and wakes one putter, so the first half holds as long as no such
get happens while two or more putters wait (`OneAtATime`, `no_lost_wakeup`); the
pole `TwoPutters` is a putter that sleeps beside a free slot.
-/
import RecommEngine.Theory.CondVar
import RecommEngine.Theory.Run
import RecommEngine.Util.ProducerConsumerQueue

namespace RecommEngine.Util

set_option autoImplicit false

open Theory Theory.Run ProducerConsumerQueue

/-- A thread inside `Put`, with its arguments. -/
structure PutThread (α : Type) where
  thread : Nat
  item : α
  timeout : Int64
  deriving DecidableEq

structure QueueMonitor (α : Type) where
  queue : ProducerConsumerQueue α
  putCond : CondVar (PutThread α) := {}
  getCond : CondVar Nat := {}

inductive MonitorEvent (α : Type) where
  | put (call : PutThread α) (now : Int64) (wake : Nat)
  | resumePut (i : Nat) (now : Int64) (wake : Nat)
  | tryPut (item : α) (timeout now : Int64) (wake : Nat)
  | forcePut (item : α) (timeout now : Int64) (wake : Nat)
  | get (thread : Nat) (clock : Nat → Int64) (wake : Nat)
  | resumeGet (i : Nat) (clock : Nat → Int64) (wake : Nat)
  | tryGet (clock : Nat → Int64) (wake : Nat)

namespace QueueMonitor

variable {α : Type}

/-! ## The calls -/

/-- `TryPutInternal`, which signals whether or not it has stored the item. -/
def tryPut (s : QueueMonitor α) (item : α) (timeout now : Int64) (wake : Nat) : QueueMonitor α :=
  { s with
    queue := (s.queue.tryPutInternal item timeout now).2
    getCond := s.getCond.signal wake }

/-- A thread at the loop condition of `Put`. -/
def put (s : QueueMonitor α) (call : PutThread α) (now : Int64) (wake : Nat) : QueueMonitor α :=
  if s.queue.capacity ≤ s.queue.que.length then { s with putCond := s.putCond.wait call }
  else s.tryPut call.item call.timeout now wake

def forcePut (s : QueueMonitor α) (item : α) (timeout now : Int64) (wake : Nat) : QueueMonitor α :=
  { s with
    queue := s.queue.forcePutInternal item timeout now
    getCond := s.getCond.signal wake }

/-- `TryGetInternal`, which signals whether or not it has found an item. -/
def tryGet (s : QueueMonitor α) (clock : Nat → Int64) (wake : Nat) : Bool × QueueMonitor α :=
  ((s.queue.tryGetInternal clock).1.isSome,
    { s with
      queue := (s.queue.tryGetInternal clock).2
      putCond := s.putCond.signal wake })

/-- A thread at the loop condition of `Get`. -/
def get (s : QueueMonitor α) (thread : Nat) (clock : Nat → Int64) (wake : Nat) : QueueMonitor α :=
  match s.tryGet clock wake with
  | (true, s) => s
  | (false, s) => { s with getCond := s.getCond.wait thread }

def step (s : QueueMonitor α) : MonitorEvent α → QueueMonitor α
  | .put call now wake => s.put call now wake
  | .resumePut i now wake =>
      match s.putCond.resume i with
      | none => s
      | some (call, putCond) => { s with putCond := putCond }.put call now wake
  | .tryPut item timeout now wake => s.tryPut item timeout now wake
  | .forcePut item timeout now wake => s.forcePut item timeout now wake
  | .get thread clock wake => s.get thread clock wake
  | .resumeGet i clock wake =>
      match s.getCond.resume i with
      | none => s
      | some (thread, getCond) => { s with getCond := getCond }.get thread clock wake
  | .tryGet clock wake => (s.tryGet clock wake).2

/-- The monitor of a new queue. -/
def new (capacity : Nat) (defaultTimeout : Int64) : QueueMonitor α :=
  { queue := ⟨capacity, defaultTimeout, []⟩ }

/-! ## Wake-ups -/

/-- A thread that could go on is ready to. -/
def NoneForgotten (s : QueueMonitor α) : Prop :=
  (s.putCond.waiting ≠ [] → s.queue.que.length < s.queue.capacity → s.putCond.ready ≠ []) ∧
    (s.getCond.waiting ≠ [] → s.queue.que ≠ [] → s.getCond.ready ≠ [])

/-- A get does not pop several items while several threads wait inside `Put`: of
two or more items, the oldest has not expired. -/
def OneAtATime (s : QueueMonitor α) : MonitorEvent α → Prop
  | .get _ clock _ | .resumeGet _ clock _ | .tryGet clock _ =>
      s.putCond.waiting.length ≤ 1 ∨ s.queue.que.length ≤ 1 ∨
        ∀ itm ∈ s.queue.que.head?, InnerItem.live itm (clock 0) = true
  | _ => True

/-- Free slots are covered by ready putters, items by ready getters. -/
structure Covered (s : QueueMonitor α) : Prop where
  slots : s.putCond.Covers (s.queue.capacity - s.queue.que.length)
  items : s.getCond.Covers s.queue.que.length

theorem Covered.noneForgotten {s : QueueMonitor α} (covered : Covered s) : NoneForgotten s := by
  constructor
  · intro waits free none
    have := covered.slots waits
    simp [none] at this
    omega
  · intro waits filled none
    have := covered.items waits
    simp [none] at this
    exact filled this

section Steps

variable {s : QueueMonitor α}

/-- A put needs one slot less covered than there are: its own. -/
theorem put_covered (call : PutThread α) (now : Int64) (wake : Nat)
    (slots : s.putCond.Covers (s.queue.capacity - s.queue.que.length - 1))
    (items : s.getCond.Covers s.queue.que.length) : Covered (s.put call now wake) := by
  unfold put
  split
  · rename_i full
    refine ⟨?_, items⟩
    show (s.putCond.wait call).Covers (s.queue.capacity - s.queue.que.length)
    rw [Nat.sub_eq_zero_of_le full]
    exact CondVar.covers_zero _
  · rename_i room
    simp only [tryPut, tryPutInternal, if_neg room]
    constructor
    · simpa [Nat.sub_sub] using slots
    · simpa using items.signal wake

theorem tryPut_covered (covered : Covered s) (item : α) (timeout now : Int64) (wake : Nat) :
    Covered (s.tryPut item timeout now wake) := by
  unfold tryPut tryPutInternal
  split
  · exact ⟨covered.slots, (covered.items.signal wake).mono (Nat.le_succ _)⟩
  · refine ⟨covered.slots.mono ?_, ?_⟩
    · simp only [List.length_append, List.length_singleton]
      omega
    · simpa using covered.items.signal wake

theorem forcePut_covered (covered : Covered s) (item : α) (timeout now : Int64) (wake : Nat) :
    Covered (s.forcePut item timeout now wake) := by
  unfold forcePut forcePutInternal
  split
  · rename_i full
    refine ⟨covered.slots.mono ?_, (covered.items.signal wake).mono ?_⟩
    · simp only [List.length_append, List.length_singleton, List.length_tail]
      omega
    · simp only [List.length_append, List.length_singleton, List.length_tail]
      omega
  · refine ⟨covered.slots.mono ?_, ?_⟩
    · simp only [List.length_append, List.length_singleton]
      omega
    · simpa using covered.items.signal wake

/-- One signal is enough for what a get frees. -/
theorem signal_covers_slots (slots : s.putCond.Covers (s.queue.capacity - s.queue.que.length))
    (clock : Nat → Int64) (wake : Nat)
    (one : s.putCond.waiting.length ≤ 1 ∨ s.queue.que.length ≤ 1 ∨
      ∀ itm ∈ s.queue.que.head?, InnerItem.live itm (clock 0) = true) :
    (s.putCond.signal wake).Covers (s.queue.capacity - (popLive clock s.queue.que 0).2.length) := by
  rcases one with few | single
  · exact CondVar.covers_signal_of_length_le_one few wake _
  · have := length_le_popLive single
    exact (slots.signal wake).mono (by omega)

/-- A get needs one item less covered than there are: its own. -/
theorem get_covered (thread : Nat) (clock : Nat → Int64) (wake : Nat)
    (slots : s.putCond.Covers (s.queue.capacity - s.queue.que.length))
    (items : s.getCond.Covers (s.queue.que.length - 1))
    (one : s.putCond.waiting.length ≤ 1 ∨ s.queue.que.length ≤ 1 ∨
      ∀ itm ∈ s.queue.que.head?, InnerItem.live itm (clock 0) = true) :
    Covered (s.get thread clock wake) := by
  have free := signal_covers_slots slots clock wake one
  unfold get tryGet tryGetInternal
  rcases found : (popLive clock s.queue.que 0).1.isSome with _ | _
  · refine ⟨free, ?_⟩
    show (s.getCond.wait thread).Covers (popLive clock s.queue.que 0).2.length
    rw [popLive_of_none found]
    exact CondVar.covers_zero _
  · have := length_popLive_of_some found
    exact ⟨free, items.mono (show (popLive clock s.queue.que 0).2.length ≤ _ by omega)⟩

theorem tryGet_covered (covered : Covered s) (clock : Nat → Int64) (wake : Nat)
    (one : s.putCond.waiting.length ≤ 1 ∨ s.queue.que.length ≤ 1 ∨
      ∀ itm ∈ s.queue.que.head?, InnerItem.live itm (clock 0) = true) :
    Covered (s.tryGet clock wake).2 := by
  refine ⟨signal_covers_slots covered.slots clock wake one, covered.items.mono ?_⟩
  show (popLive clock s.queue.que 0).2.length ≤ s.queue.que.length
  rcases found : (popLive clock s.queue.que 0).1.isSome with _ | _
  · rw [popLive_of_none found]
    exact Nat.zero_le _
  · exact (length_popLive_of_some found).le

theorem step_covered (e : MonitorEvent α) (covered : Covered s) (one : OneAtATime s e) :
    Covered (step s e) := by
  obtain ⟨slots, items⟩ := covered
  cases e with
  | put call now wake => exact put_covered call now wake (slots.mono (Nat.sub_le _ _)) items
  | resumePut i now wake =>
      rw [step]
      rcases runs : s.putCond.resume i with _ | ⟨call, putCond⟩
      · exact ⟨slots, items⟩
      · exact put_covered call now wake (slots.resume runs) items
  | tryPut item timeout now wake => exact tryPut_covered ⟨slots, items⟩ item timeout now wake
  | forcePut item timeout now wake => exact forcePut_covered ⟨slots, items⟩ item timeout now wake
  | get thread clock wake => exact get_covered thread clock wake slots (items.mono (Nat.sub_le _ _)) one
  | resumeGet i clock wake =>
      rw [step]
      rcases runs : s.getCond.resume i with _ | ⟨thread, getCond⟩
      · exact ⟨slots, items⟩
      · exact get_covered thread clock wake slots (items.resume runs) one
  | tryGet clock wake => exact tryGet_covered ⟨slots, items⟩ clock wake one

end Steps

/-- **No wake-up is lost** in a run whose gets never pop several items while
several threads wait inside `Put`: in every state of it, a thread that waits
beside a free slot or an item is not the only one that could look at it. -/
theorem no_lost_wakeup (capacity : Nat) (defaultTimeout : Int64) (es : List (MonitorEvent α))
    (one : Along step OneAtATime (new capacity defaultTimeout) es) :
    ∀ past, past <+: es → NoneForgotten (run step (new capacity defaultTimeout) past) := by
  rintro past ⟨rest, rfl⟩
  apply Covered.noneForgotten
  apply Along.invariant (I := Covered) (fun s e => step_covered e) _ (Along.append.mp one).1
  exact ⟨fun waits => absurd rfl waits, fun waits => absurd rfl waits⟩

end QueueMonitor

/-! ## Poles

A queue of two slots, filled by threads 1 and 2 with items that expire after
five microseconds.  Threads 3 and 4 wait inside `Put`. -/

namespace TwoPutters

open QueueMonitor

instance (s : QueueMonitor Nat) : Decidable (NoneForgotten s) := by
  unfold NoneForgotten
  have : Decidable (s.queue.que = []) := decidable_of_iff (s.queue.que.isEmpty) List.isEmpty_iff
  infer_instance

def waiting : List (MonitorEvent Nat) :=
  [.put ⟨1, 10, 5⟩ 0 0, .put ⟨2, 20, 5⟩ 0 0, .put ⟨3, 30, 5⟩ 1 0, .put ⟨4, 40, 5⟩ 1 0]

/-- Thread 5 finds both items expired, and thread 3 uses one of the two slots. -/
def discarding : List (MonitorEvent Nat) :=
  waiting ++ [.get 5 (fun _ => 10) 0, .resumePut 0 11 0]

/-- Thread 4 waits beside a free slot and no thread is ready inside `Put`. -/
theorem putter_forgotten :
    ¬ NoneForgotten (run step (new 2 3000) discarding) ∧
      (run step (new 2 3000) discarding).putCond = ⟨[⟨4, 40, 5⟩], []⟩ ∧
      (run step (new 2 3000) discarding).queue.que.length = 1 := by
  decide

/-- The same with gets that come before the items expire. -/
def delivering : List (MonitorEvent Nat) :=
  waiting ++ [.get 5 (fun _ => 4) 0, .resumePut 0 4 0, .get 5 (fun _ => 4) 0]

theorem putters_remembered :
    Along step OneAtATime (new 2 3000) delivering ∧
      NoneForgotten (run step (new 2 3000) delivering) := by
  have one : Along step OneAtATime (new 2 3000) delivering := by
    simp only [delivering, waiting, List.cons_append, List.nil_append, Along, OneAtATime]
    decide
  exact ⟨one, no_lost_wakeup 2 3000 delivering one delivering (List.prefix_refl _)⟩

end TwoPutters

end RecommEngine.Util
