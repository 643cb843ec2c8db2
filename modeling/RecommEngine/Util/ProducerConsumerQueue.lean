/-
# Util.ProducerConsumerQueue -- the bounded queue with timeouts

The critical sections of `util::ProducerConsumerQueue`, each run under the
queue's mutex.  `CurrentTimeInUs` readings are arguments: one for a put, and one
per inspected item for a get, which discards items that waited too long.

`popLive_spec` says what a get pops.  An item put with `TIMEOUT_NONE` is never
discarded, so a queue that only holds
such items (`Untimed`) is a plain bounded FIFO queue: `mem_tryPut`,
`Untimed.tryGet_some`.
-/
import Mathlib

namespace RecommEngine.Util

set_option autoImplicit false

structure InnerItem (α : Type) where
  item : α
  timestamp : Int64
  timeout : Int64

structure ProducerConsumerQueue (α : Type) where
  capacity : Nat
  defaultTimeout : Int64 := 3000
  que : List (InnerItem α) := []

namespace ProducerConsumerQueue

variable {α : Type}

def timeoutNone : Int64 := 0

def timeoutUseDefault : Int64 := -1

/-! ## The critical sections -/

/-- The item that a put stores. -/
def innerItem (q : ProducerConsumerQueue α) (item : α) (timeout now : Int64) : InnerItem α :=
  ⟨item, now, if timeout = timeoutUseDefault then q.defaultTimeout else timeout⟩

def tryPutInternal (q : ProducerConsumerQueue α) (item : α) (timeout now : Int64) :
    Bool × ProducerConsumerQueue α :=
  if q.capacity ≤ q.que.length then (false, q)
  else (true, { q with que := q.que ++ [q.innerItem item timeout now] })

/-- A full queue loses its oldest item. -/
def forcePutInternal (q : ProducerConsumerQueue α) (item : α) (timeout now : Int64) :
    ProducerConsumerQueue α :=
  let que := if q.capacity ≤ q.que.length then q.que.tail else q.que
  { q with que := que ++ [q.innerItem item timeout now] }

/-- The item has no timeout or has not waited longer than it. -/
def InnerItem.live (itm : InnerItem α) (now : Int64) : Bool :=
  itm.timeout = timeoutNone ∨ now ≤ itm.timestamp + itm.timeout

/-- Pop until an item is live; the `i`-th popped item is checked at `clock i`. -/
def popLive (clock : Nat → Int64) : List (InnerItem α) → Nat → Option α × List (InnerItem α)
  | [], _ => (none, [])
  | itm :: que, i => if InnerItem.live itm (clock i) then (some itm.item, que)
      else popLive clock que (i + 1)

def tryGetInternal (q : ProducerConsumerQueue α) (clock : Nat → Int64) :
    Option α × ProducerConsumerQueue α :=
  let (item, que) := popLive clock q.que 0
  (item, { q with que := que })

/-- `TryPut` with the default timeout. -/
def tryPut (q : ProducerConsumerQueue α) (item : α) (now : Int64) : Bool × ProducerConsumerQueue α :=
  q.tryPutInternal item timeoutUseDefault now

/-! ## What a get pops -/

/-- The item has a timeout and has waited longer, as the integers say. -/
def InnerItem.Expired (itm : InnerItem α) (now : Int64) : Prop :=
  itm.timeout ≠ timeoutNone ∧ itm.timestamp.toInt + itm.timeout.toInt < now.toInt

/-- The item has no timeout, or the end of its time does not wrap around to the past. -/
def InnerItem.Fits (itm : InnerItem α) : Prop :=
  itm.timeout = timeoutNone ∨ itm.timestamp.toInt + itm.timeout.toInt < 2 ^ 63

theorem not_live_iff {itm : InnerItem α} {now : Int64} :
    ¬ InnerItem.live itm now = true ↔
      itm.timeout ≠ timeoutNone ∧
        (itm.timestamp.toInt + itm.timeout.toInt).bmod (2 ^ 64) < now.toInt := by
  simp [InnerItem.live, Int64.lt_iff_toInt_lt, Int64.toInt_add]

/-- A get discards an item only after its time exactly if the item fits. -/
theorem fits_iff {itm : InnerItem α} :
    InnerItem.Fits itm ↔ ∀ now, ¬ InnerItem.live itm now = true → InnerItem.Expired itm now := by
  simp only [not_live_iff]
  have stampLt := itm.timestamp.toInt_lt
  have leStamp := itm.timestamp.le_toInt
  have outLt := itm.timeout.toInt_lt
  have leOut := itm.timeout.le_toInt
  constructor
  · rintro (never | fits) now ⟨timed, late⟩
    · exact absurd never timed
    · have leNow := now.le_toInt
      refine ⟨timed, ?_⟩
      rw [Int.bmod_def] at late
      split at late <;> omega
  · intro right
    by_contra wraps
    rw [InnerItem.Fits, not_or] at wraps
    obtain ⟨timed, wraps⟩ := wraps
    -- the end of its time is read as one before 0
    obtain ⟨-, late⟩ := right 0 ⟨timed, by
      rw [Int.bmod_def, Int64.toInt_zero]
      split <;> omega⟩
    rw [Int64.toInt_zero] at late
    omega

/-- A get drops dead items from the front and hands out the first live one; if
there is none the queue is left empty. -/
theorem popLive_spec (clock : Nat → Int64) (que : List (InnerItem α)) (i : Nat) :
    ∃ dead, (∀ j d, dead[j]? = some d → ¬ InnerItem.live d (clock (i + j)) = true) ∧
      ((∃ itm, que = dead ++ itm :: (popLive clock que i).2 ∧
          (popLive clock que i).1 = some itm.item) ∨
        (que = dead ∧ popLive clock que i = (none, []))) := by
  induction que generalizing i with
  | nil => exact ⟨[], by simp, Or.inr ⟨rfl, rfl⟩⟩
  | cons itm que ih =>
      by_cases live : InnerItem.live itm (clock i) = true
      · exact ⟨[], by simp, Or.inl ⟨itm, by simp [popLive, live]⟩⟩
      · obtain ⟨dead, all, outcome⟩ := ih (i + 1)
        have next : popLive clock (itm :: que) i = popLive clock que (i + 1) := by
          rw [popLive, if_neg live]
        refine ⟨itm :: dead, ?_, ?_⟩
        · intro j d here
          cases j with
          | zero => rwa [← Option.some.inj here]
          | succ j =>
              have := all j d here
              rwa [show i + 1 + j = i + (j + 1) by omega] at this
        · rw [next]
          rcases outcome with ⟨found, same, got⟩ | ⟨same, got⟩
          · exact Or.inl ⟨found, by rw [List.cons_append, ← same], got⟩
          · exact Or.inr ⟨by rw [same], got⟩

theorem length_popLive_of_some {clock : Nat → Int64} {que : List (InnerItem α)} {i : Nat}
    (found : (popLive clock que i).1.isSome) : (popLive clock que i).2.length < que.length := by
  obtain ⟨dead, -, ⟨itm, que', got⟩ | ⟨-, got⟩⟩ := popLive_spec clock que i
  · have := congrArg List.length que'
    simp only [List.length_append, List.length_cons] at this
    omega
  · simp [got] at found

theorem popLive_of_none {clock : Nat → Int64} {que : List (InnerItem α)} {i : Nat}
    (nothing : (popLive clock que i).1.isSome = false) : (popLive clock que i).2 = [] := by
  obtain ⟨dead, -, ⟨itm, -, got⟩ | ⟨-, got⟩⟩ := popLive_spec clock que i
  · simp [got] at nothing
  · rw [got]

/-- A get pops at most one item if there is no other or the first is live. -/
theorem length_le_popLive {clock : Nat → Int64} {que : List (InnerItem α)}
    (one : que.length ≤ 1 ∨ ∀ itm ∈ que.head?, InnerItem.live itm (clock 0) = true) :
    que.length ≤ (popLive clock que 0).2.length + 1 := by
  rcases one with short | live
  · omega
  · cases que with
    | nil => simp
    | cons itm que => simp [popLive, live itm rfl]

/-! ## Queues without timeouts -/

/-- The items in the queue, oldest first. -/
def items (q : ProducerConsumerQueue α) : List α := q.que.map InnerItem.item

/-- Nothing in the queue, and nothing put with the default timeout, ever expires. -/
structure Untimed (q : ProducerConsumerQueue α) : Prop where
  default : q.defaultTimeout = timeoutNone
  all : ∀ itm ∈ q.que, itm.timeout = timeoutNone

theorem untimed_new (capacity : Nat) : Untimed (⟨capacity, timeoutNone, []⟩ : ProducerConsumerQueue α) :=
  ⟨rfl, by simp⟩

/-- A put is accepted exactly if there is room. -/
theorem tryPut_accepted (q : ProducerConsumerQueue α) (item : α) (now : Int64) :
    (q.tryPut item now).1 = true ↔ q.items.length < q.capacity := by
  unfold tryPut tryPutInternal items
  split <;> simp <;> omega

theorem items_tryPut (q : ProducerConsumerQueue α) (item : α) (now : Int64) :
    (q.tryPut item now).2.items =
      if q.items.length < q.capacity then q.items ++ [item] else q.items := by
  unfold tryPut tryPutInternal
  by_cases full : q.capacity ≤ q.que.length
  · simp [items, full, Nat.not_lt.mpr full]
  · simp [items, full, Nat.not_le.mp full, innerItem]

theorem mem_tryPut {q : ProducerConsumerQueue α} {item x : α} {now : Int64} :
    x ∈ (q.tryPut item now).2.items ↔
      x ∈ q.items ∨ (x = item ∧ q.items.length < q.capacity) := by
  rw [items_tryPut]
  split <;> simp_all

theorem Untimed.tryPut {q : ProducerConsumerQueue α} (untimed : Untimed q) (item : α) (now : Int64) :
    Untimed (q.tryPut item now).2 := by
  unfold ProducerConsumerQueue.tryPut tryPutInternal
  split
  · exact untimed
  · refine ⟨untimed.default, ?_⟩
    intro itm inside
    rcases List.mem_append.mp inside with old | new
    · exact untimed.all itm old
    · rw [List.mem_singleton.mp new, innerItem, if_pos rfl]
      exact untimed.default

/-- A get takes the oldest item. -/
theorem Untimed.tryGet_some {q rest : ProducerConsumerQueue α} {clock : Nat → Int64} {item : α}
    (untimed : Untimed q) (got : q.tryGetInternal clock = (some item, rest)) :
    q.items = item :: rest.items ∧ Untimed rest := by
  unfold tryGetInternal at got
  rcases que : q.que with _ | ⟨itm, tail⟩
  · simp [que, popLive] at got
  · have never : itm.timeout = timeoutNone := untimed.all itm (by simp [que])
    have live : InnerItem.live itm (clock 0) = true := by simp [InnerItem.live, never]
    simp only [que, popLive, live, if_true, Prod.mk.injEq, Option.some.injEq] at got
    obtain ⟨rfl, rfl⟩ := got
    refine ⟨by simp [items, que], untimed.default, ?_⟩
    intro other inside
    exact untimed.all other (by rw [que]; exact List.mem_cons_of_mem _ inside)

end ProducerConsumerQueue

end RecommEngine.Util
