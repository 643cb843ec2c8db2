/-
# Util.QueueHistory -- what becomes of every item put into the queue

Runs of the critical sections of `ProducerConsumerQueue`, with two records on
the side that no section reads: the items the puts have stored, in order, and
for every item a get has handed out its position among them.

A position that was handed out is `delivered`, one at the end is still in the
queue, and for every other one `LostAt` names the section that dropped it: a
`ForcePut` into a full queue, which drops the oldest item, or a get after the
item's time.  `Conserving` collects the facts a user of the queue relies on; the
last of them is that without `ForcePut` and timeouts nothing is ever lost.

The end of an item's time is a sum of two `int64_t`.  If it wraps, a get takes it
for one in the past and drops the item at once (`longest_timeout_drops`).
`queue_history` says that the queue conserves its items in every run whose puts
store none of that kind.
-/
import RecommEngine.Theory.Run
import RecommEngine.Util.ProducerConsumerQueue

namespace RecommEngine.Util

set_option autoImplicit false

open Theory.Run ProducerConsumerQueue

/-- One critical section.  A get reads the clock once for every item it pops. -/
inductive QueueSection (α : Type) where
  | tryPut (item : α) (timeout now : Int64)
  | put (item : α) (timeout now : Int64)
  | forcePut (item : α) (timeout now : Int64)
  | tryGet (clock : Nat → Int64)
  | get (clock : Nat → Int64)

structure QueueHistory (α : Type) where
  queue : ProducerConsumerQueue α
  accepted : List (InnerItem α) := []
  delivered : List (Nat × α) := []

namespace QueueHistory

variable {α : Type}

/-- The queue of the constructor. -/
def new (capacity : Nat) (defaultTimeout : Int64) : QueueHistory α :=
  { queue := ⟨capacity, defaultTimeout, []⟩ }

/-- How many of the accepted items have left the queue. -/
def popped (s : QueueHistory α) : Nat :=
  s.accepted.length - s.queue.que.length

def tryPut (s : QueueHistory α) (item : α) (timeout now : Int64) : QueueHistory α :=
  match s.queue.tryPutInternal item timeout now with
  | (true, queue) =>
      { s with queue := queue, accepted := s.accepted ++ [s.queue.innerItem item timeout now] }
  | (false, queue) => { s with queue := queue }

def forcePut (s : QueueHistory α) (item : α) (timeout now : Int64) : QueueHistory α :=
  { s with
    queue := s.queue.forcePutInternal item timeout now
    accepted := s.accepted ++ [s.queue.innerItem item timeout now] }

/-- The item handed out is the last one popped. -/
def tryGet (s : QueueHistory α) (clock : Nat → Int64) : QueueHistory α :=
  match s.queue.tryGetInternal clock with
  | (some item, queue) =>
      { s with
        queue := queue
        delivered := s.delivered ++ [(s.accepted.length - queue.que.length - 1, item)] }
  | (none, queue) => { s with queue := queue }

/-- `Put` enters its section when the queue is not full, and waits before that.
`Get` waits after a section that found nothing. -/
def step (s : QueueHistory α) : QueueSection α → QueueHistory α
  | .tryPut item timeout now => s.tryPut item timeout now
  | .put item timeout now =>
      if s.queue.capacity ≤ s.queue.que.length then s else s.tryPut item timeout now
  | .forcePut item timeout now => s.forcePut item timeout now
  | .tryGet clock => s.tryGet clock
  | .get clock => s.tryGet clock

/-- The section drops the item at position `k` without handing it out: a
`ForcePut` drops the oldest item of a full queue, a get an item whose time is
over. -/
def LostAt (s : QueueHistory α) (e : QueueSection α) (k : Nat) (itm : InnerItem α) : Prop :=
  s.popped ≤ k ∧ s.queue.que[k - s.popped]? = some itm ∧
    match e with
    | .forcePut _ _ _ => k = s.popped ∧ s.queue.que.length = s.queue.capacity
    | .tryGet clock => InnerItem.Expired itm (clock (k - s.popped))
    | .get clock => InnerItem.Expired itm (clock (k - s.popped))
    | _ => False

/-- A put stores nothing, or an item whose time does not wrap around. -/
def StoresFitting (s : QueueHistory α) : QueueSection α → Prop
  | .tryPut item timeout now | .put item timeout now =>
      s.queue.capacity ≤ s.queue.que.length ∨ InnerItem.Fits (s.queue.innerItem item timeout now)
  | .forcePut item timeout now => InnerItem.Fits (s.queue.innerItem item timeout now)
  | .tryGet _ | .get _ => True

/-! ## The account -/

/-- The account of a history in which `gone` has left the queue `que`: every
position that is gone was delivered, in order, or is `lost`. -/
structure Accounted (lost : Nat → InnerItem α → Prop) (gone accepted que : List (InnerItem α))
    (delivered : List (Nat × α)) : Prop where
  split : accepted = gone ++ que
  order : (delivered.map Prod.snd).Sublist (gone.map InnerItem.item)
  values : ∀ d ∈ delivered, gone[d.1]?.map InnerItem.item = some d.2
  increasing : (delivered.map Prod.fst).Pairwise (· < ·)
  fates : ∀ k itm, gone[k]? = some itm → k ∈ delivered.map Prod.fst ∨ lost k itm

section Account

variable {lost : Nat → InnerItem α → Prop} {gone accepted que : List (InnerItem α)}
  {delivered : List (Nat × α)}

theorem Accounted.mono (account : Accounted lost gone accepted que delivered)
    {lost' : Nat → InnerItem α → Prop} (more : ∀ k itm, lost k itm → lost' k itm) :
    Accounted lost' gone accepted que delivered :=
  ⟨account.split, account.order, account.values, account.increasing,
    fun k itm here => (account.fates k itm here).imp_right (more k itm)⟩

/-- A delivered position is among those that are gone. -/
theorem Accounted.lt_length (account : Accounted lost gone accepted que delivered) {d : Nat × α}
    (inside : d ∈ delivered) : d.1 < gone.length := by
  have value := account.values d inside
  by_contra beyond
  rw [List.getElem?_eq_none (by omega)] at value
  simp at value

theorem Accounted.store (account : Accounted lost gone accepted que delivered) (itm : InnerItem α) :
    Accounted lost gone (accepted ++ [itm]) (que ++ [itm]) delivered :=
  ⟨by rw [account.split, List.append_assoc], account.order, account.values, account.increasing,
    account.fates⟩

/-- Items leave without being delivered. -/
theorem Accounted.drop {dead : List (InnerItem α)}
    (account : Accounted lost gone accepted (dead ++ que) delivered)
    (all : ∀ j d, dead[j]? = some d → lost (gone.length + j) d) :
    Accounted lost (gone ++ dead) accepted que delivered := by
  refine ⟨by rw [account.split, List.append_assoc], ?_, ?_, account.increasing, ?_⟩
  · rw [List.map_append]
    exact account.order.trans (List.sublist_append_left _ _)
  · intro d inside
    rw [List.getElem?_append_left (account.lt_length inside)]
    exact account.values d inside
  · intro k itm here
    by_cases old : k < gone.length
    · rw [List.getElem?_append_left old] at here
      exact account.fates k itm here
    · rw [List.getElem?_append_right (by omega)] at here
      have lost' := all _ itm here
      rw [Nat.add_sub_cancel' (by omega)] at lost'
      exact Or.inr lost'

/-- The oldest item is delivered. -/
theorem Accounted.deliver {itm : InnerItem α}
    (account : Accounted lost gone accepted (itm :: que) delivered) :
    Accounted lost (gone ++ [itm]) accepted que (delivered ++ [(gone.length, itm.item)]) := by
  refine ⟨by rw [account.split, List.append_assoc, List.singleton_append], ?_, ?_, ?_, ?_⟩
  · rw [List.map_append, List.map_append]
    exact account.order.append (List.Sublist.refl _)
  · intro d inside
    rcases List.mem_append.mp inside with old | new
    · rw [List.getElem?_append_left (account.lt_length old)]
      exact account.values d old
    · rw [List.mem_singleton.mp new]
      simp
  · rw [List.map_append, List.pairwise_append]
    refine ⟨account.increasing, by simp, ?_⟩
    intro k inside k' new
    obtain ⟨d, old, rfl⟩ := List.mem_map.mp inside
    obtain rfl : k' = gone.length := by simpa using new
    exact account.lt_length old
  · intro k other here
    by_cases old : k < gone.length
    · rw [List.getElem?_append_left old] at here
      refine (account.fates k other here).imp_left ?_
      intro inside
      rw [List.map_append]
      exact List.mem_append_left _ inside
    · have last : k = gone.length := by
        have := (List.getElem?_eq_some_iff.mp here).1
        simp at this
        omega
      exact Or.inl (by simp [last])

end Account

/-! ## Runs -/

variable (capacity : Nat) (defaultTimeout : Int64)

/-- Some section of `past` has dropped position `k`. -/
def LostIn (past : List (QueueSection α)) (k : Nat) (itm : InnerItem α) : Prop :=
  ∃ pre e, pre ++ [e] <+: past ∧ LostAt (run step (new capacity defaultTimeout) pre) e k itm

theorem LostIn.snoc {past : List (QueueSection α)} {k : Nat} {itm : InnerItem α}
    (lost : LostIn capacity defaultTimeout past k itm) (e : QueueSection α) :
    LostIn capacity defaultTimeout (past ++ [e]) k itm := by
  obtain ⟨pre, e', inside, lost⟩ := lost
  exact ⟨pre, e', inside.trans (List.prefix_append past [e]), lost⟩

/-- What holds between sections. -/
structure Kept (past : List (QueueSection α)) (s : QueueHistory α) : Prop where
  fixed : s.queue.capacity = capacity
  bounded : s.queue.que.length ≤ capacity
  fits : ∀ itm ∈ s.queue.que, InnerItem.Fits itm
  account : ∃ gone, Accounted (LostIn capacity defaultTimeout past) gone s.accepted s.queue.que
    s.delivered

section Keep

variable {capacity defaultTimeout} {past : List (QueueSection α)} {s : QueueHistory α}

theorem Accounted.popped_eq {lost : Nat → InnerItem α → Prop} {gone : List (InnerItem α)}
    (account : Accounted lost gone s.accepted s.queue.que s.delivered) : s.popped = gone.length := by
  rw [popped, account.split, List.length_append, Nat.add_sub_cancel]

theorem fits_store {que : List (InnerItem α)} {itm : InnerItem α}
    (fits : ∀ old ∈ que, InnerItem.Fits old) (new : InnerItem.Fits itm) :
    ∀ old ∈ que ++ [itm], InnerItem.Fits old := by
  intro old inside
  rcases List.mem_append.mp inside with before | last
  · exact fits old before
  · rwa [List.mem_singleton.mp last]

theorem Kept.tryPut (kept : Kept capacity defaultTimeout past s) (e : QueueSection α) (item : α)
    (timeout now : Int64)
    (fitting : s.queue.capacity ≤ s.queue.que.length ∨
      InnerItem.Fits (s.queue.innerItem item timeout now)) :
    Kept capacity defaultTimeout (past ++ [e]) (s.tryPut item timeout now) := by
  obtain ⟨fixed, bounded, fits, gone, account⟩ := kept
  have account := account.mono fun _ _ lost => lost.snoc capacity defaultTimeout e
  unfold QueueHistory.tryPut tryPutInternal
  by_cases full : s.queue.capacity ≤ s.queue.que.length
  · rw [if_pos full]
    exact ⟨fixed, bounded, fits, gone, account⟩
  · rw [if_neg full]
    refine ⟨fixed, ?_, fits_store fits (fitting.resolve_left full), gone, account.store _⟩
    simp only [List.length_append, List.length_singleton]
    omega

theorem Kept.forcePut (kept : Kept capacity defaultTimeout past s) (positive : 0 < capacity)
    (here : s = run step (new capacity defaultTimeout) past) (item : α) (timeout now : Int64)
    (fitting : InnerItem.Fits (s.queue.innerItem item timeout now)) :
    Kept capacity defaultTimeout (past ++ [.forcePut item timeout now])
      (s.forcePut item timeout now) := by
  obtain ⟨fixed, bounded, fits, gone, account⟩ := kept
  have place := account.popped_eq
  have account := account.mono fun _ _ lost =>
    lost.snoc capacity defaultTimeout (.forcePut item timeout now)
  unfold QueueHistory.forcePut forcePutInternal
  by_cases full : s.queue.capacity ≤ s.queue.que.length
  · -- the oldest item is dropped to make room
    rcases que : s.queue.que with _ | ⟨oldest, rest⟩
    · simp [que] at full
      omega
    · have evicted : LostAt s (.forcePut item timeout now) gone.length oldest := by
        refine ⟨by omega, by simp [place, que], place.symm, by omega⟩
      rw [que] at account
      have dropped : Accounted (LostIn capacity defaultTimeout (past ++ [.forcePut item timeout now]))
          (gone ++ [oldest]) s.accepted rest s.delivered := by
        apply @Accounted.drop _ _ _ _ _ _ [oldest] account
        intro j d first
        obtain ⟨rfl, rfl⟩ : j = 0 ∧ oldest = d := by
          cases j with
          | zero => exact ⟨rfl, Option.some.inj first⟩
          | succ j => simp at first
        exact ⟨past, _, List.prefix_refl _, here ▸ evicted⟩
      rw [que] at bounded full fits
      simp only [if_pos full, List.tail_cons]
      refine ⟨fixed, ?_, fits_store (fun old inside => fits old (List.mem_cons_of_mem _ inside))
        fitting, gone ++ [oldest], dropped.store _⟩
      simpa using bounded
  · simp only [if_neg full]
    refine ⟨fixed, ?_, fits_store fits fitting, gone, account.store _⟩
    simp only [List.length_append, List.length_singleton]
    omega

theorem Kept.tryGet (kept : Kept capacity defaultTimeout past s)
    (here : s = run step (new capacity defaultTimeout) past) {e : QueueSection α} {clock : Nat → Int64}
    (isGet : e = .tryGet clock ∨ e = .get clock) :
    Kept capacity defaultTimeout (past ++ [e]) (s.tryGet clock) := by
  obtain ⟨fixed, bounded, fits, gone, account⟩ := kept
  have place := account.popped_eq
  have account := account.mono fun _ _ lost => lost.snoc capacity defaultTimeout e
  obtain ⟨dead, all, outcome⟩ := popLive_spec clock s.queue.que 0
  -- what is popped without being handed out has expired
  have expired : ∀ rest, s.queue.que = dead ++ rest → ∀ j d, dead[j]? = some d →
      LostIn capacity defaultTimeout (past ++ [e]) (gone.length + j) d := by
    intro rest que j d inside
    have stood : s.queue.que[j]? = some d := by
      rw [que, List.getElem?_append_left (List.getElem?_eq_some_iff.mp inside).1, inside]
    have times := fits_iff.mp (fits d (List.mem_of_getElem? stood)) _ (all j d inside)
    rw [Nat.zero_add] at times
    refine ⟨past, e, List.prefix_refl _, ?_⟩
    rw [← here]
    rcases isGet with rfl | rfl <;>
      exact ⟨by omega, by rwa [place, Nat.add_sub_cancel_left],
        by rwa [place, Nat.add_sub_cancel_left]⟩
  unfold QueueHistory.tryGet tryGetInternal
  rcases outcome with ⟨itm, que, got⟩ | ⟨que, got⟩
  · rw [que] at account
    have position : s.accepted.length - (popLive clock s.queue.que 0).2.length - 1 =
        (gone ++ dead).length := by
      rw [account.split]
      simp only [List.length_append, List.length_cons]
      omega
    have delivered := (account.drop (expired _ que)).deliver
    rcases pop : popLive clock s.queue.que 0 with ⟨found, rest⟩
    rw [pop] at got delivered position que
    obtain rfl : found = some itm.item := got
    refine ⟨fixed, ?_, ?_, gone ++ dead ++ [itm], ?_⟩
    · rw [que] at bounded
      simp only [List.length_append, List.length_cons] at bounded
      show rest.length ≤ capacity
      omega
    · intro old inside
      exact fits old (by rw [que]; exact List.mem_append_right _ (List.mem_cons_of_mem _ inside))
    · show Accounted _ _ _ _ (s.delivered ++ [(s.accepted.length - rest.length - 1, itm.item)])
      rw [position]
      exact delivered
  · rw [got]
    have que' : s.queue.que = dead ++ [] := by rw [que, List.append_nil]
    rw [que'] at account
    exact ⟨fixed, by simp, by simp, gone ++ dead, account.drop (expired [] que')⟩

theorem Kept.step (kept : Kept capacity defaultTimeout past s) (positive : 0 < capacity)
    (here : s = run step (new capacity defaultTimeout) past) {e : QueueSection α}
    (fitting : s.StoresFitting e) : Kept capacity defaultTimeout (past ++ [e]) (step s e) := by
  cases e with
  | tryPut item timeout now => exact kept.tryPut _ item timeout now fitting
  | put item timeout now =>
      rw [QueueHistory.step]
      split
      · obtain ⟨fixed, bounded, fits, gone, account⟩ := kept
        exact ⟨fixed, bounded, fits, gone,
          account.mono fun _ _ lost => lost.snoc capacity defaultTimeout _⟩
      · exact kept.tryPut _ item timeout now fitting
  | forcePut item timeout now => exact kept.forcePut positive here item timeout now fitting
  | tryGet clock => exact kept.tryGet here (Or.inl rfl)
  | get clock => exact kept.tryGet here (Or.inr rfl)

end Keep

theorem kept_run (positive : 0 < capacity) (es : List (QueueSection α))
    (fitting : Along step StoresFitting (new capacity defaultTimeout) es) :
    Kept capacity defaultTimeout es (run step (new capacity defaultTimeout) es) := by
  refine run_history (I := Kept capacity defaultTimeout) ?_ ?_ es (List.prefix_refl es)
  · exact ⟨rfl, by simp [new], by simp [new], [], rfl, by simp [new], by simp [new], by simp [new],
      by simp⟩
  · intro pre e inside kept
    exact kept.step positive rfl (fitting.at inside)

/-- Without losses everything that is gone was delivered. -/
theorem Accounted.conserved {lost : Nat → InnerItem α → Prop} {gone accepted que : List (InnerItem α)}
    {delivered : List (Nat × α)} (account : Accounted lost gone accepted que delivered)
    (none : ∀ k itm, itm ∈ accepted → ¬ lost k itm) :
    accepted.map InnerItem.item = delivered.map Prod.snd ++ que.map InnerItem.item := by
  have positions : delivered.map Prod.fst = List.range gone.length := by
    apply account.increasing.eq_of_mem_iff List.pairwise_lt_range
    intro k
    rw [List.mem_range]
    constructor
    · intro inside
      obtain ⟨d, old, rfl⟩ := List.mem_map.mp inside
      exact account.lt_length old
    · intro less
      rcases account.fates k gone[k] (List.getElem?_eq_getElem less) with inside | lost'
      · exact inside
      · refine absurd lost' (none k _ ?_)
        rw [account.split]
        exact List.mem_append_left _ (List.getElem_mem less)
  have same : delivered.map Prod.snd = gone.map InnerItem.item := by
    apply account.order.eq_of_length
    have lengths := congrArg List.length positions
    simpa using lengths
  rw [account.split, List.map_append, same]

/-- What a user of the queue relies on, of one run. -/
structure Conserving (es : List (QueueSection α)) (s : QueueHistory α) : Prop where
  /-- The queue never exceeds its capacity. -/
  bounded : s.queue.que.length ≤ capacity
  /-- Items are handed out in the order in which they were accepted. -/
  inOrder : (s.delivered.map Prod.snd).Sublist (s.accepted.map InnerItem.item)
  /-- No item is handed out twice. -/
  once : (s.delivered.map Prod.fst).Pairwise (· < ·)
  values : ∀ d ∈ s.delivered, s.accepted[d.1]?.map InnerItem.item = some d.2
  /-- What was neither handed out nor is still queued was dropped for one of the two reasons. -/
  fates : ∀ k itm, s.accepted[k]? = some itm → k ∉ s.delivered.map Prod.fst → k < s.popped →
    LostIn capacity defaultTimeout es k itm
  /-- Without those two nothing is lost. -/
  lossless : (∀ item timeout now, .forcePut item timeout now ∉ es) →
    (∀ itm ∈ s.accepted, itm.timeout = timeoutNone) →
    s.accepted.map InnerItem.item = s.delivered.map Prod.snd ++ s.queue.items

/-- **The history of a queue.**  Every run of its critical sections conserves the items, if
no put stores one whose time wraps around. -/
theorem queue_history (positive : 0 < capacity) (es : List (QueueSection α))
    (fitting : Along step StoresFitting (new capacity defaultTimeout) es) :
    Conserving capacity defaultTimeout es (run step (new capacity defaultTimeout) es) := by
  obtain ⟨-, bounded, -, gone, account⟩ := kept_run capacity defaultTimeout positive es fitting
  generalize run step (new capacity defaultTimeout) es = s at bounded account
  have place : s.popped = gone.length := account.popped_eq
  refine ⟨bounded, ?_, account.increasing, ?_, ?_, ?_⟩
  · rw [account.split, List.map_append]
    exact account.order.trans (List.sublist_append_left _ _)
  · intro d inside
    rw [account.split, List.getElem?_append_left (account.lt_length inside)]
    exact account.values d inside
  · intro k itm here undelivered left
    rw [account.split, List.getElem?_append_left (by omega)] at here
    exact (account.fates k itm here).resolve_left undelivered
  · intro unforced untimed
    apply account.conserved
    rintro k itm inside ⟨pre, e, within, -, -, reason⟩
    have taken : e ∈ es := within.subset (by simp)
    cases e with
    | forcePut item timeout now => exact unforced item timeout now taken
    | tryGet clock => exact reason.1 (untimed itm inside)
    | get clock => exact reason.1 (untimed itm inside)
    | tryPut item timeout now => exact reason
    | put item timeout now => exact reason

/-- One slot: the second put is refused, `ForcePut` evicts the first item. -/
def evicting : List (QueueSection Nat) :=
  [.tryPut 7 0 1, .tryPut 8 0 2, .forcePut 9 0 3, .get fun _ => 4]

theorem evicted_item_accounted : Along step StoresFitting (new 1 0) evicting ∧
    LostIn 1 0 evicting 0 ⟨7, 1, 0⟩ := by
  have fitting : Along step StoresFitting (new 1 0) evicting :=
    ⟨Or.inr (Or.inl rfl), Or.inl (by decide), Or.inl rfl, trivial, trivial⟩
  exact ⟨fitting, (queue_history 1 0 (by decide) evicting fitting).fates 0 ⟨7, 1, 0⟩ rfl
    (by decide) (by decide)⟩

/-- An item with the longest timeout there is. -/
def lasting : List (QueueSection Nat) := [.tryPut 7 Int64.maxValue 1, .tryGet fun _ => 2]

/-- It is dropped by a get right behind its put. -/
theorem longest_timeout_drops :
    ¬ Conserving 1 3000 lasting (run step (new 1 3000) lasting) ∧
      (run step (new 1 3000) lasting).delivered = [] ∧
      (run step (new 1 3000) lasting).queue.que = [] := by
  refine ⟨?_, rfl, rfl⟩
  intro conserving
  obtain ⟨pre, e, within, -, -, reason⟩ :=
    conserving.fates 0 ⟨7, 1, Int64.maxValue⟩ rfl (by decide) (by decide)
  have taken : e ∈ lasting := within.subset (by simp)
  rcases List.mem_cons.mp taken with rfl | later
  · exact reason
  · obtain rfl := List.mem_singleton.mp later
    have wraps : ¬ (1 : Int64).toInt + Int64.maxValue.toInt < (2 : Int64).toInt := by decide
    exact wraps reason.2

end QueueHistory

end RecommEngine.Util
