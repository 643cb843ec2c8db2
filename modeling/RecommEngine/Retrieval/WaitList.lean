/-
# Retrieval.WaitList -- the intrusive list of the asynchronous search

`wait_list_t` and the `linked_list_t` it extends.  The links of a node are members
of the object that is put, so a `linked_list_node_t*` points at the head of the
list or at the member of an object (`LinkedListNode`), and the memory of the links
is a pair of functions.  An object that was taken out keeps its stale links.

Every call works under the mutex, so whatever the threads do, they make a list of
calls.  A `get` on an empty list that is alive waits: it changes nothing, and comes
again as another `get`.

`Deque` says what the list is for: the linked objects, the one put last in front.
`Represents` relates the links to it, and one lemma for each call says that it does
on the links what it does on the deque.  `wait_list_serves` puts together what
holds after every run.

`_num` is an `int`: `counter_overflows` links 2^31 objects.
-/
import RecommEngine.Theory.LinkRing
import RecommEngine.Theory.Run

namespace RecommEngine.Retrieval

set_option autoImplicit false

open Theory.LinkRing Theory.Run

/-- Where a `linked_list_node_t*` points. -/
inductive LinkedListNode (T : Type) where
  | head
  | node (owner : T)
  deriving DecidableEq

structure WaitList (T : Type) where
  next : LinkedListNode T → LinkedListNode T
  prev : LinkedListNode T → LinkedListNode T
  alive : Bool
  num : Int32

namespace WaitList

variable {T : Type} [DecidableEq T]

/-! ## The operations -/

/-- The constructors; the links of the objects hold anything. -/
def create (next prev : LinkedListNode T → LinkedListNode T) : WaitList T where
  next := Function.update next .head .head
  prev := Function.update prev .head .head
  alive := true
  num := 0

def isEmpty (s : WaitList T) : Bool := s.next .head = .head

/-- `entry`: the object of a node, or a null pointer for the head. -/
def entry : LinkedListNode T → Option T
  | .head => none
  | .node owner => some owner

/-- `linked_list_t::add`, write by write. -/
def add (s : WaitList T) (owner : T) : WaitList T :=
  let prev := Function.update s.prev (s.next .head) (.node owner)
  let next := Function.update s.next (.node owner) (s.next .head)
  let prev := Function.update prev (.node owner) .head
  let next := Function.update next .head (.node owner)
  { s with next := next, prev := prev }

/-- `linked_list_t::del`: the second write reads `prev` after the first. -/
def del (s : WaitList T) (owner : T) : WaitList T :=
  let prev := Function.update s.prev (s.next (.node owner)) (s.prev (.node owner))
  let next := Function.update s.next (prev (.node owner)) (s.next (.node owner))
  { s with next := next, prev := prev }

def put (s : WaitList T) (owner : T) : WaitList T :=
  if s.alive then { s.add owner with num := s.num + 1 } else s

inductive Answer (T : Type) where
  | waits
  | returned (ret : Option T)
  /-- `del(*ret)` with a null `ret`. -/
  | nullDereference
  deriving DecidableEq

/-- `get` and `get_from_head` differ in the link of the head they follow. -/
def take (s : WaitList T) (link : LinkedListNode T) : Answer T × WaitList T :=
  if s.alive && s.isEmpty then (.waits, s)
  else if s.alive then
    match entry link with
    | none => (.nullDereference, s)
    | some ret => (.returned (some ret), { s.del ret with num := s.num - 1 })
  else (.returned none, s)

def get (s : WaitList T) : Answer T × WaitList T := s.take (s.prev .head)

def getFromHead (s : WaitList T) : Answer T × WaitList T := s.take (s.next .head)

def flush (s : WaitList T) : WaitList T := { s with alive := false }

inductive Call (T : Type) where
  | put (owner : T)
  | get
  | getFromHead
  | flush
  deriving DecidableEq

def step (s : WaitList T) : Call T → WaitList T
  | .put owner => s.put owner
  | .get => s.get.2
  | .getFromHead => s.getFromHead.2
  | .flush => s.flush

/-- The object is on the list: the head leads to it. -/
def Linked (s : WaitList T) (owner : T) : Prop :=
  ∃ n, s.next^[n] .head = .node owner

/-- An object is put only while it is not on the list. -/
def Allowed (s : WaitList T) : Call T → Prop
  | .put owner => ¬ s.Linked owner
  | _ => True

end WaitList

/-! ## What the list is for -/

/-- The linked objects, the one put last in front. -/
structure Deque (T : Type) where
  linked : List T := []
  alive : Bool := true

namespace Deque

open WaitList

variable {T : Type}

def step (d : Deque T) : Call T → Deque T
  | .put owner => if d.alive then { d with linked := owner :: d.linked } else d
  | .get => if d.alive then { d with linked := d.linked.dropLast } else d
  | .getFromHead => if d.alive then { d with linked := d.linked.tail } else d
  | .flush => { d with alive := false }

/-- The answer of a `get` that would find `found`. -/
def answer (d : Deque T) (found : Option T) : Answer T :=
  if d.alive then
    match found with
    | none => .waits
    | some ret => .returned (some ret)
  else .returned none

def Allowed (d : Deque T) : Call T → Prop
  | .put owner => owner ∉ d.linked
  | _ => True

theorem step_flushed {d : Deque T} (flushed : d.alive = false) (call : Call T) :
    (d.step call).alive = false := by
  cases call <;> simp [step, flushed]

/-- A list that was flushed stays so. -/
theorem run_flushed {calls : List (Call T)} (flushed : .flush ∈ calls) :
    (run step {} calls).alive = false := by
  obtain ⟨before, after, rfl⟩ := List.append_of_mem flushed
  rw [run_append, run_cons]
  generalize ended : step (run step {} before) .flush = d
  have dead : d.alive = false := by
    rw [← ended]
    rfl
  clear ended
  induction after generalizing d with
  | nil => exact dead
  | cons call after ih => exact ih (by simp) (d.step call) (step_flushed dead call)

variable [DecidableEq T]

instance Allowed.decidable (d : Deque T) : ∀ call, Decidable (d.Allowed call)
  | .put owner => inferInstanceAs (Decidable (owner ∉ d.linked))
  | .get => .isTrue trivial
  | .getFromHead => .isTrue trivial
  | .flush => .isTrue trivial

/-- How many calls ago the object was put last. -/
def age (calls : List (Call T)) (owner : T) : Nat :=
  calls.reverse.idxOf (.put owner)

theorem age_snoc (calls : List (Call T)) (call : Call T) (owner : T) :
    age (calls ++ [call]) owner = if call = .put owner then 0 else age calls owner + 1 := by
  rw [age, List.reverse_concat, List.idxOf_cons]
  by_cases here : call = .put owner
  · simp [here]
  · rw [beq_false_of_ne here, if_neg here]
    rfl

/-- The objects are linked in the order in which they were put. -/
def Ordered (calls : List (Call T)) (linked : List T) : Prop :=
  linked.Pairwise fun a b => age calls a < age calls b

/-- A call that puts none of the objects leaves their order. -/
theorem Ordered.snoc {calls : List (Call T)} {linked : List T} (ordered : Ordered calls linked)
    {call : Call T} (others : ∀ a ∈ linked, call ≠ .put a) : Ordered (calls ++ [call]) linked := by
  refine List.Pairwise.imp_of_mem ?_ ordered
  intro a b ha hb less
  rw [age_snoc, age_snoc, if_neg (others a ha), if_neg (others b hb)]
  omega

theorem Ordered.step {past : List (Call T)} {d : Deque T} (ordered : Ordered past d.linked)
    {call : Call T} (fits : d.Allowed call) : Ordered (past ++ [call]) (d.step call).linked := by
  cases call with
  | put owner =>
      have others : ∀ a ∈ d.linked, (Call.put owner : Call T) ≠ .put a :=
        fun a linked same => fits (Call.put.inj same ▸ linked)
      have kept : Ordered (past ++ [.put owner]) d.linked := ordered.snoc others
      simp only [Deque.step]
      split
      · refine List.pairwise_cons.mpr ⟨?_, kept⟩
        intro a linked
        rw [age_snoc, age_snoc, if_pos rfl, if_neg (others a linked)]
        omega
      · exact kept
  | get =>
      have kept : Ordered (past ++ [.get]) d.linked := ordered.snoc (by simp)
      simp only [Deque.step]
      split
      · exact kept.sublist (List.dropLast_sublist _)
      · exact kept
  | getFromHead =>
      have kept : Ordered (past ++ [.getFromHead]) d.linked := ordered.snoc (by simp)
      simp only [Deque.step]
      split
      · exact kept.sublist (List.tail_sublist _)
      · exact kept
  | flush => exact ordered.snoc (by simp)

theorem run_ordered {calls : List (Call T)} (allowed : Along step Allowed {} calls) :
    Ordered calls (run step {} calls).linked := by
  have start : Ordered [] ({} : Deque T).linked := List.Pairwise.nil
  refine run_history (I := fun past (d : Deque T) => Ordered past d.linked) start ?_ calls
    (List.prefix_refl calls)
  intro past call inside ordered
  exact ordered.step (allowed.at inside)

end Deque

namespace WaitList

variable {T : Type}

/-! ## The links and the deque -/

/-- The head and the nodes of the linked objects make a ring. -/
structure Represents (s : WaitList T) (d : Deque T) : Prop where
  ring : Ring s.next s.prev .head (d.linked.map .node)
  nodup : d.linked.Nodup
  alive : s.alive = d.alive
  num : s.num = Int32.ofNat d.linked.length

/-- `ret` alone has been unlinked. -/
structure Unlinks (s out : WaitList T) (ret : T) : Prop where
  linked : s.Linked ret
  others : ∀ other, out.Linked other ↔ s.Linked other ∧ other ≠ ret

section Represents

variable {s : WaitList T} {d : Deque T}

theorem nodup_nodes {linked : List T} (nodup : linked.Nodup) :
    (LinkedListNode.head :: linked.map .node).Nodup :=
  List.nodup_cons.mpr ⟨by simp, nodup.map fun _ _ same => LinkedListNode.node.inj same⟩

theorem Represents.linked_iff (rep : s.Represents d) (owner : T) :
    s.Linked owner ↔ owner ∈ d.linked := by
  rw [Linked, ← rep.ring.mem_iff]
  simp

theorem Represents.ne_nil (rep : s.Represents d) (some_ : ∃ owner, s.Linked owner) :
    d.linked ≠ [] := by
  obtain ⟨owner, linked⟩ := some_
  exact List.ne_nil_of_mem ((rep.linked_iff owner).mp linked)

theorem Represents.allowed_iff (rep : s.Represents d) (call : Call T) :
    s.Allowed call ↔ d.Allowed call := by
  cases call with
  | put owner => exact not_congr (rep.linked_iff owner)
  | get => exact Iff.rfl
  | getFromHead => exact Iff.rfl
  | flush => exact Iff.rfl

/-- What unlinks the middle of the deque unlinks that object. -/
theorem Represents.unlinks (rep : s.Represents d) {before after : List T} {ret : T}
    (split : d.linked = before ++ ret :: after) {out : WaitList T} {e : Deque T}
    (rep' : out.Represents e) (rest : e.linked = before ++ after) : Unlinks s out ret := by
  have nodup := rep.nodup
  rw [split] at nodup
  refine ⟨(rep.linked_iff ret).mpr (by simp [split]), ?_⟩
  intro other
  rw [rep.linked_iff, rep'.linked_iff, split, rest]
  have once := List.nodup_middle.mp nodup
  have off := (List.nodup_cons.mp once).1
  constructor
  · intro inside
    exact ⟨by simp only [List.mem_append, List.mem_cons] at inside ⊢; tauto,
      fun same => off (same ▸ inside)⟩
  · rintro ⟨inside, ne⟩
    simp only [List.mem_append, List.mem_cons] at inside ⊢
    tauto

theorem Represents.inverse (rep : s.Represents d) {a : LinkedListNode T}
    (on : a = .head ∨ ∃ owner, s.Linked owner ∧ a = .node owner) :
    s.prev (s.next a) = a ∧ s.next (s.prev a) = a := by
  apply rep.ring.inverse
  rcases on with rfl | ⟨owner, linked, rfl⟩
  · exact List.mem_cons_self
  · exact List.mem_cons_of_mem _ (List.mem_map_of_mem ((rep.linked_iff owner).mp linked))

variable [DecidableEq T]

theorem Represents.isEmpty_iff (rep : s.Represents d) : s.isEmpty = true ↔ d.linked = [] := by
  have first := rep.ring.next_head
  cases linked : d.linked <;> simp [isEmpty, first, linked]

theorem create_represents (next prev : LinkedListNode T → LinkedListNode T) :
    (create next prev).Represents {} :=
  ⟨ring_nil (by simp [create]) (by simp [create]), List.nodup_nil, rfl, rfl⟩

theorem Represents.put (rep : s.Represents d) {owner : T} (off : owner ∉ d.linked) :
    (s.put owner).Represents (d.step (.put owner)) := by
  rw [WaitList.put, Deque.step, ← rep.alive]
  split
  · refine ⟨?_, List.nodup_cons.mpr ⟨off, rep.nodup⟩, rfl, ?_⟩
    · exact rep.ring.link (nodup_nodes rep.nodup) (by simpa using off)
    · show s.num + 1 = _
      rw [rep.num, List.length_cons, Int32.ofNat_add]
      rfl
  · exact rep

/-- Wherever it stands, the object alone is taken out. -/
theorem Represents.del (rep : s.Represents d) {before after : List T} {ret : T}
    (split : d.linked = before ++ ret :: after) :
    Represents { s.del ret with num := s.num - 1 } { d with linked := before ++ after } := by
  have ring := rep.ring
  have nodup := nodup_nodes rep.nodup
  rw [split, List.map_append, List.map_cons] at ring nodup
  have apart : LinkedListNode.node ret ≠ s.next (.node ret) := (ring.next_ne nodup).symm
  refine ⟨?_, ?_, rep.alive, ?_⟩
  · have cut := ring.unlink nodup
    rw [← List.map_append] at cut
    simpa [WaitList.del, Function.update_of_ne apart] using cut
  · refine rep.nodup.sublist ?_
    rw [split]
    exact List.Sublist.append_left (List.sublist_cons_self ret after) before
  · show s.num - 1 = _
    rw [rep.num, split]
    have counted : (before ++ ret :: after).length = (before ++ after).length + 1 := by
      simp only [List.length_append, List.length_cons]
      omega
    rw [counted, Int32.ofNat_add]
    exact Int32.add_sub_cancel _ _

/-- The link of the head leads to `found`, if anything is linked, and `rest` are the
others. -/
def Finds (d : Deque T) (link : LinkedListNode T) (found : Option T) (rest : List T) : Prop :=
  (d.linked = [] ∧ found = none ∧ rest = []) ∨
    ∃ before ret after, d.linked = before ++ ret :: after ∧ link = .node ret ∧
      found = some ret ∧ rest = before ++ after

theorem Represents.take (rep : s.Represents d) {link : LinkedListNode T} {found : Option T}
    {rest : List T} (finds : Finds d link found rest) :
    (s.take link).1 = d.answer found ∧
      (s.take link).2.Represents (if d.alive then { d with linked := rest } else d) := by
  cases alive : d.alive with
  | false =>
      have taken : s.take link = (.returned none, s) := by
        simp [WaitList.take, rep.alive, alive]
      rw [taken]
      exact ⟨by simp [Deque.answer, alive], rep⟩
  | true =>
      rcases finds with ⟨empty, rfl, rfl⟩ | ⟨before, ret, after, split, leads, rfl, rfl⟩
      · have isEmpty : s.isEmpty = true := rep.isEmpty_iff.mpr empty
        have taken : s.take link = (.waits, s) := by
          simp [WaitList.take, rep.alive, alive, isEmpty]
        rw [taken]
        refine ⟨by simp [Deque.answer, alive], ?_⟩
        rw [← empty]
        exact ⟨rep.ring, rep.nodup, rep.alive.trans alive, rep.num⟩
      · have filled : s.isEmpty = false := by
          rw [← Bool.not_eq_true, rep.isEmpty_iff, split]
          simp
        have taken : s.take link = (.returned (some ret), { s.del ret with num := s.num - 1 }) := by
          simp [WaitList.take, filled, rep.alive, alive, leads, entry]
        rw [taken]
        have cut := rep.del split
        exact ⟨by simp [Deque.answer, alive], cut.ring, cut.nodup, rep.alive.trans alive, cut.num⟩

theorem Represents.get (rep : s.Represents d) :
    s.get.1 = d.answer d.linked.getLast? ∧ s.get.2.Represents (d.step .get) := by
  apply rep.take
  rcases List.eq_nil_or_concat d.linked with empty | ⟨init, ret, split⟩
  · exact Or.inl ⟨empty, by simp [empty], by simp [empty]⟩
  · rw [List.concat_eq_append] at split
    refine Or.inr ⟨init, ret, [], split, ?_, by simp [split], by simp [split]⟩
    rw [rep.ring.prev_head, split]
    simp

theorem Represents.getFromHead (rep : s.Represents d) :
    s.getFromHead.1 = d.answer d.linked.head? ∧
      s.getFromHead.2.Represents (d.step .getFromHead) := by
  apply rep.take
  cases split : d.linked with
  | nil => exact Or.inl ⟨split, rfl, rfl⟩
  | cons ret rest =>
      refine Or.inr ⟨[], ret, rest, split, ?_, rfl, rfl⟩
      rw [rep.ring.next_head, split]
      rfl

theorem Represents.step (rep : s.Represents d) {call : Call T} (allowed : d.Allowed call) :
    (s.step call).Represents (d.step call) := by
  cases call with
  | put owner => exact rep.put allowed
  | get => exact rep.get.2
  | getFromHead => exact rep.getFromHead.2
  | flush => exact ⟨rep.ring, rep.nodup, rfl, rep.num⟩

end Represents

/-! ## Whole runs -/

variable [DecidableEq T]

/-- What the list gives its callers after these calls. -/
structure Serves (calls : List (Call T)) (s : WaitList T) : Prop where
  /-- The head and the linked nodes make a ring, and `_num` is their number. -/
  deque : s.Represents (run Deque.step {} calls)
  inverse : ∀ a, (a = .head ∨ ∃ owner, s.Linked owner ∧ a = .node owner) →
    s.prev (s.next a) = a ∧ s.next (s.prev a) = a
  put : s.alive = true → ∀ owner, ¬ s.Linked owner →
    ∀ other, (s.put owner).Linked other ↔ other = owner ∨ s.Linked other
  /-- `get` returns the object put least recently. -/
  get : s.alive = true → (∃ owner, s.Linked owner) → ∃ ret, s.get.1 = .returned (some ret) ∧
    Unlinks s s.get.2 ret ∧
    ∀ other, s.Linked other → other ≠ ret → Deque.age calls other < Deque.age calls ret
  /-- `get_from_head` returns the object put most recently. -/
  getFromHead : s.alive = true → (∃ owner, s.Linked owner) →
    ∃ ret, s.getFromHead.1 = .returned (some ret) ∧ Unlinks s s.getFromHead.2 ret ∧
    ∀ other, s.Linked other → other ≠ ret → Deque.age calls ret < Deque.age calls other
  flushed : .flush ∈ calls → s.get = (.returned none, s) ∧ s.getFromHead = (.returned none, s) ∧
    ∀ owner, s.put owner = s

section Runs

variable {calls : List (Call T)} {s : WaitList T} {d : Deque T}

theorem Represents.put_linked (rep : s.Represents d) (alive : s.alive = true) {owner : T}
    (off : ¬ s.Linked owner) (other : T) :
    (s.put owner).Linked other ↔ other = owner ∨ s.Linked other := by
  have out := rep.put ((rep.linked_iff owner).not.mp off)
  rw [out.linked_iff, rep.linked_iff, Deque.step, if_pos (rep.alive ▸ alive)]
  exact List.mem_cons

theorem Represents.get_oldest (rep : s.Represents d) (ordered : Deque.Ordered calls d.linked)
    (alive : s.alive = true) (some_ : ∃ owner, s.Linked owner) :
    ∃ ret, s.get.1 = .returned (some ret) ∧ Unlinks s s.get.2 ret ∧
      ∀ other, s.Linked other → other ≠ ret → Deque.age calls other < Deque.age calls ret := by
  obtain ⟨answer, rep'⟩ := rep.get
  have isAlive : d.alive = true := rep.alive ▸ alive
  obtain ⟨init, ret, split⟩ := (List.eq_nil_or_concat d.linked).resolve_left (rep.ne_nil some_)
  rw [List.concat_eq_append] at split
  refine ⟨ret, ?_, rep.unlinks split rep' (by simp [Deque.step, isAlive, split]), ?_⟩
  · simp [answer, Deque.answer, isAlive, split]
  · intro other linked ne
    rw [Deque.Ordered, split, List.pairwise_append] at ordered
    rw [rep.linked_iff, split] at linked
    have earlier : other ∈ init := by simpa [ne] using linked
    exact ordered.2.2 other earlier ret (by simp)

theorem Represents.getFromHead_newest (rep : s.Represents d)
    (ordered : Deque.Ordered calls d.linked) (alive : s.alive = true)
    (some_ : ∃ owner, s.Linked owner) :
    ∃ ret, s.getFromHead.1 = .returned (some ret) ∧ Unlinks s s.getFromHead.2 ret ∧
      ∀ other, s.Linked other → other ≠ ret → Deque.age calls ret < Deque.age calls other := by
  obtain ⟨answer, rep'⟩ := rep.getFromHead
  have isAlive : d.alive = true := rep.alive ▸ alive
  obtain ⟨ret, rest, split⟩ := List.exists_cons_of_ne_nil (rep.ne_nil some_)
  have inFront : d.linked = [] ++ ret :: rest := split
  refine ⟨ret, ?_, rep.unlinks inFront rep' (by simp [Deque.step, isAlive, split]), ?_⟩
  · simp [answer, Deque.answer, isAlive, split]
  · intro other linked ne
    rw [Deque.Ordered, split, List.pairwise_cons] at ordered
    rw [rep.linked_iff, split] at linked
    exact ordered.1 other (by simpa [ne] using linked)

end Runs

/-- The list allows what the deque allows, and stays its image. -/
theorem run_represents (next prev : LinkedListNode T → LinkedListNode T) (calls : List (Call T)) :
    (Along step Allowed (create next prev) calls ↔ Along Deque.step Deque.Allowed {} calls) ∧
      (Along step Allowed (create next prev) calls →
        (run step (create next prev) calls).Represents (run Deque.step {} calls)) :=
  Along.simulation (fun _ _ call rep => rep.allowed_iff call)
    (fun _ _ _ rep allowed => rep.step ((rep.allowed_iff _).mp allowed))
    (create_represents next prev) calls

/-- **The list is a deque in the order of the puts.**  After every run of calls that
puts no linked object, and whatever the links of the objects held before. -/
theorem wait_list_serves (next prev : LinkedListNode T → LinkedListNode T) (calls : List (Call T))
    (allowed : Along step Allowed (create next prev) calls) :
    let s := run step (create next prev) calls
    let linked := (run Deque.step {} calls).linked
    Serves calls s ∧ (linked.length < 2 ^ 31 → s.num.toInt = linked.length) := by
  intro s linked
  obtain ⟨alike, represents⟩ := run_represents next prev calls
  have rep : s.Represents (run Deque.step {} calls) := represents allowed
  have ordered := Deque.run_ordered (alike.mp allowed)
  refine ⟨⟨rep, fun a on => rep.inverse on, fun alive owner off => rep.put_linked alive off,
    rep.get_oldest ordered, rep.getFromHead_newest ordered, ?_⟩, ?_⟩
  · intro flush
    have dead : s.alive = false := rep.alive.trans (Deque.run_flushed flush)
    exact ⟨by simp [WaitList.get, WaitList.take, dead],
      by simp [WaitList.getFromHead, WaitList.take, dead], by simp [WaitList.put, dead]⟩
  · intro few
    rw [rep.num]
    exact Int32.toInt_ofNat_of_lt few

end WaitList

/-! ## Poles -/

namespace LongWait

open WaitList

/-- Links that were never set. -/
def garbage : LinkedListNode Nat → LinkedListNode Nat := fun _ => .node 7

/-- Objects come in, leave at both ends, and one of them comes back. -/
def calls : List (Call Nat) := [.put 1, .put 2, .get, .put 3, .put 1, .getFromHead]

theorem calls_served :
    let s := run step (create garbage garbage) calls
    let linked := (run Deque.step {} calls).linked
    linked = [3, 2] ∧ s.get.1 = .returned (some 2) ∧ s.getFromHead.1 = .returned (some 3) ∧
      Serves calls s ∧ (linked.length < 2 ^ 31 → s.num.toInt = linked.length) :=
  ⟨by decide, by decide, by decide, wait_list_serves garbage garbage calls
    ((run_represents garbage garbage calls).1.mpr (by decide))⟩

def putAll : Nat → List (Call Nat)
  | 0 => []
  | n + 1 => putAll n ++ [.put n]

theorem run_putAll (n : Nat) :
    Along Deque.step Deque.Allowed {} (putAll n) ∧
      run Deque.step {} (putAll n) = ⟨(List.range n).reverse, true⟩ := by
  induction n with
  | zero => exact ⟨trivial, rfl⟩
  | succ n ih =>
      rw [putAll, Along.append, run_snoc, ih.2]
      refine ⟨⟨ih.1, ?_, trivial⟩, ?_⟩
      · simp [Deque.Allowed]
      · simp [Deque.step, List.range_succ]

theorem putAll_counted (n : Nat) :
    Along step Allowed (create garbage garbage) (putAll n) ∧
      (run step (create garbage garbage) (putAll n)).Represents ⟨(List.range n).reverse, true⟩ := by
  obtain ⟨allowed, ends⟩ := run_putAll n
  obtain ⟨alike, represents⟩ := run_represents garbage garbage (putAll n)
  exact ⟨alike.mpr allowed, ends ▸ represents (alike.mpr allowed)⟩

theorem putAll_overflows {n : Nat} (half : n = 2 ^ 31) :
    Along step Allowed (create garbage garbage) (putAll n) ∧
      (∀ owner, (run step (create garbage garbage) (putAll n)).Linked owner ↔ owner < n) ∧
        (run step (create garbage garbage) (putAll n)).num.toInt = -2 ^ 31 := by
  obtain ⟨allowed, rep⟩ := putAll_counted n
  refine ⟨allowed, fun owner => (rep.linked_iff owner).trans (by simp), ?_⟩
  rw [rep.num]
  simp [half]

/-- With 2^31 objects on the list the counter has overflowed. -/
theorem counter_overflows :
    Along step Allowed (create garbage garbage) (putAll (2 ^ 31)) ∧
      (∀ owner, (run step (create garbage garbage) (putAll (2 ^ 31))).Linked owner ↔
        owner < 2 ^ 31) ∧
      (run step (create garbage garbage) (putAll (2 ^ 31))).num.toInt = -2 ^ 31 :=
  putAll_overflows rfl

end LongWait

end RecommEngine.Retrieval
