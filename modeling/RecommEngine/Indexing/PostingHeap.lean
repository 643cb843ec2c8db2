/-
# Indexing.PostingHeap -- one posting list, its pool and the nodes in hand

`Indexing.Posting` treats the builder's allocate, fill and add as one push.
Here they are separate, as in the source, so a node can also be in nobody's
list: `held` are the nodes `AllocatePosting` has handed out and `AddPosting` has
not been given yet.  Any number of them may be outstanding while the list is
marked and cut.

Erased nodes go to the pool with their links intact and come back from it at
once, so the heap is full of stale links.  `Separated` says that this does no
harm: the chain, the pool and the held nodes share no node.

* `Separated.step`: every allowed operation keeps the separation;
* `effect_of_separated`: what each operation does to the sequence of postings,
  and that the loop of `Recycle` ends;
* `destroyed_of_separated`: the destructor deletes every node once and its
  `CHECK` holds;
* `heap_stays_separated`: all three in every state of every run.

`node_num_` is a `uint32`, so it counts modulo 2^32: `counter_wraps` runs a
list to 2^32 postings and a counter of zero.
-/
import RecommEngine.Indexing.Posting
import RecommEngine.Theory.Run

namespace RecommEngine.Indexing

set_option autoImplicit false

open Util Theory Theory.Chain Theory.Run

structure PostingHeap (W : Type) where
  list : PostingList W
  /-- Handed out by `AllocatePosting`, not yet given to `AddPosting`. -/
  held : List Addr

namespace PostingHeap

variable {W : Type}

inductive Event (W : Type) where
  | allocatePosting
  /-- The caller writes the data of a node it holds. -/
  | fill (node : Addr) (posting : Posting W)
  | addPosting (node : Addr)
  | setEndMark (mark : Option Addr)
  /-- `EraseAfter(GetEndMark())`. -/
  | eraseAfterMark

def start [Inhabited W] : PostingHeap W := ⟨.create, []⟩

def step [Inhabited W] (s : PostingHeap W) : Event W → PostingHeap W
  | .allocatePosting => ⟨s.list.allocatePosting.2, s.list.allocatePosting.1 :: s.held⟩
  | .fill node posting =>
      { s with list := { s.list with innerList := s.list.innerList.setData node posting } }
  | .addPosting node => ⟨s.list.addPosting node, s.held.erase node⟩
  | .setEndMark mark => { s with list := s.list.setEndMark mark }
  | .eraseAfterMark => { s with list := s.list.eraseAfter s.list.getEndMark }

/-- The nodes on the list, with the fake front. -/
def linked (s : PostingHeap W) : List Addr := s.list.getFakeFront :: s.list.nodes

def pool (s : PostingHeap W) : List Addr := s.list.innerList.objPool

def postings (s : PostingHeap W) : List (Posting W) := s.list.innerList.contents

/-- What the callers of a list keep to.  A reset of the mark may follow an erase
or not: nothing below depends on it. -/
def Allowed (s : PostingHeap W) : Event W → Prop
  | .allocatePosting => True
  | .fill node _ => node ∈ s.held
  | .addPosting node => node ∈ s.held
  | .setEndMark none => True
  | .setEndMark (some m) => m ∈ s.linked
  | .eraseAfterMark => True

instance Allowed.decidable (s : PostingHeap W) : ∀ e, Decidable (Allowed s e)
  | .allocatePosting => .isTrue trivial
  | .fill node _ => inferInstanceAs (Decidable (node ∈ s.held))
  | .addPosting node => inferInstanceAs (Decidable (node ∈ s.held))
  | .setEndMark none => .isTrue trivial
  | .setEndMark (some m) => inferInstanceAs (Decidable (m ∈ s.linked))
  | .eraseAfterMark => .isTrue trivial

/-! ## The separation -/

structure Separated (s : PostingHeap W) : Prop where
  list : s.list.Valid
  heldNodup : s.held.Nodup
  heldKnown : ∀ a ∈ s.held, a < s.list.innerList.fresh
  heldOffChain : ∀ a ∈ s.held, a ∉ s.linked
  heldOffPool : ∀ a ∈ s.held, a ∉ s.pool

theorem start_separated [Inhabited W] : (start : PostingHeap W).Separated where
  list := PostingList.create_valid
  heldNodup := List.nodup_nil
  heldKnown := by simp [start]
  heldOffChain := by simp [start]
  heldOffPool := by simp [start]

theorem linked_of_rep {s : PostingHeap W} {chain : List Addr}
    (rep : s.list.innerList.Rep chain) : s.linked = s.list.getFakeFront :: chain :=
  congrArg (List.cons _) rep.nodes_eq

/-! ## What each operation does -/

/-- `AllocatePosting` hands out a node that is on no list and in no hand. -/
structure HandedOut (s out : PostingHeap W) (node : Addr) : Prop where
  held : out.held = node :: s.held
  unlinked : node ∉ s.linked
  unheld : node ∉ s.held
  linked : out.linked = s.linked
  postings : out.postings = s.postings

/-- The list is cut behind the mark `m`: `kept` stays, and the loop of `Recycle`
ends after the nodes `freed`. -/
structure CutAt (s out : PostingHeap W) (m : Addr) (kept freed : List Addr) : Prop where
  split : s.list.SplitAt m kept freed
  linked : out.linked = s.list.getFakeFront :: kept
  postings : out.postings = kept.map s.list.innerList.data
  pool : out.pool = s.pool ++ freed
  ends : ∀ fuel, freed.length ≤ fuel →
    follow (Function.update s.list.innerList.next m none) fuel (s.list.innerList.next m) = freed

def Effect [Inhabited W] (s : PostingHeap W) (e : Event W) : Prop :=
  match e with
  | .allocatePosting => ∃ node, HandedOut s (s.step e) node
  | .fill _ _ => (s.step e).postings = s.postings
  | .addPosting node => (s.step e).postings = s.list.innerList.data node :: s.postings
  | .setEndMark _ => (s.step e).postings = s.postings
  | .eraseAfterMark =>
      match s.list.getEndMark with
      | none => s.step e = s
      | some m => ∃ kept freed, CutAt s (s.step e) m kept freed

theorem Separated.handsOut [Inhabited W] {s : PostingHeap W} (sep : s.Separated) :
    HandedOut s (s.step .allocatePosting) s.list.allocatePosting.1 := by
  have alloc := sep.list.allocated
  have frame := LocklessList.allocate_frame s.list.innerList
  refine ⟨rfl, alloc.offChain, ?_, ?_, ?_⟩
  · intro held
    rcases frame.origin with new | pooled
    · have known := sep.heldKnown _ held
      rw [show s.list.allocatePosting.1 = s.list.innerList.fresh from new] at known
      exact lt_irrefl _ known
    · exact sep.heldOffPool _ held pooled
  · have front : (s.step .allocatePosting).list.getFakeFront = s.list.getFakeFront := alloc.front
    rw [linked_of_rep alloc.rep, front]
    rfl
  · have same : (s.step .allocatePosting).list.innerList.nodes = s.list.nodes := alloc.rep.nodes_eq
    rw [postings, LocklessList.contents, same]
    exact List.map_congr_left fun a inside => alloc.data a (List.mem_cons_of_mem _ inside)

theorem Separated.allocate [Inhabited W] {s : PostingHeap W} (sep : s.Separated) :
    (s.step .allocatePosting).Separated := by
  have alloc := sep.list.allocated
  have frame := LocklessList.allocate_frame s.list.innerList
  have out := sep.handsOut
  refine ⟨⟨alloc.rep.valid, ?_⟩, ?_, ?_, ?_, ?_⟩
  · intro m marked
    change m ∈ (s.step .allocatePosting).linked
    rw [out.linked]
    exact sep.list.mark m marked
  · exact List.nodup_cons.mpr ⟨out.unheld, sep.heldNodup⟩
  · intro a held
    rcases List.mem_cons.mp held with rfl | old
    · exact alloc.known
    · exact (sep.heldKnown a old).trans_le frame.fresh
  · intro a held
    rw [out.linked]
    rcases List.mem_cons.mp held with rfl | old
    · exact out.unlinked
    · exact sep.heldOffChain a old
  · intro a held pooled
    rcases List.mem_cons.mp held with rfl | old
    · exact alloc.offPool pooled
    · exact sep.heldOffPool a old (frame.pool a pooled)

theorem Separated.fill [Inhabited W] {s : PostingHeap W} (sep : s.Separated) (node : Addr)
    (posting : Posting W) : (s.step (.fill node posting)).Separated :=
  ⟨⟨(sep.list.list.setData node posting).valid, sep.list.mark⟩, sep.heldNodup, sep.heldKnown,
    sep.heldOffChain, sep.heldOffPool⟩

theorem Separated.fill_postings [Inhabited W] {s : PostingHeap W} (sep : s.Separated) {node : Addr}
    (held : node ∈ s.held) (posting : Posting W) :
    (s.step (.fill node posting)).postings = s.postings := by
  apply List.map_congr_left
  intro a inside
  apply Function.update_of_ne
  rintro rfl
  exact sep.heldOffChain a held (List.mem_cons_of_mem _ inside)

theorem Separated.addPosting_rep [Inhabited W] {s : PostingHeap W} (sep : s.Separated) {node : Addr}
    (held : node ∈ s.held) :
    (s.step (.addPosting node)).list.innerList.Rep (node :: s.list.nodes) :=
  LocklessList.Rep.pushFront sep.list.list (sep.heldOffChain node held)
    (sep.heldOffPool node held) (sep.heldKnown node held)

theorem Separated.add [Inhabited W] {s : PostingHeap W} (sep : s.Separated) {node : Addr}
    (held : node ∈ s.held) : (s.step (.addPosting node)).Separated := by
  have rep := sep.addPosting_rep held
  have linked : (s.step (.addPosting node)).linked = s.list.getFakeFront :: node :: s.list.nodes :=
    linked_of_rep rep
  have old : ∀ a ∈ s.held.erase node, a ∈ s.held := fun a inside => List.mem_of_mem_erase inside
  refine ⟨⟨rep.valid, ?_⟩, sep.heldNodup.erase node, fun a inside => sep.heldKnown a (old a inside),
    ?_, fun a inside => sep.heldOffPool a (old a inside)⟩
  · intro m marked
    have onList : m ∈ s.list.getFakeFront :: s.list.nodes := sep.list.mark m marked
    change m ∈ (s.step (.addPosting node)).linked
    rw [linked]
    simp only [List.mem_cons] at onList ⊢
    tauto
  · intro a inside
    have apart := sep.heldOffChain a (old a inside)
    have ne : a ≠ node := ((List.Nodup.mem_erase_iff sep.heldNodup).mp inside).1
    rw [linked]
    simp only [PostingHeap.linked, List.mem_cons] at apart ⊢
    tauto

theorem Separated.add_postings [Inhabited W] {s : PostingHeap W} (sep : s.Separated) {node : Addr}
    (held : node ∈ s.held) :
    (s.step (.addPosting node)).postings = s.list.innerList.data node :: s.postings := by
  rw [postings, LocklessList.contents, (sep.addPosting_rep held).nodes_eq]
  rfl

theorem Separated.mark [Inhabited W] {s : PostingHeap W} (sep : s.Separated) {mark : Option Addr}
    (allowed : s.Allowed (.setEndMark mark)) : (s.step (.setEndMark mark)).Separated := by
  refine ⟨⟨sep.list.list, ?_⟩, sep.heldNodup, sep.heldKnown, sep.heldOffChain, sep.heldOffPool⟩
  rintro m (rfl : mark = some m)
  exact allowed

theorem step_eraseAfterMark [Inhabited W] {s : PostingHeap W} {m : Addr}
    (marked : s.list.endMark = some m) :
    s.step .eraseAfterMark =
      ⟨{ s.list with innerList := s.list.innerList.eraseAfter (some m) }, s.held⟩ := by
  simp [PostingHeap.step, PostingList.getEndMark, marked, PostingList.eraseAfter]

/-- The chain in front of and behind the mark, and what `EraseAfter` makes of it. -/
theorem Separated.cutAt [Inhabited W] {s : PostingHeap W} (sep : s.Separated) {m : Addr}
    (marked : s.list.endMark = some m) :
    ∃ kept freed, (s.step .eraseAfterMark).list.innerList.Rep kept ∧
      CutAt s (s.step .eraseAfterMark) m kept freed := by
  obtain ⟨kept, freed, split⟩ := sep.list.split marked
  have rep := sep.list.list
  rw [LocklessList.Valid, show s.list.innerList.nodes = kept ++ freed from split.nodes] at rep
  obtain ⟨keptRep, freedPool⟩ := rep.eraseAfter split.last
  rw [step_eraseAfterMark marked]
  refine ⟨kept, freed, keptRep, split, ?_, ?_, freedPool, ?_⟩
  · rw [linked_of_rep keptRep]
    simp [PostingList.getFakeFront]
  · rw [postings, LocklessList.contents, keptRep.nodes_eq]
    simp
  · intro fuel enough
    exact LocklessList.follow_afterCut rep split.last enough

theorem Separated.cut [Inhabited W] {s : PostingHeap W} (sep : s.Separated) {m : Addr}
    (marked : s.list.endMark = some m) : (s.step .eraseAfterMark).Separated := by
  obtain ⟨kept, freed, rep, out⟩ := sep.cutAt marked
  have shape := step_eraseAfterMark marked
  have held : (s.step .eraseAfterMark).held = s.held := by rw [shape]
  have split : s.linked = (s.list.getFakeFront :: kept) ++ freed :=
    congrArg (List.cons _) out.split.nodes
  refine ⟨⟨rep.valid, ?_⟩, held ▸ sep.heldNodup, ?_, ?_, ?_⟩
  · intro m' marked'
    have same : m' = m := by
      rw [shape] at marked'
      exact Option.some.inj (marked'.symm.trans marked)
    change m' ∈ (s.step .eraseAfterMark).linked
    rw [out.linked, same, out.split.last]
    exact List.getLastD_mem_cons
  · intro a inside
    have known := sep.heldKnown a (held ▸ inside)
    rw [shape]
    exact known
  · intro a inside
    have apart := sep.heldOffChain a (held ▸ inside)
    rw [split] at apart
    rw [out.linked]
    exact fun onList => apart (List.mem_append_left _ onList)
  · intro a inside pooled
    have apart := sep.heldOffChain a (held ▸ inside)
    rw [split] at apart
    rw [out.pool] at pooled
    rcases List.mem_append.mp pooled with old | freedNow
    · exact sep.heldOffPool a (held ▸ inside) old
    · exact apart (List.mem_append_right _ freedNow)

theorem step_unmarked [Inhabited W] {s : PostingHeap W} (unmarked : s.list.endMark = none) :
    s.step .eraseAfterMark = s := by
  simp [PostingHeap.step, PostingList.getEndMark, unmarked, PostingList.eraseAfter]

theorem Separated.step [Inhabited W] {s : PostingHeap W} {e : Event W} (sep : s.Separated)
    (allowed : s.Allowed e) : (s.step e).Separated := by
  cases e with
  | allocatePosting => exact sep.allocate
  | fill node posting => exact sep.fill node posting
  | addPosting node => exact sep.add allowed
  | setEndMark mark => exact sep.mark allowed
  | eraseAfterMark =>
      cases marked : s.list.endMark with
      | none =>
          rw [step_unmarked marked]
          exact sep
      | some m => exact sep.cut marked

theorem effect_of_separated [Inhabited W] {s : PostingHeap W} {e : Event W} (sep : s.Separated)
    (allowed : s.Allowed e) : s.Effect e := by
  cases e with
  | allocatePosting => exact ⟨_, sep.handsOut⟩
  | fill node posting => exact sep.fill_postings allowed posting
  | addPosting node => exact sep.add_postings allowed
  | setEndMark mark => rfl
  | eraseAfterMark =>
      cases marked : s.list.endMark with
      | none =>
          simp only [Effect, PostingList.getEndMark, marked]
          exact step_unmarked marked
      | some m =>
          obtain ⟨kept, freed, -, out⟩ := sep.cutAt marked
          simp only [Effect, PostingList.getEndMark, marked]
          exact ⟨kept, freed, out⟩

/-! ## The destructor -/

/-- The destructor's walk ends, its `CHECK` holds, and it deletes each node of the
pool and of the list once and none that a caller holds. -/
structure Destroyed (s : PostingHeap W) : Prop where
  ends : ∀ fuel, s.linked.length ≤ fuel →
    follow s.list.innerList.next fuel (some s.list.getFakeFront) = s.linked
  check : s.list.innerList.destroy = some (s.pool ++ s.linked)
  once : (s.pool ++ s.linked).Nodup
  apart : ∀ a ∈ s.held, a ∉ s.pool ++ s.linked

theorem destroyed_of_separated {s : PostingHeap W} (sep : s.Separated) : s.Destroyed where
  ends := fun _ enough => LocklessList.Rep.follow_front sep.list.list enough
  check := LocklessList.Rep.destroy sep.list.list
  once := LocklessList.Rep.deleted_nodup sep.list.list
  apart := by
    intro a held deleted
    rcases List.mem_append.mp deleted with pooled | onList
    · exact sep.heldOffPool a held pooled
    · exact sep.heldOffChain a held onList

/-- **The heap of a list stays separated.**  In every state of every run the chain
is finite and acyclic and apart from the pool and the held nodes, `node_num_` is
its length modulo 2^32, every operation has its effect and no other, and the
destructor frees each node once. -/
theorem heap_stays_separated [Inhabited W] (es : List (Event W))
    (allowed : Along PostingHeap.step Allowed start es) :
    let s := run PostingHeap.step start es
    s.Separated ∧ s.list.innerList.nodeNum.toNat = s.list.nodes.length % 2 ^ 32 ∧
      (∀ e, s.Allowed e → s.Effect e) ∧ s.Destroyed := by
  intro s
  have sep : s.Separated :=
    Along.invariant (fun _ _ sep allowed => sep.step allowed) start_separated allowed
  refine ⟨sep, ?_, fun e => effect_of_separated sep, destroyed_of_separated sep⟩
  rw [sep.list.list.count]
  exact UInt32.toNat_ofNat

/-! ## Poles -/

namespace LongList

/-- Two nodes are handed out, one is added; the list is cut at its front and the
other is added. -/
def recycled : List (Event Nat) :=
  [.allocatePosting, .allocatePosting, .fill 1 ⟨5, 9, 100⟩, .addPosting 1, .setEndMark (some 0),
    .eraseAfterMark, .setEndMark none, .addPosting 2, .allocatePosting]

theorem recycled_stays_separated :
    let s := run PostingHeap.step start recycled
    s.linked = [0, 2] ∧ s.held = [1] ∧ s.pool = [] ∧ s.Separated ∧
      s.list.innerList.nodeNum.toNat = s.list.nodes.length % 2 ^ 32 ∧
        (∀ e, s.Allowed e → s.Effect e) ∧ s.Destroyed :=
  ⟨by decide, by decide, by decide, heap_stays_separated recycled (by decide)⟩

/-- `n` nodes, each added as soon as it is handed out. -/
def fillUp : Nat → List (Event Nat)
  | 0 => []
  | n + 1 => fillUp n ++ [.allocatePosting, .addPosting (n + 1)]

structure Filled (s : PostingHeap Nat) (n : Nat) : Prop where
  sep : s.Separated
  held : s.held = []
  pool : s.pool = []
  fresh : s.list.innerList.fresh = n + 1
  length : s.list.nodes.length = n

theorem Filled.allocate {s : PostingHeap Nat} {n : Nat} (filled : Filled s n) :
    s.list.innerList.allocate = s.list.innerList.newNode := by
  have empty : s.list.innerList.objPool = [] := filled.pool
  rw [LocklessList.allocate, empty]
  exact if_pos (Nat.zero_le _)

theorem fillUp_filled (n : Nat) :
    Along PostingHeap.step Allowed start (fillUp n) ∧
      Filled (run PostingHeap.step start (fillUp n)) n := by
  induction n with
  | zero => exact ⟨trivial, start_separated, rfl, rfl, rfl, rfl⟩
  | succ n ih =>
      obtain ⟨allowed, filled⟩ := ih
      rw [fillUp, Along.append, run_append]
      generalize run PostingHeap.step start (fillUp n) = s at filled
      have node : s.list.allocatePosting.1 = n + 1 := by
        change s.list.innerList.allocate.1 = n + 1
        rw [filled.allocate]
        exact filled.fresh
      have held : (s.step .allocatePosting).held = [n + 1] := by
        change s.list.allocatePosting.1 :: s.held = [n + 1]
        rw [node, filled.held]
      have pool : (s.step .allocatePosting).pool = [] := by
        change s.list.innerList.allocate.2.objPool = []
        rw [filled.allocate]
        exact filled.pool
      have fresh : (s.step .allocatePosting).list.innerList.fresh = n + 2 := by
        change s.list.innerList.allocate.2.fresh = n + 2
        rw [filled.allocate]
        exact congrArg (· + 1) filled.fresh
      have inHand : n + 1 ∈ (s.step .allocatePosting).held := by simp [held]
      have sep := filled.sep.allocate
      have rep := sep.addPosting_rep inHand
      have linked := filled.sep.handsOut.linked
      refine ⟨⟨allowed, trivial, inHand, trivial⟩, sep.add inHand, ?_, pool, fresh, ?_⟩
      · change (s.step .allocatePosting).held.erase (n + 1) = []
        simp [held]
      · have same : (s.step .allocatePosting).list.nodes = s.list.nodes := (List.cons.inj linked).2
        have nodes : ((s.step .allocatePosting).step (.addPosting (n + 1))).list.nodes =
            (n + 1) :: s.list.nodes := by rw [← same]; exact rep.nodes_eq
        change ((s.step .allocatePosting).step (.addPosting (n + 1))).list.nodes.length = n + 1
        rw [nodes, List.length_cons, filled.length]

theorem Filled.counter {s : PostingHeap Nat} {n : Nat} (filled : Filled s n) :
    s.list.innerList.nodeNum.toNat = n % 2 ^ 32 := by
  have length : s.list.innerList.nodes.length = n := filled.length
  rw [filled.sep.list.list.count, length]
  exact UInt32.toNat_ofNat

theorem fillUp_wraps {n : Nat} (multiple : n % 2 ^ 32 = 0) :
    Along PostingHeap.step Allowed start (fillUp n) ∧
      (run PostingHeap.step start (fillUp n)).list.nodes.length = n ∧
        (run PostingHeap.step start (fillUp n)).list.innerList.nodeNum.toNat = 0 := by
  obtain ⟨allowed, filled⟩ := fillUp_filled n
  exact ⟨allowed, filled.length, filled.counter.trans multiple⟩

/-- A list of 2^32 postings has the count of an empty one. -/
theorem counter_wraps :
    Along PostingHeap.step Allowed start (fillUp (2 ^ 32)) ∧
      (run PostingHeap.step start (fillUp (2 ^ 32))).list.nodes.length = 2 ^ 32 ∧
        (run PostingHeap.step start (fillUp (2 ^ 32))).list.innerList.nodeNum.toNat = 0 :=
  fillUp_wraps (by norm_num)

end LongList

end PostingHeap

end RecommEngine.Indexing
