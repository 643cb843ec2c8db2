/-
# Util.LocklessList -- the single-writer list over a heap of nodes

`util::LocklessList` and its `ListAllocator`.  The two fields of `ListNode` are
two field heaps (`data`, `next`), a node is an address, and a null pointer is
`none`.  Each list owns its allocator, so its heap is its own: `fresh` counts
the nodes `new` has produced, and `objPool` holds the recycled ones in the order
`Recycle` pushed them back.

`Rep l chain` is the representation invariant: `chain` is what `next` visits
from the fake front, it has no repetition, the pool is apart from it, and the
counter agrees.  `nodes` recomputes that chain by walking the heap, and
`Valid l` is `Rep l l.nodes`, so a list's contents are a function of its heap.
-/
import RecommEngine.Theory.Chain

namespace RecommEngine.Util

set_option autoImplicit false

open Theory.Chain

/-- The address of a `ListNode`. -/
abbrev Addr := Nat

structure LocklessList (α : Type) where
  data : Addr → α
  next : Addr → Option Addr
  /-- Addresses below `fresh` have been produced by `new ListNode`. -/
  fresh : Addr
  front : Addr
  bufferNum : Nat
  objPool : List Addr
  nodeNum : UInt32

namespace LocklessList

variable {α : Type}

/-! ## The operations -/

/-- `new ListNode<Type>()`: default data and a null link. -/
def newNode [Inhabited α] (l : LocklessList α) : Addr × LocklessList α :=
  (l.fresh, { l with
    data := Function.update l.data l.fresh default
    next := Function.update l.next l.fresh none
    fresh := l.fresh + 1 })

/-- `ListAllocator::Allocate`. -/
def allocate [Inhabited α] (l : LocklessList α) : Addr × LocklessList α :=
  if l.objPool.length ≤ l.bufferNum then l.newNode
  else
    match l.objPool with
    | [] => l.newNode
    | node :: rest => (node, { l with next := Function.update l.next node none, objPool := rest })

/-- The constructor with a null allocator: an own allocator with
`buffer_num_ = 0`, and the fake front as its first node. -/
def create [Inhabited α] : LocklessList α where
  data := fun _ => default
  next := fun _ => none
  fresh := 1
  front := 0
  bufferNum := 0
  objPool := []
  nodeNum := 0

/-- `*node->data = value`. -/
def setData (l : LocklessList α) (node : Addr) (value : α) : LocklessList α :=
  { l with data := Function.update l.data node value }

def pushFront (l : LocklessList α) (node : Addr) : LocklessList α :=
  { l with
    next := Function.update (Function.update l.next node (l.next l.front)) l.front (some node)
    nodeNum := l.nodeNum + 1 }

/-- `ListAllocator::Recycle`: the nodes from `node` on, pushed back in order,
and how many they were. -/
def recycle (l : LocklessList α) (node : Option Addr) : UInt32 × LocklessList α :=
  let freed := follow l.next l.fresh node
  (UInt32.ofNat freed.length, { l with objPool := l.objPool ++ freed })

def eraseAfter (l : LocklessList α) : Option Addr → LocklessList α
  | none => l
  | some node =>
      let p := l.next node
      let cut := { l with next := Function.update l.next node none }
      let (count, recycled) := cut.recycle p
      { recycled with nodeNum := recycled.nodeNum - count }

/-- `~LocklessList` of a list that owns its allocator: the nodes deleted with
the pool, in order, unless the `CHECK` on the count ends the process. -/
def destroy (l : LocklessList α) : Option (List Addr) :=
  let (count, recycled) := l.recycle (some l.front)
  if count = l.nodeNum + 1 then some recycled.objPool else none

@[simp] theorem pushFront_front (l : LocklessList α) (node : Addr) :
    (l.pushFront node).front = l.front := rfl

@[simp] theorem pushFront_data (l : LocklessList α) (node : Addr) :
    (l.pushFront node).data = l.data := rfl

@[simp] theorem setData_front (l : LocklessList α) (node : Addr) (value : α) :
    (l.setData node value).front = l.front := rfl

@[simp] theorem eraseAfter_front (l : LocklessList α) (node : Option Addr) :
    (l.eraseAfter node).front = l.front := by
  cases node <;> rfl

@[simp] theorem eraseAfter_data (l : LocklessList α) (node : Option Addr) :
    (l.eraseAfter node).data = l.data := by
  cases node <;> rfl

/-! ## The representation invariant -/

structure Rep (l : LocklessList α) (chain : List Addr) : Prop where
  links : Links l.next l.front chain
  nodup : (l.front :: chain).Nodup
  below : ∀ a ∈ l.front :: chain, a < l.fresh
  poolNodup : l.objPool.Nodup
  poolBelow : ∀ a ∈ l.objPool, a < l.fresh
  poolApart : ∀ a ∈ l.objPool, a ∉ l.front :: chain
  count : l.nodeNum = UInt32.ofNat chain.length

/-- The nodes behind the fake front, read off the heap. -/
def nodes (l : LocklessList α) : List Addr :=
  follow l.next l.fresh (l.next l.front)

/-- The stored values, front to back. -/
def contents (l : LocklessList α) : List α :=
  l.nodes.map l.data

def Valid (l : LocklessList α) : Prop :=
  l.Rep l.nodes

theorem length_le_of_below {chain : List Addr} {n : Nat} (nodup : chain.Nodup)
    (below : ∀ a ∈ chain, a < n) : chain.length ≤ n := by
  have sub : chain ⊆ List.range n := fun a ha => List.mem_range.mpr (below a ha)
  simpa using (nodup.subperm sub).length_le

theorem Rep.length_lt {l : LocklessList α} {chain : List Addr} (rep : l.Rep chain) :
    chain.length < l.fresh := by
  have := length_le_of_below rep.nodup rep.below
  simpa using this

theorem Rep.nodes_eq {l : LocklessList α} {chain : List Addr} (rep : l.Rep chain) :
    l.nodes = chain :=
  follow_eq rep.links rep.length_lt.le

theorem Rep.valid {l : LocklessList α} {chain : List Addr} (rep : l.Rep chain) : l.Valid := by
  rw [Valid, rep.nodes_eq]
  exact rep

theorem Rep.front_not_mem {l : LocklessList α} {chain : List Addr} (rep : l.Rep chain) :
    l.front ∉ chain :=
  (List.nodup_cons.mp rep.nodup).1

theorem create_rep [Inhabited α] : (create : LocklessList α).Rep [] where
  links := rfl
  nodup := by simp
  below := by simp [create]
  poolNodup := List.nodup_nil
  poolBelow := by simp [create]
  poolApart := by simp [create]
  count := rfl

theorem Rep.setData {l : LocklessList α} {chain : List Addr} (rep : l.Rep chain) (node : Addr)
    (value : α) : (l.setData node value).Rep chain :=
  ⟨rep.links, rep.nodup, rep.below, rep.poolNodup, rep.poolBelow, rep.poolApart, rep.count⟩

/-- What `Allocate` hands out: a node that is on no chain and in no pool.  The
chain and its data are untouched. -/
structure Allocated (l : LocklessList α) (chain : List Addr) (out : Addr × LocklessList α) :
    Prop where
  rep : out.2.Rep chain
  front : out.2.front = l.front
  offChain : out.1 ∉ l.front :: chain
  offPool : out.1 ∉ out.2.objPool
  known : out.1 < out.2.fresh
  data : ∀ a ∈ l.front :: chain, out.2.data a = l.data a

theorem Rep.newNode [Inhabited α] {l : LocklessList α} {chain : List Addr} (rep : l.Rep chain) :
    Allocated l chain l.newNode := by
  have offChain : l.fresh ∉ l.front :: chain := fun h => lt_irrefl _ (rep.below _ h)
  have offPool : l.fresh ∉ l.objPool := fun h => lt_irrefl _ (rep.poolBelow _ h)
  refine ⟨⟨rep.links.update offChain, rep.nodup, ?_, rep.poolNodup, ?_,
    rep.poolApart, rep.count⟩, rfl, offChain, offPool, Nat.lt_succ_self _, ?_⟩
  · intro a ha
    exact Nat.lt_succ_of_lt (rep.below a ha)
  · intro a ha
    exact Nat.lt_succ_of_lt (rep.poolBelow a ha)
  · intro a ha
    exact Function.update_of_ne (by rintro rfl; exact offChain ha) _ _

theorem Rep.allocate [Inhabited α] {l : LocklessList α} {chain : List Addr} (rep : l.Rep chain) :
    Allocated l chain l.allocate := by
  unfold LocklessList.allocate
  split
  · exact rep.newNode
  · split
    · exact rep.newNode
    · rename_i node rest pool
      have inPool : node ∈ l.objPool := by simp [pool]
      have apart := rep.poolApart node inPool
      have restSub : ∀ a ∈ rest, a ∈ l.objPool := fun a ha => by simp [pool, ha]
      have poolNodup := rep.poolNodup
      rw [pool, List.nodup_cons] at poolNodup
      exact ⟨⟨rep.links.update apart, rep.nodup, rep.below, poolNodup.2,
        fun a ha => rep.poolBelow a (restSub a ha), fun a ha => rep.poolApart a (restSub a ha),
        rep.count⟩, rfl, apart, poolNodup.1, rep.poolBelow node inPool, fun _ _ => rfl⟩

/-- Where `Allocate` takes its node from, and what it leaves alone. -/
structure AllocFrame (l : LocklessList α) (out : Addr × LocklessList α) : Prop where
  origin : out.1 = l.fresh ∨ out.1 ∈ l.objPool
  pool : ∀ a ∈ out.2.objPool, a ∈ l.objPool
  fresh : l.fresh ≤ out.2.fresh
  data : ∀ a, a ≠ out.1 → out.2.data a = l.data a

theorem newNode_frame [Inhabited α] (l : LocklessList α) : AllocFrame l l.newNode :=
  ⟨Or.inl rfl, fun _ inside => inside, Nat.le_succ _, fun _ ne => Function.update_of_ne ne _ _⟩

theorem allocate_frame [Inhabited α] (l : LocklessList α) : AllocFrame l l.allocate := by
  unfold allocate
  split
  · exact newNode_frame l
  · split
    · exact newNode_frame l
    · rename_i node rest pool
      exact ⟨Or.inr (by simp [pool]), fun a inside => by simp [pool, inside], le_rfl,
        fun _ _ => rfl⟩

theorem Rep.pushFront {l : LocklessList α} {chain : List Addr} (rep : l.Rep chain) {node : Addr}
    (offChain : node ∉ l.front :: chain) (offPool : node ∉ l.objPool) (known : node < l.fresh) :
    (l.pushFront node).Rep (node :: chain) := by
  have ne : node ≠ l.front := fun h => offChain (by simp [h])
  refine ⟨rep.links.splice rep.nodup offChain, ?_, ?_, rep.poolNodup, rep.poolBelow, ?_, ?_⟩
  · have fresh : node ∉ chain := fun h => offChain (List.mem_cons_of_mem _ h)
    have := List.nodup_cons.mp rep.nodup
    have frontOff : l.front ∉ node :: chain := by simp [ne.symm, this.1]
    exact List.nodup_cons.mpr ⟨frontOff, List.nodup_cons.mpr ⟨fresh, this.2⟩⟩
  · intro a ha
    simp only [pushFront_front, List.mem_cons] at ha
    rcases ha with rfl | rfl | ha
    · exact rep.below _ (by simp)
    · exact known
    · exact rep.below a (List.mem_cons_of_mem _ ha)
  · intro a ha hin
    simp only [pushFront_front, List.mem_cons] at hin
    rcases hin with rfl | rfl | hin
    · exact rep.poolApart _ ha (by simp)
    · exact offPool ha
    · exact rep.poolApart a ha (List.mem_cons_of_mem _ hin)
  · simp [LocklessList.pushFront, rep.count, UInt32.ofNat_add]

/-! ## Cutting the list

`EraseAfter` is stated once for the split of the chain at the cut: `kept` stays
and `freed` goes to the pool.  The cut is at the fake front when `kept` is
empty, and otherwise at the last kept node. -/

/-- The loop of `Recycle` behind the cut: the cut link is not one of its own. -/
theorem follow_afterCut {l : LocklessList α} {kept freed : List Addr}
    (rep : l.Rep (kept ++ freed)) {node : Addr} (at_ : node = kept.getLastD l.front)
    {fuel : Nat} (enough : freed.length ≤ fuel) :
    follow (Function.update l.next node none) fuel (l.next node) = freed := by
  obtain ⟨behind, -, off⟩ := rep.links.cut rep.nodup at_
  exact follow_of_leads (behind.update off) enough

theorem Rep.eraseAfter {l : LocklessList α} {kept freed : List Addr}
    (rep : l.Rep (kept ++ freed)) {node : Addr} (at_ : node = kept.getLastD l.front) :
    (l.eraseAfter (some node)).Rep kept ∧
      (l.eraseAfter (some node)).objPool = l.objPool ++ freed := by
  obtain ⟨-, before, -⟩ := rep.links.cut rep.nodup at_
  have short : freed.length ≤ l.fresh := by
    have := rep.length_lt
    simp only [List.length_append] at this
    omega
  have walked := follow_afterCut rep at_ short
  have shape : l.eraseAfter (some node) =
      { l with
        next := Function.update l.next node none
        objPool := l.objPool ++ freed
        nodeNum := l.nodeNum - UInt32.ofNat freed.length } := by
    simp [LocklessList.eraseAfter, recycle, walked]
  rw [shape]
  have keptSub : ∀ a ∈ l.front :: kept, a ∈ l.front :: (kept ++ freed) := by
    intro a ha
    simp only [List.mem_cons, List.mem_append] at ha ⊢
    tauto
  have freedSub : ∀ a ∈ freed, a ∈ l.front :: (kept ++ freed) := by
    intro a ha
    simp [ha]
  have split := rep.nodup
  rw [← List.cons_append, List.nodup_append] at split
  obtain ⟨keptNodup, freedNodup, apart⟩ := split
  refine ⟨⟨before, keptNodup, fun a ha => rep.below a (keptSub a ha), ?_, ?_, ?_, ?_⟩, rfl⟩
  · refine List.nodup_append.mpr ⟨rep.poolNodup, freedNodup, ?_⟩
    intro a ha b hb
    rintro rfl
    exact rep.poolApart a ha (freedSub a hb)
  · intro a ha
    rcases List.mem_append.mp ha with ha | ha
    · exact rep.poolBelow a ha
    · exact rep.below a (freedSub a ha)
  · intro a ha hin
    rcases List.mem_append.mp ha with ha | ha
    · exact rep.poolApart a ha (keptSub a hin)
    · exact apart a hin a ha rfl
  · simp [rep.count, UInt32.ofNat_add]

/-- The loop of `Recycle` in the destructor. -/
theorem Rep.follow_front {l : LocklessList α} {chain : List Addr} (rep : l.Rep chain) {fuel : Nat}
    (enough : chain.length < fuel) : follow l.next fuel (some l.front) = l.front :: chain := by
  cases fuel with
  | zero => simp at enough
  | succ fuel => rw [follow, follow_eq rep.links (Nat.le_of_lt_succ enough)]

theorem Rep.destroy {l : LocklessList α} {chain : List Addr} (rep : l.Rep chain) :
    l.destroy = some (l.objPool ++ l.front :: chain) := by
  have counted : UInt32.ofNat (l.front :: chain).length = l.nodeNum + 1 := by
    rw [rep.count, List.length_cons, UInt32.ofNat_add]
    rfl
  rw [LocklessList.destroy, recycle, rep.follow_front rep.length_lt]
  exact if_pos counted

theorem Rep.deleted_nodup {l : LocklessList α} {chain : List Addr} (rep : l.Rep chain) :
    (l.objPool ++ l.front :: chain).Nodup := by
  refine List.nodup_append.mpr ⟨rep.poolNodup, rep.nodup, ?_⟩
  intro a pooled b linked
  rintro rfl
  exact rep.poolApart a pooled linked

end LocklessList

end RecommEngine.Util
