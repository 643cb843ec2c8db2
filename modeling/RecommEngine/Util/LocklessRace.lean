/-
# Util.LocklessRace -- the builder and the cleaner on one list, statement by statement

`PushFront` and `EraseAfter` take no lock of the list, and their callers share the read
lock of the index, so the statements of the two interleave.  Here every access to a
shared cell (`front_->next`, the link behind the mark, `node_num_`) is a step of its own;
`Allocate` and `Recycle` are one step each, under the mutex of the allocator.  Accesses
happen in one order for all threads.

`Placed` says that nothing is lost and nothing is in two places: the chain, the pool, the
node in the builder's hand and the nodes the cleaner has cut off are all nodes there are.

* `Placed.step`: what one statement does, and when it leaves places and counter right;
* `sound_iff`: an interleaving keeps both right in all its states exactly if no access is
  stale, that is, each write finds its cell as it was read;
* `links_sound_iff`: the same for the places alone;
* `run_wholePush`, `run_wholeErase`: operations that nothing comes between are those of
  `Util.LocklessList`.
-/
import RecommEngine.Theory.Run
import RecommEngine.Util.LocklessList

namespace RecommEngine.Util

set_option autoImplicit false

open Theory.Chain Theory.Run

/-- `Allocate` writes one link, and none of the other cells. -/
structure LocklessList.AllocCells {α : Type} (l : LocklessList α) (out : Addr × LocklessList α) :
    Prop where
  front : out.2.front = l.front
  buffer : out.2.bufferNum = l.bufferNum
  num : out.2.nodeNum = l.nodeNum
  next : ∀ a, a ≠ out.1 → out.2.next a = l.next a

theorem LocklessList.allocate_cells {α : Type} [Inhabited α] (l : LocklessList α) :
    AllocCells l l.allocate := by
  unfold allocate
  split
  · exact ⟨rfl, rfl, rfl, fun _ other => Function.update_of_ne other _ _⟩
  · split <;> exact ⟨rfl, rfl, rfl, fun _ other => Function.update_of_ne other _ _⟩

/-- Where the builder is between `AllocatePosting` and the end of `AddPosting`. -/
inductive PushPc (α : Type) where
  | idle
  | fill (node : Addr) (value : α)
  | link (node : Addr)
  /-- `node->next = front_->next` has read `seen`. -/
  | swap (node : Addr) (seen : Option Addr)
  | load
  | store (num : UInt32)

/-- Where the cleaner is in `EraseAfter`. -/
inductive ErasePc where
  | idle
  /-- `p = node->next` was read. -/
  | cut (node : Addr) (p : Option Addr)
  | recycle (p : Option Addr)
  | load (count : UInt32)
  | store (count num : UInt32)

inductive RaceEvent (α : Type) where
  /-- The builder gets a node for `value`. -/
  | pushFront (value : α)
  /-- The next statement of the builder. -/
  | builder
  /-- The cleaner starts to erase behind `node`. -/
  | eraseAfter (node : Option Addr)
  /-- The next statement of the cleaner. -/
  | cleaner

structure ListRace (α : Type) where
  list : LocklessList α
  push : PushPc α := .idle
  erase : ErasePc := .idle

namespace ListRace

variable {α : Type}

/-! ## The statements -/

def builder (s : ListRace α) : ListRace α :=
  match s.push with
  | .idle => s
  | .fill node value => { s with list := s.list.setData node value, push := .link node }
  | .link node =>
      let seen := s.list.next s.list.front
      { s with
        list := { s.list with next := Function.update s.list.next node seen }
        push := .swap node seen }
  | .swap node _ =>
      { s with
        list := { s.list with next := Function.update s.list.next s.list.front (some node) }
        push := .load }
  | .load => { s with push := .store s.list.nodeNum }
  | .store num => { s with list := { s.list with nodeNum := num + 1 }, push := .idle }

def cleaner (s : ListRace α) : ListRace α :=
  match s.erase with
  | .idle => s
  | .cut node p =>
      { s with
        list := { s.list with next := Function.update s.list.next node none }
        erase := .recycle p }
  | .recycle p => { s with list := (s.list.recycle p).2, erase := .load (s.list.recycle p).1 }
  | .load count => { s with erase := .store count s.list.nodeNum }
  | .store count num => { s with list := { s.list with nodeNum := num - count }, erase := .idle }

variable [Inhabited α]

def pushFront (s : ListRace α) (value : α) : ListRace α :=
  match s.push with
  | .idle => { s with list := s.list.allocate.2, push := .fill s.list.allocate.1 value }
  | _ => s

omit [Inhabited α] in
def eraseAfter (s : ListRace α) (node : Addr) : ListRace α :=
  match s.erase with
  | .idle => { s with erase := .cut node (s.list.next node) }
  | _ => s

def step (s : ListRace α) : RaceEvent α → ListRace α
  | .pushFront value => s.pushFront value
  | .builder => s.builder
  | .eraseAfter none => s
  | .eraseAfter (some node) => s.eraseAfter node
  | .cleaner => s.cleaner

def start : ListRace α := { list := .create }

omit [Inhabited α] in
/-- The cleaner erases behind the fake front or a node of the list. -/
def Allowed (s : ListRace α) : RaceEvent α → Prop
  | .eraseAfter (some node) => node ∈ s.list.front :: s.list.nodes
  | _ => True

omit [Inhabited α] in
instance (s : ListRace α) : DecidablePred s.Allowed
  | .eraseAfter (some node) => inferInstanceAs (Decidable (node ∈ s.list.front :: s.list.nodes))
  | .eraseAfter none | .pushFront _ | .builder | .cleaner => .isTrue trivial

end ListRace

/-! ## Places and the counter -/

/-- The node in the builder's hand. -/
def PushPc.hand {α : Type} : PushPc α → List Addr
  | .fill node _ => [node]
  | .link node => [node]
  | .swap node _ => [node]
  | _ => []

/-- The link to the nodes that were cut off and not recycled yet. -/
def ErasePc.cutOff : ErasePc → Option Addr
  | .recycle p => p
  | _ => none

/-- What the builder still has to add to the counter. -/
def PushPc.owed {α : Type} : PushPc α → UInt32
  | .load => 1
  | .store _ => 1
  | _ => 0

/-- What the cleaner still has to take off the counter. -/
def ErasePc.owed (freed : List Addr) : ErasePc → UInt32
  | .recycle _ => UInt32.ofNat freed.length
  | .load count => count
  | .store count _ => count
  | _ => 0

/-- What an erase behind `node` leaves of a chain. -/
def keepTo (front node : Addr) (chain : List Addr) : List Addr :=
  if node = front then [] else chain.take (chain.idxOf node + 1)

theorem getLastD_keepTo {front node : Addr} {chain : List Addr} (inside : node ∈ front :: chain) :
    (keepTo front node chain).getLastD front = node := by
  unfold keepTo
  split
  · rename_i same
    exact same.symm
  · rename_i other
    have member : node ∈ chain := (List.mem_cons.mp inside).resolve_left other
    have within := List.idxOf_lt_length_of_mem member
    rw [← List.take_concat_get' _ _ within, List.getElem_idxOf within, List.getLastD_concat]

theorem exists_keepTo (front node : Addr) (chain : List Addr) :
    ∃ freed, chain = keepTo front node chain ++ freed := by
  unfold keepTo
  split
  · exact ⟨chain, rfl⟩
  · exact ⟨chain.drop (chain.idxOf node + 1), (List.take_append_drop _ _).symm⟩

/-- A swap puts its node in front. -/
def PushPc.listAfter {α : Type} (chain : List Addr) : PushPc α → List Addr
  | .swap node _ => node :: chain
  | _ => chain

/-- A cut takes off what is behind the mark. -/
def ErasePc.listAfter (front : Addr) (chain : List Addr) : ErasePc → List Addr
  | .cut node _ => keepTo front node chain
  | _ => chain

/-! A write is fresh if its cell is as it was read. -/

def PushPc.FreshSwap {α : Type} (l : LocklessList α) : PushPc α → Prop
  | .swap _ seen => l.next l.front = seen
  | _ => True

def ErasePc.FreshCut {α : Type} (l : LocklessList α) : ErasePc → Prop
  | .cut node p => l.next node = p
  | _ => True

def PushPc.FreshStore {α : Type} (l : LocklessList α) : PushPc α → Prop
  | .store num => num = l.nodeNum
  | _ => True

def ErasePc.FreshStore {α : Type} (l : LocklessList α) : ErasePc → Prop
  | .store _ num => num = l.nodeNum
  | _ => True

instance {α : Type} (l : LocklessList α) : DecidablePred (PushPc.FreshSwap l)
  | .swap _ seen => inferInstanceAs (Decidable (l.next l.front = seen))
  | .idle | .fill _ _ | .link _ | .load | .store _ => .isTrue trivial

instance {α : Type} (l : LocklessList α) : DecidablePred (ErasePc.FreshCut l)
  | .cut node p => inferInstanceAs (Decidable (l.next node = p))
  | .idle | .recycle _ | .load _ | .store _ _ => .isTrue trivial

instance {α : Type} (l : LocklessList α) : DecidablePred (PushPc.FreshStore l)
  | .store num => inferInstanceAs (Decidable (num = l.nodeNum))
  | .idle | .fill _ _ | .link _ | .swap _ _ | .load => .isTrue trivial

instance {α : Type} (l : LocklessList α) : DecidablePred (ErasePc.FreshStore l)
  | .store _ num => inferInstanceAs (Decidable (num = l.nodeNum))
  | .idle | .cut _ _ | .recycle _ | .load _ => .isTrue trivial

theorem PushPc.between_swaps {α : Type} {pc : PushPc α}
    (between : ∀ node seen, pc ≠ .swap node seen) (l : LocklessList α) (chain : List Addr) : pc.FreshSwap l ∧ pc.listAfter chain = chain := by
  cases pc with
  | swap node seen => exact absurd rfl (between node seen)
  | _ => exact ⟨trivial, rfl⟩

theorem ErasePc.between_cuts {α : Type} {pc : ErasePc} (between : ∀ node p, pc ≠ .cut node p)
    (l : LocklessList α) (chain : List Addr) :
    pc.FreshCut l ∧ pc.listAfter l.front chain = chain := by
  cases pc with
  | cut node p => exact absurd rfl (between node p)
  | _ => exact ⟨trivial, rfl⟩

namespace ListRace

variable {α : Type}

def places (s : ListRace α) (chain freed : List Addr) : List Addr :=
  s.list.front :: chain ++ (s.list.objPool ++ (s.push.hand ++ freed))

structure Placed (s : ListRace α) (chain freed : List Addr) : Prop where
  links : Links s.list.next s.list.front chain
  leads : Leads s.list.next s.erase.cutOff freed
  all : (s.places chain freed).Perm (List.range s.list.fresh)
  linked : ∀ node seen, s.push = .swap node seen → s.list.next node = seen
  inside : ∀ node p, s.erase = .cut node p → node ∈ s.list.front :: chain

def IsPlaced (s : ListRace α) : Prop := ∃ chain freed, s.Placed chain freed

/-- The counter, with what is still to be added and taken off. -/
def Counted (s : ListRace α) (chain freed : List Addr) : Prop :=
  s.list.nodeNum + s.push.owed = UInt32.ofNat chain.length + s.erase.owed freed

def IsSound (s : ListRace α) : Prop := ∃ chain freed, s.Placed chain freed ∧ s.Counted chain freed

def FreshLinks (s : ListRace α) : RaceEvent α → Prop
  | .builder => s.push.FreshSwap s.list
  | .cleaner => s.erase.FreshCut s.list
  | _ => True

def FreshCount (s : ListRace α) : RaceEvent α → Prop
  | .builder => s.push.FreshStore s.list
  | .cleaner => s.erase.FreshStore s.list
  | _ => True

/-- Every write of the statement finds its cell as it was read. -/
def Fresh (s : ListRace α) (e : RaceEvent α) : Prop := s.FreshLinks e ∧ s.FreshCount e

instance (s : ListRace α) : DecidablePred s.FreshLinks
  | .builder => inferInstanceAs (Decidable (s.push.FreshSwap s.list))
  | .cleaner => inferInstanceAs (Decidable (s.erase.FreshCut s.list))
  | .pushFront _ | .eraseAfter _ => .isTrue trivial

instance (s : ListRace α) : DecidablePred s.FreshCount
  | .builder => inferInstanceAs (Decidable (s.push.FreshStore s.list))
  | .cleaner => inferInstanceAs (Decidable (s.erase.FreshStore s.list))
  | .pushFront _ | .eraseAfter _ => .isTrue trivial

instance (s : ListRace α) : DecidablePred s.Fresh := fun e =>
  inferInstanceAs (Decidable (s.FreshLinks e ∧ s.FreshCount e))

/-- What a statement makes of the list. -/
def listAfter (s : ListRace α) (chain : List Addr) : RaceEvent α → List Addr
  | .builder => s.push.listAfter chain
  | .cleaner => s.erase.listAfter s.list.front chain
  | _ => chain

variable {s : ListRace α} {chain freed : List Addr}

namespace Placed

theorem nodup (placed : s.Placed chain freed) : (s.places chain freed).Nodup :=
  placed.all.nodup_iff.mpr List.nodup_range

theorem mem_iff (placed : s.Placed chain freed) {a : Addr} :
    a ∈ s.places chain freed ↔ a < s.list.fresh :=
  placed.all.mem_iff.trans List.mem_range

theorem chain_nodup (placed : s.Placed chain freed) : (s.list.front :: chain).Nodup :=
  (List.nodup_append.mp placed.nodup).1

/-- What is not on the chain is in one other place. -/
theorem rest_nodup (placed : s.Placed chain freed) :
    (s.list.objPool ++ (s.push.hand ++ freed)).Nodup :=
  (List.nodup_append.mp placed.nodup).2.1

theorem off_chain (placed : s.Placed chain freed) {a : Addr}
    (inside : a ∈ s.list.objPool ++ (s.push.hand ++ freed)) : a ∉ s.list.front :: chain :=
  fun linked => (List.nodup_append.mp placed.nodup).2.2 a linked a inside rfl

theorem hand_off_chain (placed : s.Placed chain freed) {a : Addr} (held : a ∈ s.push.hand) :
    a ∉ s.list.front :: chain :=
  placed.off_chain (List.mem_append_right _ (List.mem_append_left _ held))

theorem freed_off_chain (placed : s.Placed chain freed) {a : Addr} (off : a ∈ freed) :
    a ∉ s.list.front :: chain :=
  placed.off_chain (List.mem_append_right _ (List.mem_append_right _ off))

theorem hand_off_freed (placed : s.Placed chain freed) {a : Addr} (held : a ∈ s.push.hand) :
    a ∉ freed := by
  intro off
  have nodup := (List.nodup_append.mp placed.rest_nodup).2.1
  exact (List.nodup_append.mp nodup).2.2 a held a off rfl

theorem length_lt (placed : s.Placed chain freed) : chain.length < s.list.fresh := by
  have length := placed.all.length_eq
  simp only [places, List.length_append, List.length_cons, List.length_range] at length
  omega

theorem nodes_eq (placed : s.Placed chain freed) : s.list.nodes = chain :=
  follow_eq placed.links placed.length_lt.le

theorem unique (placed : s.Placed chain freed) {chain' freed' : List Addr}
    (placed' : s.Placed chain' freed') : chain' = chain ∧ freed' = freed :=
  ⟨placed'.links.unique placed.links, placed'.leads.unique placed.leads⟩

theorem freed_nil (placed : s.Placed chain freed) (none_ : s.erase.cutOff = none) : freed = [] := by
  have leads := placed.leads
  rw [none_] at leads
  exact leads.unique (rfl : Leads s.list.next none [])

/-- A step that touches no link and moves no node. -/
theorem same (placed : s.Placed chain freed) {t : ListRace α} (next : t.list.next = s.list.next)
    (front : t.list.front = s.list.front) (pool : t.list.objPool = s.list.objPool)
    (fresh : t.list.fresh = s.list.fresh) (hand : t.push.hand = s.push.hand)
    (off : t.erase.cutOff = s.erase.cutOff)
    (linked : ∀ node seen, t.push = .swap node seen → s.push = .swap node seen)
    (inside : ∀ node p, t.erase = .cut node p → node ∈ s.list.front :: chain) :
    t.Placed chain freed := by
  refine ⟨?_, ?_, ?_, ?_, ?_⟩
  · rw [next, front]
    exact placed.links
  · rw [next, off]
    exact placed.leads
  · rw [places, front, pool, hand, fresh]
    exact placed.all
  · intro node seen here
    rw [next]
    exact placed.linked node seen (linked node seen here)
  · rw [front]
    exact inside

/-! ## What each statement does to the places -/

theorem pushFront [Inhabited α] (placed : s.Placed chain freed) (value : α) :
    (s.pushFront value).Placed chain freed := by
  unfold ListRace.pushFront
  split
  · rename_i idle
    have hand : s.push.hand = [] := by rw [idle]; rfl
    have all := placed.all
    rw [places, hand, List.nil_append] at all
    have new : ({ s with list := s.list.newNode.2, push := .fill s.list.newNode.1 value } :
        ListRace α).Placed chain freed := by
      have unknown : s.list.fresh ∉ s.places chain freed := fun known =>
        lt_irrefl _ (placed.mem_iff.mp known)
      simp only [places, List.mem_append, not_or] at unknown
      refine ⟨placed.links.update unknown.1, placed.leads.update unknown.2.2.2, ?_, ?_,
        placed.inside⟩
      · show (s.list.front :: chain ++ (s.list.objPool ++ s.list.fresh :: freed)).Perm
          (List.range (s.list.fresh + 1))
        rw [List.range_succ]
        calc (s.list.front :: chain ++ (s.list.objPool ++ s.list.fresh :: freed)).Perm
              (s.list.front :: chain ++ s.list.fresh :: (s.list.objPool ++ freed)) :=
              List.perm_middle.append_left _
          _ |>.Perm (s.list.fresh :: (s.list.front :: chain ++ (s.list.objPool ++ freed))) :=
              List.perm_middle
          _ |>.Perm (s.list.fresh :: List.range s.list.fresh) := all.cons _
          _ |>.Perm (List.range s.list.fresh ++ [s.list.fresh]) :=
              (List.perm_append_singleton _ _).symm
      · intro node seen here
        cases here
    unfold LocklessList.allocate
    split
    · exact new
    · split
      · exact new
      · rename_i node rest pool
        have pooled : node ∈ s.list.objPool := by simp [pool]
        have offChain := placed.off_chain (List.mem_append_left _ pooled)
        have offFreed : node ∉ freed := fun off =>
          (List.nodup_append.mp placed.rest_nodup).2.2 node pooled node
            (List.mem_append_right _ off) rfl
        refine ⟨placed.links.update offChain, placed.leads.update offFreed, ?_, ?_, placed.inside⟩
        · show (s.list.front :: chain ++ (rest ++ node :: freed)).Perm (List.range s.list.fresh)
          rw [pool] at all
          exact (List.perm_middle.append_left _).trans all
        · intro node' seen here
          cases here
  · exact placed

/-- The builder links its own node: no other place has it. -/
theorem link (placed : s.Placed chain freed) {node : Addr} (here : s.push = .link node) :
    s.builder.Placed chain freed := by
  have held : node ∈ s.push.hand := by simp [here, PushPc.hand]
  rw [builder, here]
  refine ⟨placed.links.update (placed.hand_off_chain held),
    placed.leads.update (placed.hand_off_freed held), ?_, ?_, placed.inside⟩
  · have all := placed.all
    rw [places, here] at all
    exact all
  · intro node' seen' same
    obtain ⟨rfl, rfl⟩ := PushPc.swap.inj same
    exact Function.update_self _ _ _

/-- A swap that finds what the link was set to puts the node in front. -/
theorem swap (placed : s.Placed chain freed) {node : Addr} {seen : Option Addr}
    (here : s.push = .swap node seen) (fresh : s.list.next s.list.front = seen) :
    s.builder.Placed (node :: chain) freed := by
  have held : node ∈ s.push.hand := by simp [here, PushPc.hand]
  have linked : Function.update s.list.next node (s.list.next s.list.front) = s.list.next := by
    rw [fresh, ← placed.linked node seen here]
    exact Function.update_eq_self _ _
  have spliced := placed.links.splice placed.chain_nodup (placed.hand_off_chain held)
  rw [linked] at spliced
  rw [builder, here]
  refine ⟨spliced, ?_, ?_, ?_, ?_⟩
  · refine placed.leads.update fun off => placed.freed_off_chain off List.mem_cons_self
  · have all := placed.all
    rw [places, here] at all
    refine List.Perm.trans ?_ all
    show (s.list.front :: node :: (chain ++ (s.list.objPool ++ freed))).Perm
      (s.list.front :: (chain ++ (s.list.objPool ++ node :: freed)))
    refine List.Perm.cons _ ?_
    exact List.perm_middle.symm.trans (List.perm_middle.symm.append_left _)
  · intro node' seen' same
    cases same
  · intro node' p same
    rcases List.mem_cons.mp (placed.inside node' p same) with rfl | member
    · exact List.mem_cons_self
    · exact List.mem_cons_of_mem _ (List.mem_cons_of_mem _ member)

/-- After a swap the nodes are in their places only if it found what the link was set to. -/
theorem fresh_of_swap (placed : s.Placed chain freed) {node : Addr} {seen : Option Addr}
    (here : s.push = .swap node seen) (after : s.builder.IsPlaced) :
    s.list.next s.list.front = seen := by
  obtain ⟨chain', freed', placed'⟩ := after
  have held : node ∈ s.push.hand := by simp [here, PushPc.hand]
  have frontOff : s.list.front ∉ freed := fun off => placed.freed_off_chain off List.mem_cons_self
  rw [builder, here] at placed'
  obtain rfl : freed' = freed := placed'.leads.unique (placed.leads.update frontOff)
  -- The new chain starts with the node, and has one node more than the old one.
  have links := links_iff_leads.mp placed'.links
  simp only [Function.update_self] at links
  cases chain' with
  | nil => cases links
  | cons first rest =>
      obtain ⟨same, tail⟩ := links
      obtain rfl := Option.some.inj same
      have length : rest.length = chain.length := by
        have before := placed.all.length_eq
        have after := placed'.all.length_eq
        rw [places, here] at before
        simp only [places, PushPc.hand, List.length_append, List.length_cons, List.length_nil,
          List.length_range] at before after
        omega
      have offRest : s.list.front ∉ node :: rest := (List.nodup_cons.mp placed'.chain_nodup).1
      have behind : Leads s.list.next seen rest := by
        rw [← placed.linked node seen here]
        apply links_iff_leads.mp
        refine tail.congr fun b inside => (Function.update_of_ne ?_ _ _).symm
        rintro rfl
        exact offRest inside
      refine (Leads.same_start (links_iff_leads.mp placed.links) behind length ?_).symm
      intro x inside
      -- All nodes have a place, and the rest of the new chain shares none with the others.
      have offs : x ∉ s.list.objPool ++ freed' := fun other =>
        (placed'.off_chain other) (List.mem_cons_of_mem _ (List.mem_cons_of_mem _ inside))
      have known : x ∈ s.places chain freed' := by
        apply placed.mem_iff.mpr
        exact placed'.mem_iff.mp (List.mem_append_left _
          (List.mem_cons_of_mem _ (List.mem_cons_of_mem _ inside)))
      have notNode : x ≠ node := by
        rintro rfl
        have ends := (List.nodup_cons.mp placed'.chain_nodup).2
        exact (List.nodup_cons.mp ends).1 inside
      have notFront : x ≠ s.list.front := by
        rintro rfl
        exact offRest (List.mem_cons_of_mem _ inside)
      rw [places, here] at known
      simp only [PushPc.hand, List.mem_append, List.mem_cons, List.not_mem_nil,
        or_false] at known offs
      tauto

/-- A cut that finds the link it has read takes the nodes behind the mark out. -/
theorem cut (placed : s.Placed chain freed) {node : Addr} {p : Option Addr}
    (here : s.erase = .cut node p) (fresh : s.list.next node = p) :
    ∃ off, chain = keepTo s.list.front node chain ++ off ∧
      s.cleaner.Placed (keepTo s.list.front node chain) off := by
  have inside := placed.inside node p here
  obtain ⟨off, split⟩ := exists_keepTo s.list.front node chain
  have at_ := getLastD_keepTo inside
  generalize keepTo s.list.front node chain = kept at split at_
  subst split
  obtain ⟨behind, front, notOff⟩ := placed.links.cut placed.chain_nodup at_.symm
  obtain rfl := placed.freed_nil (by rw [here]; rfl)
  refine ⟨off, rfl, ?_⟩
  rw [cleaner, here]
  refine ⟨front, ?_, ?_, ?_, ?_⟩
  · show Leads _ p off
    rw [← fresh]
    exact behind.update notOff
  · have all := placed.all
    refine List.Perm.trans ?_ all
    show (s.list.front :: kept ++ (s.list.objPool ++ (s.push.hand ++ off))).Perm
      (s.list.front :: (kept ++ off) ++ (s.list.objPool ++ (s.push.hand ++ [])))
    simp only [List.append_nil, List.cons_append, List.append_assoc]
    refine List.Perm.cons _ (List.Perm.append_left _ ?_)
    rw [← List.append_assoc, ← List.append_assoc]
    exact List.perm_append_comm.trans (List.append_assoc _ _ _ ▸ List.Perm.refl _)
  · intro node' seen same
    have swapping : s.push = .swap node' seen := same
    have held : node' ∈ s.push.hand := by simp [swapping, PushPc.hand]
    have apart : node' ≠ node := by
      rintro rfl
      exact placed.hand_off_chain held inside
    exact (Function.update_of_ne apart _ _).trans (placed.linked node' seen swapping)
  · intro node' p' same
    cases same

/-- After a cut the nodes are in their places only if it found the link it had read. -/
theorem fresh_of_cut (placed : s.Placed chain freed) {node : Addr} {p : Option Addr}
    (here : s.erase = .cut node p) (after : s.cleaner.IsPlaced) : s.list.next node = p := by
  obtain ⟨chain', freed', placed'⟩ := after
  have inside := placed.inside node p here
  obtain ⟨off, split⟩ := exists_keepTo s.list.front node chain
  have at_ := getLastD_keepTo inside
  generalize keepTo s.list.front node chain = kept at split at_
  subst split
  obtain ⟨behind, front, -⟩ := placed.links.cut placed.chain_nodup at_.symm
  obtain rfl := placed.freed_nil (by rw [here]; rfl)
  rw [cleaner, here] at placed'
  obtain rfl : chain' = kept := placed'.links.unique front
  have kept_ : node ∈ s.list.front :: chain' := by
    rw [← at_]
    exact List.getLastD_mem_cons
  have notFreed : node ∉ freed' := fun off => placed'.freed_off_chain off kept_
  have leads : Leads s.list.next p freed' := by
    refine placed'.leads.congr fun b member => (Function.update_of_ne ?_ _ _).symm
    rintro rfl
    exact notFreed member
  have length : freed'.length = off.length := by
    have before := placed.all.length_eq
    have after := placed'.all.length_eq
    simp only [places, List.length_append, List.length_cons, List.length_nil,
      List.length_range] at before after
    omega
  refine (Leads.same_start behind leads length ?_).symm
  intro x cutOff
  have other := placed'.freed_off_chain cutOff
  have notHeld : x ∉ s.push.hand := fun held => placed'.hand_off_freed held cutOff
  have notPooled : x ∉ s.list.objPool := fun pooled =>
    (List.nodup_append.mp placed'.rest_nodup).2.2 x pooled x (List.mem_append_right _ cutOff) rfl
  have known : x ∈ s.places (chain' ++ off) [] := by
    apply placed.mem_iff.mpr
    exact placed'.mem_iff.mp (List.mem_append_right _
      (List.mem_append_right _ (List.mem_append_right _ cutOff)))
  simp only [places, List.mem_append, List.mem_cons, List.not_mem_nil, or_false] at known other
  tauto

/-- `Recycle` puts the nodes that were cut off behind the pool, and ends. -/
theorem recycle (placed : s.Placed chain freed) {p : Option Addr} (here : s.erase = .recycle p) :
    s.list.recycle p =
        (UInt32.ofNat freed.length, { s.list with objPool := s.list.objPool ++ freed }) ∧
      s.cleaner.Placed chain [] := by
  have leads := placed.leads
  rw [here] at leads
  have walked : follow s.list.next s.list.fresh p = freed := by
    apply follow_of_leads leads
    have length := placed.all.length_eq
    simp only [places, List.length_append, List.length_range] at length
    omega
  have recycled : s.list.recycle p =
      (UInt32.ofNat freed.length, { s.list with objPool := s.list.objPool ++ freed }) := by
    rw [LocklessList.recycle, walked]
  refine ⟨recycled, ?_⟩
  simp only [cleaner, here, recycled]
  refine ⟨placed.links, rfl, ?_, placed.linked, ?_⟩
  · refine List.Perm.trans ?_ placed.all
    show (s.list.front :: chain ++ (s.list.objPool ++ freed ++ (s.push.hand ++ []))).Perm
      (s.list.front :: chain ++ (s.list.objPool ++ (s.push.hand ++ freed)))
    rw [List.append_nil, List.append_assoc]
    exact (List.perm_append_comm.append_left _).append_left _
  · intro node' p' same
    cases same

/-- The builder between its swaps. -/
theorem builder (placed : s.Placed chain freed) (between : ∀ node seen, s.push ≠ .swap node seen) :
    s.builder.Placed chain freed ∧
      (s.Counted chain freed → (s.builder.Counted chain freed ↔ s.push.FreshStore s.list)) := by
  cases here : s.push with
  | idle =>
      have still : s.builder = s := by simp [ListRace.builder, here]
      rw [still]
      exact ⟨placed, fun counted => iff_of_true counted trivial⟩
  | fill node value =>
      have hand : (PushPc.link node : PushPc α).hand = s.push.hand := by rw [here]; rfl
      rw [ListRace.builder, here]
      refine ⟨placed.same rfl rfl rfl rfl hand rfl nofun placed.inside, fun counted => ?_⟩
      rw [Counted, here] at counted
      exact iff_of_true counted trivial
  | link node =>
      refine ⟨placed.link here, fun counted => ?_⟩
      rw [Counted, here] at counted
      rw [ListRace.builder, here]
      exact iff_of_true counted trivial
  | swap node seen => exact absurd here (between node seen)
  | load =>
      have hand : (PushPc.store s.list.nodeNum : PushPc α).hand = s.push.hand := by rw [here]; rfl
      rw [ListRace.builder, here]
      refine ⟨placed.same rfl rfl rfl rfl hand rfl nofun placed.inside, fun counted => ?_⟩
      rw [Counted, here] at counted
      exact iff_of_true counted trivial
  | store num =>
      have hand : (PushPc.idle : PushPc α).hand = s.push.hand := by rw [here]; rfl
      rw [ListRace.builder, here]
      refine ⟨placed.same rfl rfl rfl rfl hand rfl nofun placed.inside, fun counted => ?_⟩
      rw [Counted, here] at counted
      show num + 1 + 0 = _ ↔ num = s.list.nodeNum
      rw [← counted, add_zero]
      exact add_left_inj 1

/-- The cleaner between its cuts. -/
theorem cleaner (placed : s.Placed chain freed) (between : ∀ node p, s.erase ≠ .cut node p) :
    ∃ freed', s.cleaner.Placed chain freed' ∧
      (s.Counted chain freed → (s.cleaner.Counted chain freed' ↔ s.erase.FreshStore s.list)) := by
  cases here : s.erase with
  | idle =>
      have still : s.cleaner = s := by simp [ListRace.cleaner, here]
      rw [still]
      exact ⟨freed, placed, fun counted => iff_of_true counted trivial⟩
  | cut node p => exact absurd here (between node p)
  | recycle p =>
      obtain ⟨recycled, placed'⟩ := placed.recycle here
      refine ⟨[], placed', fun counted => ?_⟩
      rw [Counted, here] at counted
      rw [ListRace.cleaner, here]
      simp only [recycled]
      exact iff_of_true counted trivial
  | load count =>
      have off : (ErasePc.store count s.list.nodeNum).cutOff = s.erase.cutOff := by rw [here]; rfl
      rw [ListRace.cleaner, here]
      refine ⟨freed, placed.same rfl rfl rfl rfl rfl off (fun _ _ => id) nofun, fun counted => ?_⟩
      rw [Counted, here] at counted
      exact iff_of_true counted trivial
  | store count num =>
      have off : ErasePc.idle.cutOff = s.erase.cutOff := by rw [here]; rfl
      rw [ListRace.cleaner, here]
      refine ⟨freed, placed.same rfl rfl rfl rfl rfl off (fun _ _ => id) nofun, fun counted => ?_⟩
      rw [Counted, here] at counted
      show num - count + s.push.owed = UInt32.ofNat chain.length + 0 ↔ num = s.list.nodeNum
      have counted' : s.list.nodeNum + s.push.owed = UInt32.ofNat chain.length + count := counted
      constructor
      · intro after
        grind
      · rintro rfl
        grind

/-- A node for the next push changes no count. -/
theorem counted_pushFront [Inhabited α] (s : ListRace α) (value : α) (chain freed : List Addr) :
    (s.pushFront value).Counted chain freed ↔ s.Counted chain freed := by
  unfold ListRace.pushFront
  split
  · rename_i idle
    simp [Counted, s.list.allocate_cells.num, idle, PushPc.owed]
  · rfl

theorem eraseAfter (placed : s.Placed chain freed) {node : Addr}
    (allowed : node ∈ s.list.front :: s.list.nodes) :
    (s.eraseAfter node).Placed chain freed ∧
      ((s.eraseAfter node).Counted chain freed ↔ s.Counted chain freed) := by
  rw [placed.nodes_eq] at allowed
  unfold ListRace.eraseAfter
  split
  · rename_i idle
    have off : (ErasePc.cut node (s.list.next node)).cutOff = s.erase.cutOff := by rw [idle]; rfl
    refine ⟨placed.same rfl rfl rfl rfl rfl off (fun _ _ => id) ?_, ?_⟩
    · intro node' p same
      obtain ⟨rfl, -⟩ := ErasePc.cut.inj same
      exact allowed
    · simp [Counted, idle, ErasePc.owed]
  · exact ⟨placed, Iff.rfl⟩

/-- **What one statement does**, and when it leaves the places and the counter right. -/
theorem step [Inhabited α] (placed : s.Placed chain freed) {e : RaceEvent α}
    (allowed : s.Allowed e) :
    ((s.step e).IsPlaced → s.FreshLinks e) ∧
      (s.FreshLinks e → ∃ freed', (s.step e).Placed (s.listAfter chain e) freed' ∧
        (s.Counted chain freed →
          ((s.step e).Counted (s.listAfter chain e) freed' ↔ s.FreshCount e))) := by
  cases e with
  | pushFront value =>
      refine ⟨fun _ => trivial, fun _ => ⟨freed, placed.pushFront value, fun counted => ?_⟩⟩
      exact iff_of_true ((counted_pushFront s value chain freed).mpr counted) trivial
  | builder =>
      by_cases swapping : ∃ node seen, s.push = .swap node seen
      · obtain ⟨node, seen, here⟩ := swapping
        have after : s.listAfter chain .builder = node :: chain := by rw [listAfter, here]; rfl
        rw [FreshLinks, FreshCount, here, after]
        refine ⟨placed.fresh_of_swap here, fun fresh => ⟨freed, placed.swap here fresh, ?_⟩⟩
        intro counted
        rw [Counted, here] at counted
        rw [ListRace.step, ListRace.builder, here]
        refine iff_of_true ?_ trivial
        show s.list.nodeNum + 1 = UInt32.ofNat (chain.length + 1) + s.erase.owed freed
        have counted' : s.list.nodeNum + 0 = UInt32.ofNat chain.length + s.erase.owed freed :=
          counted
        rw [UInt32.ofNat_add]
        grind
      · have between : ∀ node seen, s.push ≠ .swap node seen :=
          fun node seen here => swapping ⟨node, seen, here⟩
        obtain ⟨placed', counts⟩ := placed.builder between
        obtain ⟨fresh, after⟩ := PushPc.between_swaps between s.list chain
        rw [listAfter, after]
        exact ⟨fun _ => fresh, fun _ => ⟨freed, placed', counts⟩⟩
  | eraseAfter node =>
      cases node with
      | none =>
          refine ⟨fun _ => trivial, fun _ => ⟨freed, placed, fun counted => ?_⟩⟩
          exact iff_of_true counted trivial
      | some node =>
          obtain ⟨placed', counts⟩ := placed.eraseAfter allowed
          refine ⟨fun _ => trivial, fun _ => ⟨freed, placed', fun counted => ?_⟩⟩
          exact iff_of_true (counts.mpr counted) trivial
  | cleaner =>
      by_cases cutting : ∃ node p, s.erase = .cut node p
      · obtain ⟨node, p, here⟩ := cutting
        have after : s.listAfter chain .cleaner = keepTo s.list.front node chain := by
          rw [listAfter, here]
          rfl
        rw [FreshLinks, FreshCount, here, after]
        refine ⟨placed.fresh_of_cut here, fun fresh => ?_⟩
        obtain ⟨off, split, placed'⟩ := placed.cut here fresh
        refine ⟨off, placed', fun counted => iff_of_true ?_ trivial⟩
        rw [Counted, here, split] at counted
        rw [ListRace.step, ListRace.cleaner, here]
        show s.list.nodeNum + s.push.owed =
          UInt32.ofNat (keepTo s.list.front node chain).length + UInt32.ofNat off.length
        have counted' : s.list.nodeNum + s.push.owed =
          UInt32.ofNat (keepTo s.list.front node chain ++ off).length + 0 := counted
        rw [List.length_append, UInt32.ofNat_add, add_zero] at counted'
        exact counted'
      · have between : ∀ node p, s.erase ≠ .cut node p :=
          fun node p here => cutting ⟨node, p, here⟩
        obtain ⟨fresh, after⟩ := ErasePc.between_cuts between s.list chain
        rw [listAfter, after]
        exact ⟨fun _ => fresh, fun _ => placed.cleaner between⟩

end Placed

/-! ## Exactly the fresh interleavings -/

variable [Inhabited α]

theorem placed_start : (start : ListRace α).Placed [] [] :=
  ⟨rfl, rfl, List.Perm.refl _, nofun, nofun⟩

theorem counted_start : (start : ListRace α).Counted [] [] := rfl

/-- What the statements of a run make of a list. -/
def listRun (s : ListRace α) (chain : List Addr) : List (RaceEvent α) → List Addr
  | [] => chain
  | e :: es => listRun (s.step e) (s.listAfter chain e) es

theorem placed_run {s : ListRace α} {chain freed : List Addr} (placed : s.Placed chain freed)
    {es : List (RaceEvent α)} (allowed : Along step Allowed s es)
    (fresh : Along step FreshLinks s es) :
    ∃ freed', (run step s es).Placed (s.listRun chain es) freed' := by
  induction es generalizing s chain freed with
  | nil => exact ⟨freed, placed⟩
  | cons e es ih =>
      obtain ⟨freed', placed', -⟩ := (placed.step allowed.1).2 fresh.1
      exact ih placed' allowed.2 fresh.2

theorem links_sound_iff (es : List (RaceEvent α)) (allowed : Along step Allowed start es) :
    (∀ pre, pre <+: es → (run step start pre).IsPlaced) ↔ Along step FreshLinks start es := by
  apply always_iff_along ⟨[], [], placed_start⟩
  rintro pre e inside ⟨chain, freed, placed⟩
  obtain ⟨needs, gives⟩ := placed.step (allowed.at inside)
  constructor
  · exact needs
  · intro fresh
    obtain ⟨freed', placed', -⟩ := gives fresh
    exact ⟨_, freed', placed'⟩

/-- **Sound exactly if fresh.**  No node is lost or in two places and the counter is right
in every state of an interleaving, exactly if every write finds its cell as it was
read. -/
theorem sound_iff (es : List (RaceEvent α)) (allowed : Along step Allowed start es) :
    (∀ pre, pre <+: es → (run step start pre).IsSound) ↔ Along step Fresh start es := by
  apply always_iff_along ⟨[], [], placed_start, counted_start⟩
  rintro pre e inside ⟨chain, freed, placed, counted⟩
  obtain ⟨needs, gives⟩ := placed.step (allowed.at inside)
  constructor
  · rintro ⟨chain', freed', placed', counted'⟩
    have fresh := needs ⟨chain', freed', placed'⟩
    obtain ⟨off, after, counts⟩ := gives fresh
    obtain ⟨rfl, rfl⟩ := after.unique placed'
    exact ⟨fresh, (counts counted).mp counted'⟩
  · rintro ⟨fresh, store⟩
    obtain ⟨off, after, counts⟩ := gives fresh
    exact ⟨_, off, after, (counts counted).mpr store⟩

omit [Inhabited α] in
/-- Between operations a sound list is the valid list of `LocklessList`. -/
theorem valid_of_sound {s : ListRace α} (sound : s.IsSound) (push : s.push = .idle)
    (erase : s.erase = .idle) : s.list.Valid := by
  obtain ⟨chain, freed, placed, counted⟩ := sound
  have rest := placed.rest_nodup
  suffices rep : s.list.Rep chain from rep.valid
  refine ⟨placed.links, placed.chain_nodup, ?_, ?_, ?_, ?_, ?_⟩
  · exact fun a inside => placed.mem_iff.mp (List.mem_append_left _ inside)
  · exact (List.nodup_append.mp rest).1
  · exact fun a pooled =>
      placed.mem_iff.mp (List.mem_append_right _ (List.mem_append_left _ pooled))
  · exact fun a pooled => placed.off_chain (List.mem_append_left _ pooled)
  · simpa [Counted, push, erase, PushPc.owed, ErasePc.owed] using counted

/-! ## Undisturbed operations -/

/-- `AllocatePosting`, the value, and `AddPosting`. -/
def wholePush (value : α) : List (RaceEvent α) := .pushFront value :: List.replicate 5 .builder

def wholeErase (node : Addr) : List (RaceEvent α) :=
  .eraseAfter (some node) :: List.replicate 4 .cleaner

/-- The list after a whole push. -/
def pushed (l : LocklessList α) (value : α) : LocklessList α :=
  (l.allocate.2.setData l.allocate.1 value).pushFront l.allocate.1

/-- A push that nothing comes between is `PushFront`. -/
theorem run_wholePush {s : ListRace α} (idle : s.push = .idle) (value : α) :
    run step s (wholePush value) = { s with list := pushed s.list value } := by
  obtain ⟨list, push, erase⟩ := s
  obtain rfl : push = .idle := idle
  rfl

/-- An erase that nothing comes between is `EraseAfter`. -/
theorem run_wholeErase {s : ListRace α} (idle : s.erase = .idle) (node : Addr) :
    run step s (wholeErase node) = { s with list := s.list.eraseAfter (some node) } := by
  obtain ⟨list, push, erase⟩ := s
  obtain rfl : erase = .idle := idle
  rfl

end ListRace

/-! ## A list that is emptied while a node is pushed -/

namespace EmptiedList

open ListRace

/-- The builder has linked its second node when the cleaner cuts at the fake front. -/
def events : List (RaceEvent Nat) :=
  wholePush 1 ++ [.pushFront 2, .builder, .builder] ++ wholeErase 0

/-- The swap that follows puts a recycled node on the list. -/
theorem sound_iff_events :
    ¬ ∀ pre, pre <+: events ++ [.builder] → (run step (start : ListRace Nat) pre).IsSound :=
  fun sound => absurd ((sound_iff (events ++ [.builder]) (by decide +kernel)).mp sound)
    (by decide +kernel)

end EmptiedList

end RecommEngine.Util
