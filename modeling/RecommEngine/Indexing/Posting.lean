/-
# Indexing.Posting -- posting lists with an end mark

`indexing::Posting` and `indexing::PostingList`, and the three things the two
daemon threads do to one list: the index builder's allocate, fill and push
(`pushPosting`), the cleaner's walk to the end mark (`markExpired`) and its
collect, erase and reset (`unlinked`, `clearMarked`).

`Valid` is the representation invariant of one list; `ValidPostingList` carries
it, so the index can only hold well-formed lists.  `abs` forgets the heap, and
the `abs_` theorems say that each operation is the one of `Theory.MarkedSeq`.
-/
import RecommEngine.Theory.MarkedSeq
import RecommEngine.Util.LocklessList

namespace RecommEngine.Indexing

set_option autoImplicit false

open Util Theory Theory.Chain

abbrev LocalDocID := UInt32

def kIllegalLocalDocID : LocalDocID := 0

/-- `W` is the type of a term weight; the source's is `float`. -/
structure Posting (W : Type) where
  localDocid : LocalDocID
  weight : W
  timestamp : Int32
  deriving DecidableEq, Inhabited

structure PostingList (W : Type) where
  innerList : LocklessList (Posting W)
  endMark : Option Addr

namespace PostingList

variable {W : Type}

/-! ## The operations -/

def create [Inhabited W] : PostingList W := ⟨.create, none⟩

def getFakeFront (pl : PostingList W) : Addr := pl.innerList.front

def getEndMark (pl : PostingList W) : Option Addr := pl.endMark

def setEndMark (pl : PostingList W) (mark : Option Addr) : PostingList W :=
  { pl with endMark := mark }

def addPosting (pl : PostingList W) (p : Addr) : PostingList W :=
  { pl with innerList := pl.innerList.pushFront p }

/-- `AllocatePosting`: the node's link is reset once more after `Allocate`. -/
def allocatePosting [Inhabited W] (pl : PostingList W) : Addr × PostingList W :=
  let (p, inner) := pl.innerList.allocate
  (p, { pl with innerList := { inner with next := Function.update inner.next p none } })

def eraseAfter (pl : PostingList W) : Option Addr → PostingList W
  | none => pl
  | some p => { pl with innerList := pl.innerList.eraseAfter (some p) }

/-- The builder's use of a list: allocate a node, fill in its data, add it. -/
def pushPosting [Inhabited W] (pl : PostingList W) (posting : Posting W) : PostingList W :=
  let (p, pl) := pl.allocatePosting
  addPosting { pl with innerList := pl.innerList.setData p posting } p

/-- The posting is young enough to stay in front of the end mark. -/
def staysAt (targetTime : Int) (p : Posting W) : Bool :=
  decide (targetTime ≤ p.timestamp.toInt)

/-- The cleaner's mark step: walk from the fake front while the next posting is
young enough, and set the end mark where the walk stops. -/
def markExpired (pl : PostingList W) (targetTime : Int) : PostingList W :=
  let inner := pl.innerList
  let cur := advance inner.next (fun a => staysAt targetTime (inner.data a)) inner.fresh
    pl.getFakeFront
  pl.setEndMark (some cur)

/-- The postings the clear step finds behind the end mark. -/
def unlinked (pl : PostingList W) : List (Posting W) :=
  match pl.getEndMark with
  | none => []
  | some mark =>
      (follow pl.innerList.next pl.innerList.fresh (pl.innerList.next mark)).map pl.innerList.data

/-- The cleaner's clear step: erase behind the mark, then reset it. -/
def clearMarked (pl : PostingList W) : PostingList W :=
  (pl.eraseAfter pl.getEndMark).setEndMark none

/-! ## The representation invariant -/

/-- The nodes of the list, front to back, without the fake front. -/
def nodes (pl : PostingList W) : List Addr := pl.innerList.nodes

structure Valid (pl : PostingList W) : Prop where
  list : pl.innerList.Valid
  mark : ∀ m, pl.endMark = some m → m ∈ pl.getFakeFront :: pl.nodes

/-- How many nodes stand before the end mark: all of them if it is unset. -/
def markIndex (pl : PostingList W) : Nat :=
  match pl.endMark with
  | none => pl.nodes.length
  | some m => (pl.getFakeFront :: pl.nodes).idxOf m

/-- The list without its heap. -/
def abs (pl : PostingList W) : MarkedSeq (Posting W) :=
  match pl.endMark with
  | none => .unmarked (pl.nodes.map pl.innerList.data)
  | some _ => .markAfter ((pl.nodes.take pl.markIndex).map pl.innerList.data)
      ((pl.nodes.drop pl.markIndex).map pl.innerList.data)

/-- The end mark `m` stands behind `kept` and before `freed`. -/
structure SplitAt (pl : PostingList W) (m : Addr) (kept freed : List Addr) : Prop where
  nodes : pl.nodes = kept ++ freed
  last : m = kept.getLastD pl.getFakeFront

theorem Valid.split {pl : PostingList W} (valid : pl.Valid) {m : Addr}
    (marked : pl.endMark = some m) : ∃ kept freed, pl.SplitAt m kept freed := by
  rcases List.mem_cons.mp (valid.mark m marked) with rfl | inside
  · exact ⟨[], pl.nodes, rfl, rfl⟩
  · obtain ⟨before, after, shape⟩ := List.append_of_mem inside
    exact ⟨before ++ [m], after, by simp [shape], by simp⟩

theorem idxOf_getLastD {front : Addr} {kept freed : List Addr}
    (nodup : (front :: (kept ++ freed)).Nodup) :
    (front :: (kept ++ freed)).idxOf (kept.getLastD front) = kept.length := by
  rcases List.eq_nil_or_concat kept with rfl | ⟨init, last, rfl⟩
  · simp
  · simp only [List.concat_eq_append, List.getLastD_concat, List.append_assoc,
      List.singleton_append] at nodup ⊢
    have off : last ∉ front :: init := by
      rw [← List.cons_append, List.nodup_append] at nodup
      exact fun h => nodup.2.2 last h last (by simp) rfl
    rw [← List.cons_append, List.idxOf_append_of_notMem off]
    simp

theorem SplitAt.markIndex {pl : PostingList W} {m : Addr} {kept freed : List Addr}
    (valid : pl.Valid) (marked : pl.endMark = some m) (split : pl.SplitAt m kept freed) :
    pl.markIndex = kept.length := by
  have nodup := valid.list.nodup
  rw [show pl.innerList.nodes = kept ++ freed from split.nodes] at nodup
  simp only [PostingList.markIndex, marked, split.nodes, split.last]
  exact idxOf_getLastD nodup

theorem SplitAt.abs {pl : PostingList W} {m : Addr} {kept freed : List Addr}
    (valid : pl.Valid) (marked : pl.endMark = some m) (split : pl.SplitAt m kept freed) :
    pl.abs = .markAfter (kept.map pl.innerList.data) (freed.map pl.innerList.data) := by
  simp [PostingList.abs, marked, split.markIndex valid marked, split.nodes]

/-! ## Each operation keeps the invariant and simulates its abstract one -/

theorem create_valid [Inhabited W] : (create : PostingList W).Valid :=
  ⟨LocklessList.create_rep.valid, by simp [create]⟩

theorem abs_create [Inhabited W] : (create : PostingList W).abs = .unmarked [] := rfl

/-- What one push does to the heap of a valid list. -/
structure Pushed (pl : PostingList W) (posting : Posting W) (out : PostingList W) (node : Addr) :
    Prop where
  rep : out.innerList.Rep (node :: pl.nodes)
  front : out.getFakeFront = pl.getFakeFront
  offChain : node ∉ pl.getFakeFront :: pl.nodes
  endMark : out.endMark = pl.endMark
  dataNew : out.innerList.data node = posting
  dataOld : ∀ a ∈ pl.nodes, out.innerList.data a = pl.innerList.data a

/-- `AllocatePosting` hands out what `Allocate` does: the second reset of the link
is off the chain. -/
theorem Valid.allocated [Inhabited W] {pl : PostingList W} (valid : pl.Valid) :
    LocklessList.Allocated pl.innerList pl.nodes
      (pl.allocatePosting.1, pl.allocatePosting.2.innerList) := by
  obtain ⟨rep, front, offChain, offPool, known, data⟩ := LocklessList.Rep.allocate valid.list
  have links := rep.links.update (x := none) (front ▸ offChain)
  exact ⟨⟨links, rep.nodup, rep.below, rep.poolNodup, rep.poolBelow, rep.poolApart, rep.count⟩,
    front, offChain, offPool, known, data⟩

theorem Valid.pushed [Inhabited W] {pl : PostingList W} (valid : pl.Valid) (posting : Posting W) :
    ∃ node, Pushed pl posting (pl.pushPosting posting) node := by
  obtain ⟨rep, front, offChain, offPool, known, data⟩ := valid.allocated
  refine ⟨pl.allocatePosting.1, ?_, front, offChain, rfl, ?_, ?_⟩
  · exact (rep.setData _ posting).pushFront (front.symm ▸ offChain) offPool known
  · simp [pushPosting, addPosting, LocklessList.setData]
  · intro a ha
    have ne : a ≠ pl.allocatePosting.1 := by
      rintro rfl
      exact offChain (List.mem_cons_of_mem _ ha)
    calc (pl.pushPosting posting).innerList.data a = pl.allocatePosting.2.innerList.data a := by
          simp [pushPosting, addPosting, LocklessList.setData, Function.update_of_ne ne]
      _ = pl.innerList.data a := data a (List.mem_cons_of_mem _ ha)

theorem Pushed.nodes {pl out : PostingList W} {posting : Posting W} {node : Addr}
    (pushed : Pushed pl posting out node) : out.nodes = node :: pl.nodes :=
  pushed.rep.nodes_eq

theorem Pushed.map_data {pl out : PostingList W} {posting : Posting W} {node : Addr}
    (pushed : Pushed pl posting out node) {l : List Addr} (sub : ∀ a ∈ l, a ∈ pl.nodes) :
    l.map out.innerList.data = l.map pl.innerList.data :=
  List.map_congr_left fun a ha => pushed.dataOld a (sub a ha)

theorem Pushed.valid {pl out : PostingList W} {posting : Posting W} {node : Addr}
    (valid : pl.Valid) (pushed : Pushed pl posting out node) : out.Valid := by
  refine ⟨pushed.rep.valid, ?_⟩
  intro m marked
  rw [pushed.endMark] at marked
  rw [pushed.nodes, pushed.front]
  have := valid.mark m marked
  simp only [List.mem_cons] at this ⊢
  tauto

theorem abs_pushed {pl out : PostingList W} {posting : Posting W} {node : Addr}
    (valid : pl.Valid) (pushed : Pushed pl posting out node) : out.abs = pl.abs.push posting := by
  have outValid := pushed.valid valid
  cases marked : pl.endMark with
  | none =>
      have outMarked := pushed.endMark.trans marked
      simp only [PostingList.abs, marked, outMarked, pushed.nodes, List.map_cons, pushed.dataNew,
        pushed.map_data fun a ha => ha]
      rfl
  | some m =>
      have outMarked := pushed.endMark.trans marked
      obtain ⟨kept, freed, split⟩ := valid.split marked
      have freedSub : ∀ a ∈ freed, a ∈ pl.nodes := fun a ha => by simp [split.nodes, ha]
      rw [split.abs valid marked]
      -- A mark at the fake front has nothing before it, so the new node falls behind it.
      cases kept with
      | nil =>
          have outSplit : out.SplitAt m [] (node :: freed) :=
            ⟨by simp [pushed.nodes, split.nodes], by simpa [pushed.front] using split.last⟩
          rw [outSplit.abs outValid outMarked, List.map_cons, pushed.dataNew,
            pushed.map_data freedSub]
          rfl
      | cons a kept =>
          have keptSub : ∀ b ∈ a :: kept, b ∈ pl.nodes := fun b hb => by
            rw [split.nodes]
            exact List.mem_append_left _ hb
          have outSplit : out.SplitAt m (node :: a :: kept) freed :=
            ⟨by simp [pushed.nodes, split.nodes], by simpa [pushed.front] using split.last⟩
          rw [outSplit.abs outValid outMarked, List.map_cons, pushed.dataNew,
            pushed.map_data freedSub, pushed.map_data keptSub]
          rfl

theorem pushPosting_valid [Inhabited W] {pl : PostingList W} (valid : pl.Valid) (posting : Posting W) :
    (pl.pushPosting posting).Valid := by
  obtain ⟨node, pushed⟩ := valid.pushed posting
  exact pushed.valid valid

theorem abs_pushPosting [Inhabited W] {pl : PostingList W} (valid : pl.Valid) (posting : Posting W) :
    (pl.pushPosting posting).abs = pl.abs.push posting := by
  obtain ⟨node, pushed⟩ := valid.pushed posting
  exact abs_pushed valid pushed

theorem contents_abs (pl : PostingList W) : pl.abs.contents = pl.nodes.map pl.innerList.data := by
  unfold PostingList.abs
  split
  · simp [MarkedSeq.contents, MarkedSeq.visible, MarkedSeq.hidden]
  · rw [MarkedSeq.contents, MarkedSeq.visible_markAfter, MarkedSeq.hidden_markAfter,
      ← List.map_append, List.take_append_drop]

theorem markExpired_endMark {pl : PostingList W} (valid : pl.Valid) (targetTime : Int) :
    (pl.markExpired targetTime).endMark =
      some ((pl.nodes.takeWhile fun a => staysAt targetTime (pl.innerList.data a)).getLastD
        pl.getFakeFront) := by
  simp only [markExpired, setEndMark, getFakeFront]
  rw [advance_eq valid.list.links valid.list.length_lt.le]
  rfl

theorem markExpired_split {pl : PostingList W} (targetTime : Int) :
    let stay := fun a => staysAt targetTime (pl.innerList.data a)
    (pl.markExpired targetTime).SplitAt ((pl.nodes.takeWhile stay).getLastD pl.getFakeFront)
      (pl.nodes.takeWhile stay) (pl.nodes.dropWhile stay) :=
  ⟨List.takeWhile_append_dropWhile.symm, rfl⟩

theorem markExpired_valid {pl : PostingList W} (valid : pl.Valid) (targetTime : Int) :
    (pl.markExpired targetTime).Valid := by
  refine ⟨valid.list, ?_⟩
  intro m marked
  rw [markExpired_endMark valid, Option.some.injEq] at marked
  subst marked
  rcases List.mem_cons.mp List.getLastD_mem_cons with atFront | inside
  · rw [atFront]
    exact List.mem_cons_self
  · exact List.mem_cons_of_mem _ ((List.takeWhile_prefix _).subset inside)

theorem abs_markExpired {pl : PostingList W} (valid : pl.Valid) (targetTime : Int) :
    (pl.markExpired targetTime).abs = pl.abs.mark (staysAt targetTime) := by
  rw [(markExpired_split targetTime).abs (markExpired_valid valid targetTime)
    (markExpired_endMark valid targetTime), MarkedSeq.mark, contents_abs, List.takeWhile_map,
    List.dropWhile_map]
  rfl

/-- A mark with nothing before it is the fake front. -/
theorem SplitAt.kept_nil_iff {pl : PostingList W} {m : Addr} {kept freed : List Addr}
    (valid : pl.Valid) (split : pl.SplitAt m kept freed) : kept = [] ↔ m = pl.getFakeFront := by
  constructor
  · rintro rfl
    exact split.last
  · intro atFront
    cases kept with
    | nil => rfl
    | cons a kept =>
        have last := split.last
        rw [List.getLastD_cons, atFront] at last
        have inside : kept.getLastD a ∈ a :: kept := List.getLastD_mem_cons
        rw [← last] at inside
        have off : pl.getFakeFront ∉ pl.nodes := valid.list.front_not_mem
        rw [split.nodes] at off
        exact absurd (List.mem_append_left freed inside) off

theorem abs_isAtFront {pl : PostingList W} (valid : pl.Valid) :
    pl.abs.IsAtFront ↔ pl.endMark = some pl.getFakeFront := by
  cases marked : pl.endMark with
  | none => simp [PostingList.abs, marked, MarkedSeq.IsAtFront]
  | some m =>
      obtain ⟨kept, freed, split⟩ := valid.split marked
      rw [split.abs valid marked, Option.some.injEq, ← split.kept_nil_iff valid]
      cases kept <;> simp [MarkedSeq.markAfter, MarkedSeq.IsAtFront]

/-- The clear step collects exactly what is behind the mark. -/
theorem unlinked_eq {pl : PostingList W} (valid : pl.Valid) : pl.unlinked = pl.abs.hidden := by
  cases marked : pl.endMark with
  | none => simp [unlinked, getEndMark, PostingList.abs, marked, MarkedSeq.hidden]
  | some m =>
      obtain ⟨kept, freed, split⟩ := valid.split marked
      have rep := valid.list
      rw [LocklessList.Valid, show pl.innerList.nodes = kept ++ freed from split.nodes] at rep
      obtain ⟨behind, -, -⟩ := rep.links.cut rep.nodup split.last
      have short : freed.length ≤ pl.innerList.fresh := by
        have := rep.length_lt
        simp only [List.length_append] at this
        omega
      rw [split.abs valid marked, MarkedSeq.hidden_markAfter]
      simp only [unlinked, getEndMark, marked]
      rw [follow_of_leads behind short]

theorem clearMarked_rep {pl : PostingList W} (valid : pl.Valid) :
    (pl.clearMarked).innerList.Rep (pl.nodes.take pl.markIndex) := by
  cases marked : pl.endMark with
  | none =>
      simp only [clearMarked, getEndMark, marked, eraseAfter, setEndMark, markIndex,
        List.take_length]
      exact valid.list
  | some m =>
      obtain ⟨kept, freed, split⟩ := valid.split marked
      have rep := valid.list
      rw [LocklessList.Valid, show pl.innerList.nodes = kept ++ freed from split.nodes] at rep
      rw [split.markIndex valid marked, split.nodes, List.take_left]
      simp only [clearMarked, getEndMark, marked, eraseAfter, setEndMark]
      exact (rep.eraseAfter split.last).1

theorem clearMarked_valid {pl : PostingList W} (valid : pl.Valid) : pl.clearMarked.Valid :=
  ⟨(clearMarked_rep valid).valid, by simp [clearMarked, setEndMark]⟩

theorem clearMarked_data (pl : PostingList W) :
    pl.clearMarked.innerList.data = pl.innerList.data := by
  unfold clearMarked eraseAfter
  split <;> simp [setEndMark]

theorem abs_clearMarked {pl : PostingList W} (valid : pl.Valid) :
    pl.clearMarked.abs = pl.abs.clear := by
  have cleared : pl.clearMarked.endMark = none := rfl
  have kept : pl.clearMarked.nodes = pl.nodes.take pl.markIndex := (clearMarked_rep valid).nodes_eq
  simp only [PostingList.abs, cleared, kept, clearMarked_data, MarkedSeq.clear]
  cases marked : pl.endMark with
  | none => simp [MarkedSeq.visible, markIndex, marked]
  | some m => simp

end PostingList

/-! ## Lists that carry their invariant -/

/-- What the index stores: a posting list together with its invariant. -/
abbrev ValidPostingList (W : Type) := { pl : PostingList W // pl.Valid }

namespace ValidPostingList

variable {W : Type}

def create [Inhabited W] : ValidPostingList W := ⟨.create, PostingList.create_valid⟩

def push [Inhabited W] (pl : ValidPostingList W) (posting : Posting W) : ValidPostingList W :=
  ⟨pl.1.pushPosting posting, PostingList.pushPosting_valid pl.2 posting⟩

def mark (pl : ValidPostingList W) (targetTime : Int) : ValidPostingList W :=
  ⟨pl.1.markExpired targetTime, PostingList.markExpired_valid pl.2 targetTime⟩

def clear (pl : ValidPostingList W) : ValidPostingList W :=
  ⟨pl.1.clearMarked, PostingList.clearMarked_valid pl.2⟩

def unlinked (pl : ValidPostingList W) : List (Posting W) := pl.1.unlinked

def abs (pl : ValidPostingList W) : MarkedSeq (Posting W) := pl.1.abs

/-- The postings on the chain, whatever the end mark hides. -/
def postings (pl : ValidPostingList W) : List (Posting W) := pl.abs.contents

@[simp] theorem abs_create [Inhabited W] : (create : ValidPostingList W).abs = .unmarked [] := rfl

@[simp] theorem abs_push [Inhabited W] (pl : ValidPostingList W) (posting : Posting W) :
    (pl.push posting).abs = pl.abs.push posting :=
  PostingList.abs_pushPosting pl.2 posting

@[simp] theorem abs_mark (pl : ValidPostingList W) (targetTime : Int) :
    (pl.mark targetTime).abs = pl.abs.mark (PostingList.staysAt targetTime) :=
  PostingList.abs_markExpired pl.2 targetTime

@[simp] theorem abs_clear (pl : ValidPostingList W) : pl.clear.abs = pl.abs.clear :=
  PostingList.abs_clearMarked pl.2

@[simp] theorem unlinked_eq (pl : ValidPostingList W) : pl.unlinked = pl.abs.hidden :=
  PostingList.unlinked_eq pl.2

end ValidPostingList

end RecommEngine.Indexing
