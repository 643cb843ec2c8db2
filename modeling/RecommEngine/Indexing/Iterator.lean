/-
# Indexing.Iterator -- reading a posting list

`PostingIteratorImpl` with its documented loop `HasValue` / `GetValue` / `Next`.
The iterator keeps the node *before* the posting it stands at, and every call
reads the list again, so each call takes the list as an argument.

A call that throws or follows a null pointer is a `Fault`.  `drain` is the loop,
with a bound on its number of rounds; on a valid list it faults never and yields
the postings before the end mark (`drain_eq`).

`PostingList::Size` walks the list a second time, by conditions of its own.
`iterates_up_to_mark` says for every place of the end mark what the first walk
yields, and that the second counts just that.
-/
import RecommEngine.Indexing.Posting

namespace RecommEngine.Indexing

set_option autoImplicit false

open Util Theory Theory.Chain

inductive Fault where
  | thrown (message : String)
  | nullDereference
  | outOfBounds
  | outOfRounds
  deriving DecidableEq

structure PostingIteratorImpl where
  cur : Option Addr
  hasValueFlag : Bool
  deriving DecidableEq

namespace PostingIteratorImpl

variable {W : Type}

def create (pl : PostingList W) : PostingIteratorImpl := ⟨some pl.getFakeFront, false⟩

/-- `HasValue` stores its answer in the iterator and returns it. -/
def hasValue (it : PostingIteratorImpl) (pl : PostingList W) : Bool × PostingIteratorImpl :=
  let answer :=
    match it.cur with
    | none => false
    | some cur =>
        match pl.innerList.next cur with
        | none => false
        | some _ =>
            if pl.getEndMark = some pl.getFakeFront then false
            else if pl.getEndMark = some cur then false
            else true
  (answer, { it with hasValueFlag := answer })

def getValue (it : PostingIteratorImpl) (pl : PostingList W) :
    Except Fault (Posting W × PostingIteratorImpl) :=
  if it.hasValueFlag then
    match it.cur.bind pl.innerList.next with
    | none => .error .nullDereference
    | some node => .ok (pl.innerList.data node, { it with hasValueFlag := false })
  else .error (.thrown "GetValue should be called after HasValue returning True")

def next (it : PostingIteratorImpl) (pl : PostingList W) : Except Fault PostingIteratorImpl :=
  match it.cur with
  | none => .error .nullDereference
  | some cur => .ok { it with cur := pl.innerList.next cur }

/-- `while (it->HasValue()) { ... it->GetValue() ...; it->Next(); }`. -/
def drain (pl : PostingList W) : Nat → PostingIteratorImpl → Except Fault (List (Posting W))
  | 0, _ => .error .outOfRounds
  | rounds + 1, it =>
      match it.hasValue pl with
      | (false, _) => .ok []
      | (true, it) => do
          let (posting, it) ← it.getValue pl
          let it ← it.next pl
          let rest ← drain pl rounds it
          return posting :: rest

/-! ## Standing in a list

The iterator's position is a split `front :: visible = before ++ cur :: todo` of
the fake front and the nodes before the end mark.  `todo` is what a reader has
still to see, and decides what each call answers. -/

/-- The nodes before the end mark, front to back. -/
def visibleNodes (pl : PostingList W) : List Addr := pl.nodes.take pl.markIndex

theorem visible_sublist (pl : PostingList W) : (visibleNodes pl).Sublist pl.nodes :=
  List.take_sublist _ _

theorem visible_abs (pl : PostingList W) :
    pl.abs.visible = (visibleNodes pl).map pl.innerList.data := by
  cases mark : pl.endMark with
  | none => simp [PostingList.abs, visibleNodes, PostingList.markIndex, mark, MarkedSeq.visible]
  | some m => simp only [PostingList.abs, mark, MarkedSeq.visible_markAfter, visibleNodes]

theorem mark_eq_last {pl : PostingList W} (valid : pl.Valid) {m : Addr}
    (mark : pl.endMark = some m) : m = (visibleNodes pl).getLastD pl.getFakeFront := by
  obtain ⟨kept, freed, split⟩ := valid.split mark
  rw [visibleNodes, split.markIndex valid mark, split.nodes, List.take_left]
  exact split.last

theorem visible_eq_nodes {pl : PostingList W} (mark : pl.endMark = none) :
    visibleNodes pl = pl.nodes := by
  simp [visibleNodes, PostingList.markIndex, mark]

theorem visible_of_front {pl : PostingList W} (valid : pl.Valid)
    (mark : pl.endMark = some pl.getFakeFront) : visibleNodes pl = [] := by
  obtain ⟨kept, freed, split⟩ := valid.split mark
  have empty := (split.kept_nil_iff valid).mpr rfl
  rw [visibleNodes, split.markIndex valid mark, empty]
  rfl

theorem links_todo {pl : PostingList W} (valid : pl.Valid) {before todo : List Addr} {cur : Addr}
    (shape : pl.getFakeFront :: visibleNodes pl = before ++ cur :: todo) :
    Links pl.innerList.next cur (todo ++ pl.nodes.drop pl.markIndex) := by
  have links : Links pl.innerList.next pl.getFakeFront pl.nodes := valid.list.links
  rw [← List.take_append_drop pl.markIndex pl.nodes] at links
  cases before with
  | nil =>
      obtain ⟨rfl, rfl⟩ := List.cons.inj shape
      exact links
  | cons front before =>
      obtain ⟨rfl, rest⟩ := List.cons.inj shape
      rw [show pl.nodes.take pl.markIndex = before ++ cur :: todo from rest, List.append_assoc,
        List.cons_append] at links
      exact links.suffix

theorem next_of_todo {pl : PostingList W} (valid : pl.Valid) {before todo : List Addr}
    {cur node : Addr} (shape : pl.getFakeFront :: visibleNodes pl = before ++ cur :: node :: todo) :
    pl.innerList.next cur = some node :=
  (links_todo valid shape).1

/-- `HasValue` answers whether anything is left to see. -/
theorem hasValue_eq {pl : PostingList W} (valid : pl.Valid) {before todo : List Addr} {cur : Addr}
    (shape : pl.getFakeFront :: visibleNodes pl = before ++ cur :: todo) (flag : Bool) :
    hasValue ⟨some cur, flag⟩ pl = (!todo.isEmpty, ⟨some cur, !todo.isEmpty⟩) := by
  have last : ∀ m, pl.endMark = some m → m = todo.getLastD cur := by
    intro m mark
    have ends := congrArg List.getLast? shape
    simp only [List.getLast?_append, List.getLast?_cons, Option.some_or, Option.some.injEq] at ends
    rw [mark_eq_last valid mark, List.getLastD_eq_getLast?, List.getLastD_eq_getLast?]
    exact ends
  cases todo with
  | nil =>
      cases mark : pl.endMark with
      | none =>
          have none_ : pl.innerList.next cur = none := by
            have links := links_todo valid shape
            rw [PostingList.markIndex, mark, List.drop_length] at links
            exact links
          simp [hasValue, none_]
      | some m =>
          have here : m = cur := last m mark
          cases link : pl.innerList.next cur <;>
            simp [hasValue, link, PostingList.getEndMark, mark, here]
  | cons node todo =>
      -- The mark is among the nodes still to see, and those are neither the front nor `cur`.
      have passed : pl.getFakeFront ∈ before ++ [cur] := by
        cases before <;> simp [(List.cons.inj shape).1]
      have apart : ∀ a ∈ before ++ [cur], a ∉ node :: todo := by
        have nodup : (pl.getFakeFront :: visibleNodes pl).Nodup :=
          valid.list.nodup.sublist ((visible_sublist pl).cons_cons _)
        rw [shape, ← List.singleton_append, ← List.append_assoc, List.nodup_append] at nodup
        exact fun a ha inside => nodup.2.2 a ha a inside rfl
      have inside : ∀ m, pl.endMark = some m → m ∈ node :: todo := by
        intro m mark
        rw [last m mark, List.getLastD_cons]
        exact List.getLastD_mem_cons
      have notMark : pl.endMark ≠ some cur := fun mark => apart cur (by simp) (inside cur mark)
      have notFront : pl.endMark ≠ some pl.getFakeFront :=
        fun mark => apart _ passed (inside _ mark)
      simp [hasValue, next_of_todo valid shape, PostingList.getEndMark, notMark, notFront]

/-- With `todo` between the iterator and the end mark, the loop yields `todo`. -/
theorem drain_from {pl : PostingList W} (valid : pl.Valid) {before todo : List Addr} {cur : Addr}
    (shape : pl.getFakeFront :: visibleNodes pl = before ++ cur :: todo) {rounds : Nat}
    (enough : todo.length < rounds) (flag : Bool) :
    drain pl rounds ⟨some cur, flag⟩ = .ok (todo.map pl.innerList.data) := by
  induction todo generalizing before cur rounds flag with
  | nil =>
      obtain ⟨rounds, rfl⟩ : ∃ n, rounds = n + 1 := ⟨rounds - 1, by simp at enough; omega⟩
      rw [drain, hasValue_eq valid shape]
      rfl
  | cons node todo ih =>
      obtain ⟨rounds, rfl⟩ : ∃ n, rounds = n + 1 := ⟨rounds - 1, by simp at enough; omega⟩
      have link := next_of_todo valid shape
      have further : pl.getFakeFront :: visibleNodes pl = (before ++ [cur]) ++ node :: todo := by
        simpa using shape
      have rest := ih further (by simpa using enough) false
      rw [drain, hasValue_eq valid shape]
      simp [getValue, next, link, rest, bind, Except.bind, pure, Except.pure]

/-- **The read loop is total and yields exactly the postings before the mark.** -/
theorem drain_eq {pl : PostingList W} (valid : pl.Valid) {rounds : Nat}
    (enough : pl.nodes.length < rounds) :
    drain pl rounds (create pl) = .ok pl.abs.visible := by
  rw [visible_abs]
  exact drain_from valid (show _ = [] ++ pl.getFakeFront :: visibleNodes pl from rfl)
    (lt_of_le_of_lt (visible_sublist pl).length_le enough) false

end PostingIteratorImpl

/-! ## Counting the postings -/

namespace PostingList

variable {W : Type}

/-- The loop of `Size`, or `none` while it is running.  The `size_t` counts nodes
in memory, so it does not wrap around. -/
def sizeLoop (pl : PostingList W) : Nat → Option Addr → Nat → Option Nat
  | 0, _, _ => none
  | rounds + 1, cur, size =>
      match cur with
      | none => some size
      | some node =>
          match pl.innerList.next node with
          | none => some size
          | some behind =>
              if pl.getEndMark = some node then some size
              else pl.sizeLoop rounds (some behind) (size + 1)

def size (pl : PostingList W) (rounds : Nat) : Option Nat :=
  if some pl.getFakeFront = pl.getEndMark then some 0
  else pl.sizeLoop rounds (some pl.getFakeFront) 0

open PostingIteratorImpl

/-- With the mark not at the fake front, the loop asks what `HasValue` asks. -/
theorem sizeLoop_succ {pl : PostingList W} (marked : pl.getEndMark ≠ some pl.getFakeFront)
    (rounds : Nat) (cur : Addr) (size : Nat) :
    pl.sizeLoop (rounds + 1) (some cur) size =
      if (hasValue ⟨some cur, false⟩ pl).1 then
        pl.sizeLoop rounds (pl.innerList.next cur) (size + 1)
      else some size := by
  cases link : pl.innerList.next cur with
  | none => simp [sizeLoop, hasValue, link]
  | some behind =>
      by_cases here : pl.getEndMark = some cur
      · simp [sizeLoop, hasValue, link, here]
      · simp [sizeLoop, hasValue, link, here, marked]

theorem sizeLoop_from {pl : PostingList W} (valid : pl.Valid)
    (marked : pl.getEndMark ≠ some pl.getFakeFront) {before todo : List Addr} {cur : Addr}
    (shape : pl.getFakeFront :: visibleNodes pl = before ++ cur :: todo) {rounds : Nat}
    (enough : todo.length < rounds) (size : Nat) :
    pl.sizeLoop rounds (some cur) size = some (size + todo.length) := by
  induction todo generalizing before cur rounds size with
  | nil =>
      obtain ⟨rounds, rfl⟩ : ∃ n, rounds = n + 1 := ⟨rounds - 1, by simp at enough; omega⟩
      rw [sizeLoop_succ marked, hasValue_eq valid shape]
      rfl
  | cons node todo ih =>
      obtain ⟨rounds, rfl⟩ : ∃ n, rounds = n + 1 := ⟨rounds - 1, by simp at enough; omega⟩
      have further : pl.getFakeFront :: visibleNodes pl = (before ++ [cur]) ++ node :: todo := by
        simpa using shape
      rw [sizeLoop_succ marked, hasValue_eq valid shape, next_of_todo valid shape]
      simp only [List.isEmpty_cons, Bool.not_false, if_true]
      rw [ih further (by simpa using enough), List.length_cons]
      congr 1
      omega

theorem size_eq {pl : PostingList W} (valid : pl.Valid) {rounds : Nat}
    (enough : pl.nodes.length < rounds) : pl.size rounds = some pl.abs.visible.length := by
  rw [visible_abs, List.length_map, size]
  by_cases atFront : pl.getEndMark = some pl.getFakeFront
  · rw [if_pos atFront.symm, visible_of_front valid atFront, List.length_nil]
  · rw [if_neg (Ne.symm atFront)]
    have counted := sizeLoop_from valid atFront
      (show _ = [] ++ pl.getFakeFront :: visibleNodes pl from rfl)
      (lt_of_le_of_lt (visible_sublist pl).length_le enough) 0
    rwa [Nat.zero_add] at counted

/-- What is visible of a list for each place of its mark. -/
theorem visible_of_mark {pl : PostingList W} (valid : pl.Valid) :
    (pl.endMark = none → pl.abs.visible = pl.nodes.map pl.innerList.data) ∧
      (pl.endMark = some pl.getFakeFront → pl.abs.visible = []) ∧
      ∀ m ∈ pl.nodes, pl.endMark = some m → ∃ before after, pl.nodes = before ++ m :: after ∧
        pl.abs.visible = (before ++ [m]).map pl.innerList.data := by
  rw [visible_abs]
  refine ⟨?_, ?_, ?_⟩
  · intro unmarked
    rw [visible_eq_nodes unmarked]
  · intro atFront
    rw [visible_of_front valid atFront, List.map_nil]
  · intro m inside marked
    obtain ⟨kept, freed, split⟩ := valid.split marked
    have off : m ≠ pl.getFakeFront := fun atFront =>
      (show pl.getFakeFront ∉ pl.nodes from valid.list.front_not_mem) (atFront ▸ inside)
    rcases List.eq_nil_or_concat kept with rfl | ⟨before, last, rfl⟩
    · exact absurd split.last off
    · have isLast : m = last := by simpa using split.last
      refine ⟨before, freed, by simp [split.nodes, isLast], ?_⟩
      rw [visibleNodes, split.markIndex valid marked, split.nodes, List.take_left, isLast,
        List.concat_eq_append]

/-- **Iterating and counting agree on the end mark.**  Whatever the list and
wherever its mark stands, the loop of the iterator ends without a fault and has
yielded the postings up to and including the mark, and `Size` is their number. -/
theorem iterates_up_to_mark (pl : PostingList W) (list : pl.innerList.Valid) (mark : Option Addr)
    (onList : ∀ m, mark = some m → m ∈ pl.getFakeFront :: pl.nodes) :
    ∃ values,
      (∀ rounds, pl.nodes.length < rounds →
        drain (pl.setEndMark mark) rounds (.create (pl.setEndMark mark)) = .ok values ∧
          (pl.setEndMark mark).size rounds = some values.length) ∧
      (mark = none → values = pl.nodes.map pl.innerList.data) ∧
      (mark = some pl.getFakeFront → values = []) ∧
      ∀ m ∈ pl.nodes, mark = some m → ∃ before after, pl.nodes = before ++ m :: after ∧
        values = (before ++ [m]).map pl.innerList.data := by
  have valid : (pl.setEndMark mark).Valid := ⟨list, onList⟩
  refine ⟨(pl.setEndMark mark).abs.visible, ?_, visible_of_mark valid⟩
  intro rounds enough
  exact ⟨drain_eq valid enough, size_eq valid enough⟩

end PostingList

namespace ThreePostings

open PostingIteratorImpl

/-- Three postings at the nodes 3, 2 and 1. -/
def list : ValidPostingList Nat :=
  ((ValidPostingList.create.push ⟨1, 10, 100⟩).push ⟨2, 20, 200⟩).push ⟨3, 30, 300⟩

/-- A mark at the second node. -/
theorem mark_in_the_middle :
    (list.1.getFakeFront = 0 ∧ list.1.nodes = [3, 2, 1]) ∧
      ∃ values,
        (∀ rounds, list.1.nodes.length < rounds →
          drain (list.1.setEndMark (some 2)) rounds (.create (list.1.setEndMark (some 2))) =
              .ok values ∧
            (list.1.setEndMark (some 2)).size rounds = some values.length) ∧
        (some 2 = none → values = list.1.nodes.map list.1.innerList.data) ∧
        (some 2 = some list.1.getFakeFront → values = []) ∧
        ∀ m ∈ list.1.nodes, some 2 = some m →
          ∃ before after, list.1.nodes = before ++ m :: after ∧
            values = (before ++ [m]).map list.1.innerList.data :=
  ⟨by decide, PostingList.iterates_up_to_mark list.1 list.2.list (some 2) (by decide)⟩

end ThreePostings

end RecommEngine.Indexing
