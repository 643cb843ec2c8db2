/-
# Indexing.ConcurrentRead -- reading a list while it grows

One reader runs the documented loop `HasValue` / `GetValue` / `Next` while the
builder pushes postings onto the same list; each call is one step.

`GetValue` and `Next` both read `cur_->next`.  Away from the fake front nothing
can change between them.  At the fake front a push in between makes `Next` stop
at the new node, with the node just read still ahead: it is read again.  The
loop reads every posting once, in list order, exactly if no push falls between
the first `GetValue` and its `Next` (`reads_once_iff`).

The proof follows the reader's *plan*: the nodes read so far and those it would
still read if the list stayed as it is.  No reader step changes the plan
(`Stands.reader`), and a push leaves it, extends it in front, or repeats a node
in it (`Stands.push`).
-/
import RecommEngine.Theory.Run
import RecommEngine.Indexing.Iterator

namespace RecommEngine.Indexing

set_option autoImplicit false

open Util Theory Theory.Run PostingIteratorImpl

inductive ReaderPc where
  | atHasValue
  | atGetValue
  | atNext
  | done
  deriving DecidableEq

structure ReadState (W : Type) where
  list : ValidPostingList W
  it : PostingIteratorImpl
  pc : ReaderPc
  /-- What `GetValue` returned so far, and the node behind each value. -/
  values : List (Posting W)
  read : List Addr
  fault : Option Fault

inductive ReadEvent (W : Type) where
  | push (posting : Posting W)
  | reader

namespace ReadState

variable {W : Type}

def start (list : ValidPostingList W) : ReadState W :=
  ⟨list, .create list.1, .atHasValue, [], [], none⟩

def readerStep (s : ReadState W) : ReadState W :=
  match s.pc with
  | .atHasValue =>
      let (answer, it) := s.it.hasValue s.list.1
      { s with it := it, pc := if answer then .atGetValue else .done }
  | .atGetValue =>
      match s.it.getValue s.list.1 with
      | .error fault => { s with pc := .done, fault := some fault }
      | .ok (value, it) =>
          { s with
            it := it
            pc := .atNext
            values := s.values ++ [value]
            read := s.read ++ (s.it.cur.bind s.list.1.innerList.next).toList }
  | .atNext =>
      match s.it.next s.list.1 with
      | .error fault => { s with pc := .done, fault := some fault }
      | .ok it => { s with it := it, pc := .atHasValue }
  | .done => s

def step [Inhabited W] (s : ReadState W) : ReadEvent W → ReadState W
  | .push posting => { s with list := s.list.push posting }
  | .reader => s.readerStep

/-- The condition on a push: the reader is not between its first `GetValue` and
the `Next` that follows. -/
def NotBetween (s : ReadState W) : ReadEvent W → Prop
  | .push _ => ¬ (s.pc = .atNext ∧ s.it.cur = some s.list.1.getFakeFront)
  | .reader => True

instance (s : ReadState W) : DecidablePred s.NotBetween
  | .push _ => inferInstanceAs (Decidable (¬ (s.pc = .atNext ∧ s.it.cur = some s.list.1.getFakeFront)))
  | .reader => .isTrue trivial

/-! ## The plan -/

/-- Where the reader stands: at `cur`, with `todo` between it and the end mark. -/
structure Stands (s : ReadState W) (before : List Addr) (cur : Addr) (todo : List Addr) :
    Prop where
  at_ : s.it.cur = some cur
  shape : s.list.1.getFakeFront :: visibleNodes s.list.1 = before ++ cur :: todo
  ready : s.pc = .atGetValue → todo ≠ [] ∧ s.it.hasValueFlag = true
  pending : s.pc = .atNext → todo ≠ []
  unread : before = [] → s.pc ≠ .atNext → s.read = []
  begun : before = [] → s.pc = .atNext → ∃ n ∈ todo, s.read = [n]
  inList : ∀ n ∈ s.read, n ∈ s.list.1.nodes
  values : s.values = s.read.map s.list.1.innerList.data
  fault : s.fault = none

/-- What is still to be read if the list stays as it is. -/
def remaining (pc : ReaderPc) (todo : List Addr) : List Addr :=
  match pc with
  | .atNext => todo.tail
  | .done => []
  | _ => todo

/-- How many calls the reader has still to make. -/
def callsLeft (pc : ReaderPc) (todo : List Addr) : Nat :=
  match pc with
  | .atHasValue => 3 * todo.length + 1
  | .atGetValue => 3 * todo.length
  | .atNext => 3 * todo.length - 1
  | .done => 0

def plan (s : ReadState W) (todo : List Addr) : List Addr :=
  s.read ++ remaining s.pc todo

theorem stands_start (list : ValidPostingList W) :
    (start list).Stands [] list.1.getFakeFront (visibleNodes list.1) :=
  ⟨rfl, rfl, by simp [start], by simp [start], by simp [start], by simp [start], by simp [start],
    rfl, rfl⟩

/-- What lies behind `cur` is in the list. -/
theorem mem_visible {front cur node : Addr} {visible before rest : List Addr}
    (shape : front :: visible = before ++ cur :: node :: rest) : node ∈ visible := by
  cases before with
  | nil => simp [(List.cons.inj shape).2]
  | cons _ before => simp [(List.cons.inj shape).2]

/-- No reader step changes the plan, and each brings the reader one call closer to the end. -/
theorem Stands.reader {s : ReadState W} {before todo : List Addr} {cur : Addr}
    (stands : s.Stands before cur todo) :
    ∃ before' cur' todo', s.readerStep.Stands before' cur' todo' ∧
      s.readerStep.plan todo' = s.plan todo ∧ s.readerStep.list = s.list ∧
      callsLeft s.readerStep.pc todo' = callsLeft s.pc todo - 1 := by
  obtain ⟨at_, shape, ready, pending, unread, begun, inList, values, fault⟩ := stands
  have itEq : s.it = ⟨some cur, s.it.hasValueFlag⟩ := by rw [← at_]
  cases pc : s.pc with
  | atHasValue =>
      have answer := hasValue_eq s.list.2 shape s.it.hasValueFlag
      rw [← itEq] at answer
      have out : s.readerStep = { s with
          it := ⟨some cur, !todo.isEmpty⟩, pc := if !todo.isEmpty then .atGetValue else .done } := by
        simp only [readerStep, pc, answer]
      have unread := fun first => unread first (by simp [pc])
      rw [out]
      refine ⟨before, cur, todo, ⟨rfl, shape, ?_, ?_, fun first _ => unread first, ?_, inList, values,
        fault⟩, ?_, rfl, ?_⟩
      all_goals cases todo <;> simp [plan, remaining, callsLeft, pc]
  | atGetValue =>
      obtain ⟨nonempty, flag⟩ := ready pc
      obtain ⟨node, rest, rfl⟩ := List.exists_cons_of_ne_nil nonempty
      have link := next_of_todo s.list.2 shape
      have out : s.readerStep = { s with
          it := ⟨some cur, false⟩, pc := .atNext
          values := s.values ++ [s.list.1.innerList.data node], read := s.read ++ [node] } := by
        simp only [readerStep, pc, getValue, flag, if_true, at_, Option.bind_some, link,
          Option.toList_some]
      rw [out]
      refine ⟨before, cur, node :: rest, ⟨rfl, shape, ?_, ?_, ?_, ?_, ?_, ?_, fault⟩, ?_, rfl, ?_⟩
      · simp
      · simp
      · simp
      · exact fun first _ => ⟨node, by simp, by simp [unread first (by simp [pc])]⟩
      · intro n hn
        rcases List.mem_append.mp hn with old | new
        · exact inList n old
        · rw [List.mem_singleton.mp new]
          exact (visible_sublist _).subset (mem_visible shape)
      · simp [values]
      · simp [plan, remaining, pc]
      · simp [callsLeft]
  | atNext =>
      obtain ⟨node, rest, rfl⟩ := List.exists_cons_of_ne_nil (pending pc)
      have link := next_of_todo s.list.2 shape
      have out : s.readerStep = { s with it := ⟨some node, s.it.hasValueFlag⟩, pc := .atHasValue } := by
        simp only [readerStep, pc, next, at_, link]
      rw [out]
      refine ⟨before ++ [cur], node, rest, ⟨rfl, by simpa using shape, by simp, by simp, by simp,
        by simp, inList, values, fault⟩, ?_, rfl, ?_⟩
      · simp [plan, remaining, pc]
      · simp only [callsLeft, List.length_cons]
        omega
  | done =>
      have out : s.readerStep = s := by simp only [readerStep, pc]
      rw [out]
      exact ⟨before, cur, todo, ⟨at_, shape, ready, pending, unread, begun, inList, values, fault⟩,
        rfl, rfl, by simp [callsLeft, pc]⟩

/-- A push shows in front, unless the mark hides everything. -/
theorem visibleNodes_pushed {pl out : PostingList W} {posting : Posting W} {node : Addr}
    (valid : pl.Valid) (pushed : PostingList.Pushed pl posting out node) :
    visibleNodes out = if pl.endMark = some pl.getFakeFront then visibleNodes pl
      else node :: visibleNodes pl := by
  have outValid := pushed.valid valid
  cases marked : pl.endMark with
  | none =>
      rw [visible_eq_nodes marked, visible_eq_nodes (pushed.endMark.trans marked), pushed.nodes]
      simp
  | some m =>
      have outMarked := pushed.endMark.trans marked
      obtain ⟨kept, freed, split⟩ := valid.split marked
      have atFront := split.kept_nil_iff valid
      simp only [visibleNodes, split.markIndex valid marked, split.nodes, List.take_left,
        Option.some.injEq]
      cases kept with
      | nil =>
          have outSplit : out.SplitAt m [] (node :: freed) :=
            ⟨by simp [pushed.nodes, split.nodes], by simpa [pushed.front] using split.last⟩
          rw [outSplit.markIndex outValid outMarked, if_pos (atFront.mp rfl)]
          rfl
      | cons a kept =>
          have outSplit : out.SplitAt m (node :: a :: kept) freed :=
            ⟨by simp [pushed.nodes, split.nodes], by simpa [pushed.front] using split.last⟩
          rw [outSplit.markIndex outValid outMarked, outSplit.nodes, List.take_left,
            if_neg fun h => by simpa using atFront.mpr h]

/-- A push changes the list under the reader and nothing else: the reader stands
where the new list has its node, with at least the old nodes ahead. -/
theorem Stands.relist [Inhabited W] {s : ReadState W} {before todo : List Addr} {cur : Addr}
    (stands : s.Stands before cur todo) {posting : Posting W} {node : Addr}
    (pushed : PostingList.Pushed s.list.1 posting (s.list.1.pushPosting posting) node)
    {before' todo' : List Addr}
    (shape' : s.list.1.getFakeFront :: visibleNodes (s.list.1.pushPosting posting) =
      before' ++ cur :: todo')
    (nonempty : todo ≠ [] → todo' ≠ []) (first : before' = [] → before = [])
    (more : ∀ n ∈ todo, n ∈ todo') : (s.step (.push posting)).Stands before' cur todo' := by
  obtain ⟨at_, -, ready, pending, unread, begun, inList, values, fault⟩ := stands
  have front : (s.list.push posting).1.getFakeFront = s.list.1.getFakeFront := pushed.front
  have inList' : ∀ n ∈ s.read, n ∈ (s.list.push posting).1.nodes := by
    intro n hn
    show n ∈ (s.list.1.pushPosting posting).nodes
    rw [pushed.nodes]
    exact List.mem_cons_of_mem _ (inList n hn)
  have values' : s.values = s.read.map (s.list.push posting).1.innerList.data :=
    values.trans (pushed.map_data inList).symm
  refine ⟨at_, by rw [← shape', ← front]; rfl, fun pc => ⟨nonempty (ready pc).1, (ready pc).2⟩,
    fun pc => nonempty (pending pc), fun h => unread (first h), ?_, inList', values', fault⟩
  intro h pc
  obtain ⟨n, hn, read⟩ := begun (first h) pc
  exact ⟨n, more n hn, read⟩

/-- What a push does to the plan: nothing, a new node in front, or, between the
first `GetValue` and its `Next`, a node planned twice. -/
theorem Stands.push [Inhabited W] {s : ReadState W} {before todo : List Addr} {cur : Addr}
    (stands : s.Stands before cur todo) (posting : Posting W) :
    ∃ before' cur' todo', (s.step (.push posting)).Stands before' cur' todo' ∧
      (s.NotBetween (.push posting) →
        ((s.step (.push posting)).plan todo' = s.plan todo ∧
          (visibleNodes s.list.1).Sublist (visibleNodes (s.list.push posting).1)) ∨
        ∃ node, (s.step (.push posting)).plan todo' = node :: s.plan todo ∧
          visibleNodes (s.list.push posting).1 = node :: visibleNodes s.list.1) ∧
      (¬ s.NotBetween (.push posting) →
        ∃ n, 2 ≤ ((s.step (.push posting)).plan todo').count n) := by
  obtain ⟨node, pushed⟩ := s.list.2.pushed posting
  have visible := visibleNodes_pushed s.list.2 pushed
  have at_ := stands.at_
  have shape := stands.shape
  by_cases hides : s.list.1.endMark = some s.list.1.getFakeFront
  · -- Nothing is visible, so the reader has nothing to do.
    rw [if_pos hides] at visible
    refine ⟨before, cur, todo, stands.relist pushed (by rw [visible]; exact shape) id id
      fun _ h => h, ?_, ?_⟩
    · exact fun _ => Or.inl ⟨rfl, by rw [ValidPostingList.push, visible]⟩
    · intro between
      obtain ⟨pc, -⟩ := not_not.mp between
      have empty : visibleNodes s.list.1 = [] := by
        simp [visibleNodes, PostingList.markIndex, hides]
      rw [empty] at shape
      have length := congrArg List.length shape
      simp only [List.length_cons, List.length_nil, List.length_append] at length
      exact absurd (List.eq_nil_of_length_eq_zero (by omega)) (stands.pending pc)
  · rw [if_neg hides] at visible
    cases before with
    | nil =>
        obtain ⟨rfl, rfl⟩ := List.cons.inj shape
        refine ⟨[], _, node :: visibleNodes s.list.1,
          stands.relist pushed (by rw [visible]; rfl) (by simp) id
            fun n hn => List.mem_cons_of_mem _ hn, ?_, ?_⟩
        · intro notBetween
          have pc : s.pc ≠ .atNext := fun pc => notBetween ⟨pc, at_⟩
          cases hpc : s.pc with
          | done => exact Or.inl ⟨by simp [plan, step, remaining, hpc],
              by rw [ValidPostingList.push, visible]; exact List.sublist_cons_self _ _⟩
          | atNext => exact absurd hpc pc
          | atHasValue | atGetValue =>
              refine Or.inr ⟨node, ?_, visible⟩
              simp [plan, step, remaining, hpc, stands.unread rfl pc]
        · intro between
          obtain ⟨pc, -⟩ := not_not.mp between
          obtain ⟨n, hn, read⟩ := stands.begun rfl pc
          refine ⟨n, ?_⟩
          have again : 1 ≤ (visibleNodes s.list.1).count n := List.one_le_count_iff.mpr hn
          simp [plan, step, remaining, pc, read]
          omega
    | cons f before =>
        obtain ⟨rfl, rest⟩ := List.cons.inj shape
        refine ⟨_ :: node :: before, cur, todo,
          stands.relist pushed (by rw [visible, rest]; rfl) id (by simp) fun _ h => h,
          fun _ => Or.inl ⟨rfl, ?_⟩, ?_⟩
        · rw [ValidPostingList.push, visible]
          exact List.sublist_cons_self _ _
        · intro between
          obtain ⟨-, atFront⟩ := not_not.mp between
          have off : s.list.1.getFakeFront ∉ s.list.1.nodes := s.list.2.list.front_not_mem
          rw [at_, Option.some.injEq] at atFront
          refine absurd ((visible_sublist s.list.1).subset ?_) off
          rw [rest, ← atFront]
          exact List.mem_append_right before List.mem_cons_self

/-! ## Whole runs -/

/-- The reader of a run with no push in between: it reads each node it plans
once, in list order, and plans everything that was visible at the start. -/
structure OnTrack (visible : List Addr) (s : ReadState W) (todo : List Addr) : Prop where
  all : visible.Sublist (s.plan todo)
  order : (s.plan todo).Sublist (visibleNodes s.list.1)

theorem OnTrack.nodup {visible : List Addr} {s : ReadState W} {todo : List Addr}
    (onTrack : OnTrack visible s todo) : (s.plan todo).Nodup := by
  have nodes : s.list.1.nodes.Nodup := (List.nodup_cons.mp s.list.2.list.nodup).2
  exact nodes.sublist (onTrack.order.trans (visible_sublist _))

variable [Inhabited W]

theorem onTrack_run {visible : List Addr} {es : List (ReadEvent W)} {s : ReadState W}
    {before todo : List Addr} {cur : Addr} (stands : s.Stands before cur todo)
    (onTrack : OnTrack visible s todo) (along : Along step NotBetween s es) :
    ∃ before' cur' todo', (run step s es).Stands before' cur' todo' ∧
      OnTrack visible (run step s es) todo' := by
  refine Along.invariant (I := fun s => ∃ before cur todo, s.Stands before cur todo ∧
    OnTrack visible s todo) ?_ ⟨before, cur, todo, stands, onTrack⟩ along
  rintro s e ⟨before, cur, todo, stands, all, order⟩ allowed
  cases e with
  | reader =>
      obtain ⟨before', cur', todo', stands', plan, list, -⟩ := stands.reader
      exact ⟨before', cur', todo', stands', by rw [step, plan]; exact all,
        by rw [step, plan, list]; exact order⟩
  | push posting =>
      obtain ⟨before', cur', todo', stands', safe, -⟩ := stands.push posting
      refine ⟨before', cur', todo', stands', ?_⟩
      rcases safe allowed with ⟨plan, grows⟩ | ⟨node, plan, grows⟩
      · exact ⟨by rw [plan]; exact all, by rw [plan]; exact order.trans grows⟩
      · refine ⟨by rw [plan]; exact all.cons node, ?_⟩
        rw [plan]
        show (node :: s.plan todo).Sublist (visibleNodes (s.list.push posting).1)
        rw [grows]
        exact order.cons_cons node

/-- A node planned twice stays planned twice. -/
theorem repeated_run (es : List (ReadEvent W)) {s : ReadState W} {before todo : List Addr}
    {cur : Addr} (stands : s.Stands before cur todo) (repeated : ∃ n, 2 ≤ (s.plan todo).count n) :
    ∃ before' cur' todo', (run step s es).Stands before' cur' todo' ∧
      ∃ n, 2 ≤ ((run step s es).plan todo').count n := by
  induction es generalizing s before cur todo with
  | nil => exact ⟨before, cur, todo, stands, repeated⟩
  | cons e es ih =>
      cases e with
      | reader =>
          obtain ⟨before', cur', todo', stands', plan, -⟩ := stands.reader
          exact ih stands' (by rw [step, plan]; exact repeated)
      | push posting =>
          obtain ⟨before', cur', todo', stands', safe, spoils⟩ := stands.push posting
          apply ih stands'
          by_cases between : s.NotBetween (.push posting)
          · obtain ⟨n, twice⟩ := repeated
            rcases safe between with ⟨plan, -⟩ | ⟨node, plan, -⟩
            · exact ⟨n, by rw [plan]; exact twice⟩
            · exact ⟨n, by rw [plan]; exact twice.trans (List.count_le_count_cons)⟩
          · exact spoils between

theorem repeated_of_not_along {es : List (ReadEvent W)} {s : ReadState W}
    {before todo : List Addr} {cur : Addr} (stands : s.Stands before cur todo)
    (spoiled : ¬ Along step NotBetween s es) :
    ∃ before' cur' todo', (run step s es).Stands before' cur' todo' ∧
      ∃ n, 2 ≤ ((run step s es).plan todo').count n := by
  induction es generalizing s before cur todo with
  | nil => exact absurd trivial spoiled
  | cons e es ih =>
      cases e with
      | reader =>
          obtain ⟨before', cur', todo', stands', -⟩ := stands.reader
          exact ih stands' fun along => spoiled ⟨trivial, along⟩
      | push posting =>
          obtain ⟨before', cur', todo', stands', -, spoils⟩ := stands.push posting
          by_cases between : s.NotBetween (.push posting)
          · exact ih stands' fun along => spoiled ⟨between, along⟩
          · exact repeated_run es stands' (spoils between)

/-- The loop always ends: left alone, the reader is done after a bounded number of its calls. -/
theorem finishes {s : ReadState W} {before todo : List Addr} {cur : Addr}
    (stands : s.Stands before cur todo) :
    (run step s (List.replicate (callsLeft s.pc todo) .reader)).pc = .done := by
  induction left : callsLeft s.pc todo generalizing s before cur todo with
  | zero =>
      have ready := stands.ready
      have pending := stands.pending
      have notNil : todo ≠ [] → 0 < todo.length := List.length_pos_iff.mpr
      show s.pc = .done
      cases pc : s.pc with
      | done => rfl
      | atHasValue => simp [callsLeft, pc] at left
      | atGetValue =>
          have := notNil (ready pc).1
          simp only [callsLeft, pc] at left
          omega
      | atNext =>
          have := notNil (pending pc)
          simp only [callsLeft, pc] at left
          omega
  | succ n ih =>
      obtain ⟨before', cur', todo', stands', -, -, fewer⟩ := stands.reader
      rw [List.replicate_succ, run_cons]
      exact ih stands' (by rw [step, fewer, left, Nat.add_sub_cancel])

/-- **Reading while the list grows.**  A reader that ran its loop to the end has
read every posting visible at construction once, no node twice and all in list
order, exactly if no push fell between its first `GetValue` and the `Next` after
it. -/
theorem reads_once_iff (list : ValidPostingList W) (es : List (ReadEvent W))
    (finished : (run step (start list) es).pc = .done) :
    let s := run step (start list) es
    (s.fault = none ∧ s.values = s.read.map s.list.1.innerList.data ∧
      (∀ n ∈ visibleNodes list.1, s.read.count n = 1) ∧ s.read.Nodup ∧
      s.read.Sublist s.list.1.nodes) ↔
    Along step NotBetween (start list) es := by
  intro s
  have planEq : ∀ todo, s.plan todo = s.read := fun todo => by
    simp [plan, remaining, s, finished]
  constructor
  · rintro ⟨-, -, -, nodup, -⟩
    by_contra spoiled
    obtain ⟨-, -, todo, -, n, twice⟩ := repeated_of_not_along (stands_start list) spoiled
    have once := List.nodup_iff_count_le_one.mp nodup n
    rw [show (run step (start list) es).plan todo = s.read from planEq todo] at twice
    omega
  · intro along
    have initial : OnTrack (visibleNodes list.1) (start list) (visibleNodes list.1) :=
      ⟨List.Sublist.refl _, List.Sublist.refl _⟩
    obtain ⟨_, _, todo, stands, onTrack⟩ := onTrack_run (stands_start list) initial along
    have nodup := onTrack.nodup
    obtain ⟨all, order⟩ := onTrack
    rw [show (run step (start list) es).plan todo = s.read from planEq todo] at all order nodup
    refine ⟨stands.fault, stands.values, ?_, nodup, order.trans (visible_sublist _)⟩
    intro n hn
    exact List.count_eq_one_of_mem nodup (all.subset hn)

end ReadState

/-! ## A push between `GetValue` and `Next` -/

namespace ReadRace

def oneStory : ValidPostingList Int32 := ValidPostingList.create.push ⟨1, 5, 10⟩

/-- The reader gets the only posting, the builder pushes another one, the reader
goes on to the end. -/
def pushBetween : List (ReadEvent Int32) :=
  [.reader, .reader, .push ⟨2, 6, 11⟩, .reader, .reader, .reader, .reader, .reader]

/-- The same with the push after the reader has moved on. -/
def pushAfter : List (ReadEvent Int32) :=
  [.reader, .reader, .reader, .push ⟨2, 6, 11⟩, .reader]

/-- The posting of story 1 is returned twice, from the same node. -/
theorem pushBetween_reads_twice :
    let s := run ReadState.step (.start oneStory) pushBetween
    s.pc = .done ∧ s.values = [⟨1, 5, 10⟩, ⟨1, 5, 10⟩] ∧ ¬ s.read.Nodup ∧
      ∃ n ∈ visibleNodes oneStory.1, s.read.count n ≠ 1 := by
  refine ⟨by decide, by decide, by decide, 1, by decide, by decide⟩

theorem pushAfter_reads_once :
    let s := run ReadState.step (.start oneStory) pushAfter
    s.values = [⟨1, 5, 10⟩] ∧ s.read.Nodup ∧ ∀ n ∈ visibleNodes oneStory.1, s.read.count n = 1 := by
  obtain ⟨-, -, once, nodup, -⟩ :=
    (ReadState.reads_once_iff oneStory pushAfter (by decide)).mpr (by decide)
  exact ⟨by decide, nodup, once⟩

end ReadRace

end RecommEngine.Indexing
