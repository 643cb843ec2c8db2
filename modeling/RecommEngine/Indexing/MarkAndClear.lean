/-
# Indexing.MarkAndClear -- what a cleaner pass unlinks

The builder pushes at the front of a list while the cleaner, some seconds apart,
marks and clears it.  Both hold only the reader lock, so any order of their
steps is a run.

In every run each list is sorted by timestamp (`Dated`), so the mark step puts
everything behind the mark below the cutoff.  A later push keeps that unless the
mark stands at the fake front, which is where the mark step leaves it on an
empty or wholly expired list: the new posting is then linked *behind* the mark
and the clear step removes it.  `unlinked_expired` proves the pass exact in
every run where no such push happens; `push_behind_mark_unlinked` is a run where
it does.
-/
import RecommEngine.Indexing.InstantIndex

namespace RecommEngine.Indexing

set_option autoImplicit false

open Std (ExtTreeMap)
open Theory Theory.Run Idl

variable {W : Type}

/-- The clock reading a pushed posting is stamped with. -/
def IndexEvent.pushTime : IndexEvent W → Option Int
  | .push _ _ _ time => some time
  | _ => none

/-- The clock reading a pass computes its cutoff from. -/
def IndexEvent.passTime : IndexEvent W → Option Int
  | .startPass now => some now
  | _ => none

/-- The clock of a run, as each of the two threads reads it: never decreasing,
and with stamps that fit the posting's `int32`. -/
structure ClockOk (es : List (IndexEvent W)) : Prop where
  pushes : (es.filterMap IndexEvent.pushTime).Pairwise (· ≤ ·)
  passes : (es.filterMap IndexEvent.passTime).Pairwise (· ≤ ·)
  fits : ∀ t ∈ es.filterMap IndexEvent.pushTime, -2 ^ 31 ≤ t ∧ t < 2 ^ 31

theorem ClockOk.mono {es pre : List (IndexEvent W)} (ok : ClockOk es) (inside : pre <+: es) :
    ClockOk pre := by
  obtain ⟨rest, rfl⟩ := inside
  obtain ⟨pushes, passes, fits⟩ := ok
  rw [List.filterMap_append] at pushes passes fits
  refine ⟨(List.pairwise_append.mp pushes).1, (List.pairwise_append.mp passes).1, ?_⟩
  intro t ht
  exact fits t (List.mem_append_left _ ht)

namespace IndexMachine

variable [Inhabited W]

/-- The postings of a sequence, youngest first. -/
def YoungestFirst (s : MarkedSeq (Posting W)) : Prop :=
  s.contents.Pairwise fun a b => b.timestamp.toInt ≤ a.timestamp.toInt

/-- Every posting carries a stamp of the past, and every list is sorted by it. -/
structure Dated (pre : List (IndexEvent W)) (m : IndexMachine W) : Prop where
  stamped : ∀ k s, m.seqAt k = some s → ∀ p ∈ s.contents,
    p.timestamp.toInt ∈ pre.filterMap IndexEvent.pushTime
  sorted : ∀ k s, m.seqAt k = some s → YoungestFirst s

theorem Dated.step {P : Platform W} {docLifeTime : Int} {pre : List (IndexEvent W)}
    {m : IndexMachine W} {e : IndexEvent W} (dated : Dated pre m) (ok : ClockOk (pre ++ [e])) :
    Dated (pre ++ [e]) (m.step P docLifeTime e) := by
  have earlier : ∀ {t}, t ∈ pre.filterMap IndexEvent.pushTime →
      t ∈ (pre ++ [e]).filterMap IndexEvent.pushTime := by
    intro t ht
    rw [List.filterMap_append]
    exact List.mem_append_left _ ht
  constructor
  · intro k s after p hp
    cases listChange after with
    | same before => exact earlier (dated.stamped k s before p hp)
    | created => simp [MarkedSeq.contents, MarkedSeq.visible, MarkedSeq.hidden] at hp
    | pushed before =>
        rename_i localId weight time s
        have bound := ok.fits time (by simp [IndexEvent.pushTime])
        rw [MarkedSeq.contents_push, List.mem_cons] at hp
        rcases hp with rfl | hp
        · simp [IndexEvent.pushTime, Int32.toInt_ofInt_of_le bound.1 bound.2]
        · exact earlier (dated.stamped k s before p hp)
    | marked before inPass =>
        rw [MarkedSeq.contents_mark] at hp
        exact earlier (dated.stamped k _ before p hp)
    | cleared before =>
        rw [MarkedSeq.contents_clear] at hp
        exact earlier (dated.stamped k _ before p ((MarkedSeq.visible_sublist _).subset hp))
  · intro k s after
    cases listChange after with
    | same before => exact dated.sorted k s before
    | created => simp [YoungestFirst, MarkedSeq.contents, MarkedSeq.visible, MarkedSeq.hidden]
    | pushed before =>
        rename_i localId weight time s
        have bound := ok.fits time (by simp [IndexEvent.pushTime])
        have pushes := ok.pushes
        rw [List.filterMap_append, List.pairwise_append] at pushes
        rw [YoungestFirst, MarkedSeq.contents_push, List.pairwise_cons]
        refine ⟨?_, dated.sorted k s before⟩
        intro p hp
        rw [Int32.toInt_ofInt_of_le bound.1 bound.2]
        exact pushes.2.2 _ (dated.stamped k s before p hp) time (by simp [IndexEvent.pushTime])
    | marked before inPass =>
        rw [YoungestFirst, MarkedSeq.contents_mark]
        exact dated.sorted k _ before
    | cleared before =>
        rw [YoungestFirst, MarkedSeq.contents_clear]
        exact (dated.sorted k _ before).sublist (MarkedSeq.visible_sublist _)

omit [Inhabited W] in
theorem dated_init : Dated [] ({} : IndexMachine W) := by
  constructor <;> intro k s h <;> simp [seqAt] at h

/-- **In every run every list is sorted by timestamp**, whatever the two threads
interleave. -/
theorem dated_run {P : Platform W} {docLifeTime : Int} {es : List (IndexEvent W)}
    (ok : ClockOk es) : ∀ pre, pre <+: es → Dated pre (run (step P docLifeTime) {} pre) :=
  run_history dated_init fun _ _ inside dated => dated.step (ok.mono inside)

omit [Inhabited W] in
theorem YoungestFirst.pairwise_staysAt {s : MarkedSeq (Posting W)} (sorted : YoungestFirst s)
    (targetTime : Int) :
    s.contents.Pairwise fun a b =>
      PostingList.staysAt targetTime b → PostingList.staysAt targetTime a := by
  refine sorted.imp fun {a b} le stays => ?_
  simp only [PostingList.staysAt, decide_eq_true_eq] at stays ⊢
  omega

/-! ## Nothing young is unlinked -/

/-- The condition on a push: if the end mark of the list stands at the fake
front, the posting is itself below the cutoff. -/
def NotBehindMark (m : IndexMachine W) : IndexEvent W → Prop
  | .push token _ _ time => ∀ pl ∈ m.index[token]?, ∀ targetTime ∈ m.targetTime,
      pl.1.endMark = some pl.1.getFakeFront → (Int32.ofInt time).toInt < targetTime
  | _ => True

instance (m : IndexMachine W) : DecidablePred m.NotBehindMark
  | .push token _ _ time => inferInstanceAs (Decidable (∀ pl ∈ m.index[token]?,
      ∀ targetTime ∈ m.targetTime, pl.1.endMark = some pl.1.getFakeFront →
      (Int32.ofInt time).toInt < targetTime))
  | .attach _ | .create _ | .startPass _ | .mark _ | .clear _ | .deleteAtt => .isTrue trivial

/-- What is behind a mark is below the cutoff of the pass, and so is everything
the passes have unlinked. -/
structure Expired (docLifeTime : Int) (pre : List (IndexEvent W)) (m : IndexMachine W) :
    Prop where
  cutoff : ∀ targetTime, m.targetTime = some targetTime →
    targetTime + docLifeTime ∈ pre.filterMap IndexEvent.passTime
  marked : ∀ k s, m.seqAt k = some s → s.IsAtFront → ∃ targetTime, m.targetTime = some targetTime
  hidden : ∀ k s, m.seqAt k = some s → ∀ p ∈ s.hidden,
    ∃ targetTime, m.targetTime = some targetTime ∧ p.timestamp.toInt < targetTime
  unlinked : ∀ x ∈ m.unlinked, x.2.timestamp.toInt < x.1

omit [Inhabited W] in
theorem expired_init (docLifeTime : Int) : Expired docLifeTime [] ({} : IndexMachine W) :=
  ⟨by simp, by simp [seqAt], by simp [seqAt], by simp⟩

theorem step_targetTime {P : Platform W} {docLifeTime : Int} {m : IndexMachine W}
    {e : IndexEvent W} :
    (m.step P docLifeTime e).targetTime =
      (e.passTime.map (· - docLifeTime)).or m.targetTime := by
  cases e with
  | mark token =>
      cases inPass : m.targetTime <;> simp [step, markList, inPass, IndexEvent.passTime]
  | _ => rfl

/-- Cutoffs only grow, so what was below one stays below the next. -/
theorem Expired.le_target {docLifeTime : Int} {pre : List (IndexEvent W)} {m : IndexMachine W}
    {e : IndexEvent W} {P : Platform W} (expired : Expired docLifeTime pre m)
    (ok : ClockOk (pre ++ [e])) {targetTime : Int} (inPass : m.targetTime = some targetTime) :
    ∃ next, (m.step P docLifeTime e).targetTime = some next ∧ targetTime ≤ next := by
  rw [step_targetTime]
  cases now : e.passTime with
  | none => exact ⟨targetTime, by simp [inPass], le_refl _⟩
  | some now' =>
      have passes := ok.passes
      rw [List.filterMap_append, List.pairwise_append] at passes
      have := passes.2.2 _ (expired.cutoff targetTime inPass) now' (by simp [now])
      exact ⟨now' - docLifeTime, by simp, by omega⟩

theorem Expired.below_next {P : Platform W} {docLifeTime : Int} {pre : List (IndexEvent W)}
    {m : IndexMachine W} {e : IndexEvent W} (expired : Expired docLifeTime pre m)
    (ok : ClockOk (pre ++ [e])) {p : Posting W}
    (below : ∃ targetTime, m.targetTime = some targetTime ∧ p.timestamp.toInt < targetTime) :
    ∃ targetTime, (m.step P docLifeTime e).targetTime = some targetTime ∧
      p.timestamp.toInt < targetTime := by
  obtain ⟨targetTime, inPass, below⟩ := below
  obtain ⟨next, now, le⟩ := expired.le_target (P := P) ok inPass
  exact ⟨next, now, by omega⟩

/-- What comes to lie behind a mark is below the cutoff: `mark` puts only that there,
and a push does so only as the condition on it allows. -/
theorem Expired.hidden_step {P : Platform W} {docLifeTime : Int} {pre : List (IndexEvent W)}
    {m : IndexMachine W} {e : IndexEvent W} (expired : Expired docLifeTime pre m)
    (dated : Dated pre m) (ok : ClockOk (pre ++ [e])) (safe : m.NotBehindMark e) {k : Int64}
    {s : MarkedSeq (Posting W)} (after : (m.step P docLifeTime e).seqAt k = some s)
    {p : Posting W} (hp : p ∈ s.hidden) :
    ∃ targetTime, (m.step P docLifeTime e).targetTime = some targetTime ∧
      p.timestamp.toInt < targetTime := by
  cases listChange after with
  | same before => exact expired.below_next ok (expired.hidden k s before p hp)
  | created => simp [MarkedSeq.hidden] at hp
  | pushed before =>
      rename_i localId weight time s
      rcases MarkedSeq.mem_hidden_push.mp hp with hp | ⟨rfl, atFront⟩
      · exact expired.below_next ok (expired.hidden k s before p hp)
      · -- The push landed behind the mark: the condition is what puts it below the cutoff.
        obtain ⟨pl, here, rfl⟩ := Option.map_eq_some_iff.mp before
        have mark := (PostingList.abs_isAtFront pl.2).mp atFront
        obtain ⟨targetTime, inPass⟩ := expired.marked k _ before atFront
        exact expired.below_next ok ⟨targetTime, inPass, safe pl here targetTime inPass mark⟩
  | marked before inPass =>
      rename_i targetTime s
      rw [MarkedSeq.hidden_mark] at hp
      have old := not_stay_of_mem_dropWhile
        ((dated.sorted k s before).pairwise_staysAt targetTime) hp
      simp only [PostingList.staysAt, decide_eq_true_eq, not_le] at old
      exact expired.below_next ok ⟨targetTime, inPass, old⟩
  | cleared before => simp at hp

/-- Only a clear step unlinks, and only what lies behind the mark. -/
theorem mem_unlinked_step {P : Platform W} {docLifeTime : Int} {m : IndexMachine W}
    {e : IndexEvent W} {x : Int × Posting W} (hx : x ∈ (m.step P docLifeTime e).unlinked) :
    x ∈ m.unlinked ∨ x.1 = m.targetTime.getD 0 ∧
      ∃ k s, m.seqAt k = some s ∧ x.2 ∈ s.hidden := by
  cases e with
  | clear token =>
      simp only [IndexMachine.step, clearList, List.mem_append, List.mem_map] at hx
      rcases hx with ⟨p, hp, rfl⟩ | old
      · exact Or.inr ⟨rfl, token, (mem_expiredIn m token p).mp hp⟩
      · exact Or.inl old
  | mark token =>
      cases inPass : m.targetTime <;>
        simp only [IndexMachine.step, markList, inPass] at hx <;> exact Or.inl hx
  | _ => exact Or.inl hx

theorem Expired.step {P : Platform W} {docLifeTime : Int} {pre : List (IndexEvent W)}
    {m : IndexMachine W} {e : IndexEvent W} (expired : Expired docLifeTime pre m)
    (dated : Dated pre m) (ok : ClockOk (pre ++ [e])) (safe : m.NotBehindMark e) :
    Expired docLifeTime (pre ++ [e]) (m.step P docLifeTime e) := by
  refine ⟨?_, ?_, fun k s after p hp => expired.hidden_step dated ok safe after hp, ?_⟩
  · intro targetTime inPass
    rw [step_targetTime] at inPass
    rw [List.filterMap_append, List.mem_append]
    cases now : e.passTime with
    | none => exact Or.inl (expired.cutoff targetTime (by simpa [now] using inPass))
    | some now' =>
        simp only [now, Option.map_some, Option.some_or, Option.some.injEq] at inPass
        exact Or.inr (by simp [now, ← inPass])
  · intro k s after atFront
    have still : (∃ targetTime, m.targetTime = some targetTime) →
        ∃ targetTime, (m.step P docLifeTime e).targetTime = some targetTime := by
      rintro ⟨targetTime, inPass⟩
      obtain ⟨next, now, -⟩ := expired.le_target (P := P) ok inPass
      exact ⟨next, now⟩
    cases listChange after with
    | same before => exact still (expired.marked k s before atFront)
    | created => exact absurd atFront id
    | pushed before => exact still (expired.marked k _ before (MarkedSeq.isAtFront_push.mp atFront))
    | marked before inPass => exact still ⟨_, inPass⟩
    | cleared before => exact absurd atFront id
  · intro x hx
    rcases mem_unlinked_step hx with old | ⟨cutoff, k, s, before, hidden⟩
    · exact expired.unlinked x old
    · obtain ⟨targetTime, inPass, below⟩ := expired.hidden k s before x.2 hidden
      rw [cutoff, inPass]
      exact below

theorem expired_run {P : Platform W} {docLifeTime : Int} {es : List (IndexEvent W)}
    (ok : ClockOk es) (safe : Along (step P docLifeTime) NotBehindMark {} es) :
    ∀ pre, pre <+: es → Expired docLifeTime pre (run (step P docLifeTime) {} pre) :=
  run_history (expired_init docLifeTime) fun pre _ inside expired =>
    expired.step (dated_run ok pre ((List.prefix_append _ _).trans inside)) (ok.mono inside)
      (safe.at inside)

/-- **A pass unlinks only expired postings**, in every interleaving of builder
and cleaner steps in which no young posting is pushed behind a mark at the fake
front. -/
theorem unlinked_expired (P : Platform W) (docLifeTime : Int) (es : List (IndexEvent W))
    (ok : ClockOk es) (safe : Along (step P docLifeTime) NotBehindMark {} es) :
    ∀ x ∈ (run (step P docLifeTime) {} es).unlinked, x.2.timestamp.toInt < x.1 :=
  (expired_run ok safe es (List.prefix_refl es)).unlinked

end IndexMachine

/-! ## A push between mark and clear

One story with the single keyword 5, and a pass that runs while its list exists
but is still empty.  Weights are left as they are. -/

namespace MarkRace

def platform : Platform Int32 := ⟨fun _ => 77, id⟩

def story : StoryProfile := ⟨"s", 0, "", "", (∅ : Keywords).insert 5 3⟩

/-- The push comes after the mark step: the list is empty when it is marked, so
the mark is the fake front and the posting is linked behind it. -/
def pushAfterMark : List (IndexEvent Int32) :=
  [.attach ⟨story⟩, .create story, .startPass 100, .mark 5, .push 5 1 3 101, .clear 5]

/-- The same steps with the push before the mark step, and a second push after it. -/
def pushBeforeMark : List (IndexEvent Int32) :=
  [.attach ⟨story⟩, .create story, .push 5 1 3 10, .push 5 1 3 99, .startPass 100, .mark 5,
    .push 5 1 3 101, .clear 5]

/-- The pass with cutoff 90 unlinks a posting stamped 101. -/
theorem push_behind_mark_unlinked :
    ClockOk pushAfterMark ∧
      ∃ x ∈ (run (IndexMachine.step platform 10) {} pushAfterMark).unlinked,
        x = (90, ⟨1, 3, 101⟩) ∧ ¬ x.2.timestamp.toInt < x.1 := by
  refine ⟨⟨by decide, by decide, by decide⟩, (90, ⟨1, 3, 101⟩), ?_, rfl, by decide⟩
  decide

theorem pushBeforeMark_unlinked :
    (run (IndexMachine.step platform 10) {} pushBeforeMark).unlinked = [(90, ⟨1, 3, 10⟩)] ∧
      ∀ x ∈ (run (IndexMachine.step platform 10) {} pushBeforeMark).unlinked,
        x.2.timestamp.toInt < x.1 := by
  refine ⟨by decide, IndexMachine.unlinked_expired platform 10 pushBeforeMark
    ⟨by decide, by decide, by decide⟩ (by decide)⟩

end MarkRace

end RecommEngine.Indexing
