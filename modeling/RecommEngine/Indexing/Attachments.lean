/-
# Indexing.Attachments -- local ids and the story count over whole runs

`att_` is filled under the builder's counter and emptied by the cleaner, and
`num_indexed_stories_total_` is meant to be its size.

* The counter is a 32-bit number that nobody compares with the map.  Every build
  of a run gets an id that is legal and not in use exactly if the run has fewer
  than 2^32 builds (`takesFreshId_iff`); the 2^32-th story gets `kIllegalLocalDocID`.
* The cleaner subtracts the number of documents it collects, also of those whose
  attachment an earlier pass has deleted.  `Accounted` is the condition on a step
  under which the count stays right (`counted_of_accounted`).
-/
import RecommEngine.Indexing.Integrity

namespace RecommEngine.Indexing

set_option autoImplicit false

open Std (ExtTreeMap)
open Theory Theory.Run Idl

namespace IndexOp

def isBuild : IndexOp → Bool
  | build _ _ => true
  | pass _ => false

/-- The number of stories a run builds. -/
def builds (ops : List IndexOp) : Nat := ops.countP isBuild

theorem builds_snoc (ops : List IndexOp) (op : IndexOp) :
    builds (ops ++ [op]) = builds ops + if op.isBuild then 1 else 0 := by
  simp [builds, List.countP_append, List.countP_singleton]

theorem builds_mono {ops past : List IndexOp} (inside : past <+: ops) :
    builds past ≤ builds ops :=
  inside.sublist.countP_le

theorem builds_replicate (n : Nat) (req : StoryAddingRequest) (clock : Nat → Int) :
    builds (List.replicate n (build req clock)) = n := by
  rw [builds, List.countP_replicate]
  rfl

/-- A run with more than `n` builds has one that comes after exactly `n` others. -/
theorem exists_build_after {n : Nat} {ops : List IndexOp} (many : n < builds ops) :
    ∃ past req clock, past ++ [build req clock] <+: ops ∧ builds past = n := by
  induction ops using List.reverseRecOn with
  | nil => simp [builds] at many
  | append_singleton ops op ih =>
      by_cases earlier : n < builds ops
      · obtain ⟨past, req, clock, inside, count⟩ := ih earlier
        exact ⟨past, req, clock, inside.trans (List.prefix_append ops [op]), count⟩
      · rw [builds_snoc] at many
        cases op with
        | build req clock =>
            simp only [isBuild, if_true] at many
            exact ⟨ops, req, clock, List.prefix_refl _, by omega⟩
        | pass now =>
            simp only [isBuild, Bool.false_eq_true, if_false] at many
            omega

end IndexOp

namespace IndexMachine

variable {W : Type} [Inhabited W]

/-! ## Local ids -/

/-- The local id a build takes is legal and not the id of a live story. -/
def TakesFreshId (m : IndexMachine W) : IndexOp → Prop
  | .build _ _ => m.localDocidCounter ≠ kIllegalLocalDocID ∧ m.localDocidCounter ∉ m.att
  | .pass _ => True

/-- After `n` builds: the counter, the ids given out and where attachments come from. -/
structure Numbered (n : Nat) (m : IndexMachine W) : Prop where
  counter : m.localDocidCounter = UInt32.ofNat (n + 1)
  given : m.built.map Prod.fst = (List.range n).reverse.map fun i => UInt32.ofNat (i + 1)
  source : ∀ localId ∈ m.att, localId ∈ m.built.map Prod.fst

theorem Numbered.perform {P : Platform W} {docLifeTime : Int} {n : Nat} {m : IndexMachine W}
    {op : IndexOp} (numbered : Numbered n m) :
    Numbered (n + if op.isBuild then 1 else 0) (m.perform P docLifeTime op) := by
  cases op with
  | build req clock =>
      obtain ⟨att, counter, built, -⟩ := addStoryInternal_frame P docLifeTime m req clock
      simp only [IndexOp.isBuild, if_true, IndexMachine.perform]
      refine ⟨?_, ?_, ?_⟩
      · rw [counter, numbered.counter, UInt32.ofNat_add (n + 1) 1]
        rfl
      · rw [built, List.map_cons, numbered.given, numbered.counter, List.range_succ]
        simp
      · intro localId inside
        rw [att, ExtTreeMap.mem_insert] at inside
        rw [built, List.map_cons, List.mem_cons]
        rcases inside with here | before
        · exact Or.inl (Std.LawfulEqOrd.eq_of_compare here).symm
        · exact Or.inr (numbered.source localId before)
  | pass now =>
      obtain ⟨counter, built⟩ := cleanPass_frame P docLifeTime m now
      simp only [IndexOp.isBuild, Bool.false_eq_true, if_false, IndexMachine.perform]
      refine ⟨counter.trans numbered.counter, by rw [built, numbered.given]; rfl, ?_⟩
      intro localId inside
      rw [built]
      obtain ⟨a, found⟩ := Option.isSome_iff_exists.mp
        (ExtTreeMap.isSome_getElem?_iff_mem.mpr inside)
      apply numbered.source
      rw [← ExtTreeMap.isSome_getElem?_iff_mem,
        ((att_cleanPass P docLifeTime m now localId a).mp found).1]
      rfl

theorem numbered_run (P : Platform W) (docLifeTime : Int) (past : List IndexOp) :
    Numbered (IndexOp.builds past) (run (perform P docLifeTime) {} past) := by
  have start : Numbered (IndexOp.builds []) ({} : IndexMachine W) :=
    ⟨rfl, rfl, by simp⟩
  refine run_history (I := fun past m => Numbered (IndexOp.builds past) m) start ?_ past
    (List.prefix_refl _)
  intro pre op _ numbered
  rw [IndexOp.builds_snoc]
  exact numbered.perform

omit [Inhabited W] in
/-- The ids given to the first 2^32 - 1 stories are distinct. -/
theorem Numbered.nodup {n : Nat} {m : IndexMachine W} (numbered : Numbered n m)
    (few : n < 2 ^ 32) : (m.built.map Prod.fst).Nodup := by
  rw [numbered.given]
  apply List.Nodup.map_on
  · intro i hi j hj same
    simp only [List.mem_reverse, List.mem_range] at hi hj
    have values := congrArg UInt32.toNat same
    simp only [UInt32.toNat_ofNat'] at values
    omega
  · exact List.nodup_reverse.mpr List.nodup_range

omit [Inhabited W] in
theorem Numbered.takesFreshId {n : Nat} {m : IndexMachine W} (numbered : Numbered n m)
    (few : n + 1 < 2 ^ 32) (op : IndexOp) : TakesFreshId m op := by
  cases op with
  | pass now => trivial
  | build req clock =>
      constructor
      · intro illegal
        rw [numbered.counter] at illegal
        have values := congrArg UInt32.toNat illegal
        simp only [UInt32.toNat_ofNat', kIllegalLocalDocID, UInt32.toNat_zero] at values
        omega
      · intro inUse
        have given := numbered.source _ inUse
        rw [numbered.given, numbered.counter, List.mem_map] at given
        obtain ⟨i, hi, same⟩ := given
        simp only [List.mem_reverse, List.mem_range] at hi
        have values := congrArg UInt32.toNat same
        simp only [UInt32.toNat_ofNat'] at values
        omega

/-- The 2^32-th build of a run gets the illegal id. -/
theorem not_takesFreshId (P : Platform W) (docLifeTime : Int) {ops : List IndexOp}
    (many : 2 ^ 32 ≤ IndexOp.builds ops) :
    ¬ Along (perform P docLifeTime) TakesFreshId {} ops := by
  intro along
  obtain ⟨past, req, clock, inside, count⟩ := IndexOp.exists_build_after
    (show 2 ^ 32 - 1 < IndexOp.builds ops by omega)
  have fresh := along.at inside
  apply fresh.1
  rw [(numbered_run P docLifeTime past).counter, count]
  rfl

/-- **Local ids over whole runs.**  Every build of a run takes a legal id that is
not in use exactly if the run has fewer than 2^32 builds; then no two stories
ever built share an id. -/
theorem takesFreshId_iff (P : Platform W) (docLifeTime : Int) (ops : List IndexOp) :
    (Along (perform P docLifeTime) TakesFreshId {} ops ↔ IndexOp.builds ops < 2 ^ 32) ∧
      (IndexOp.builds ops < 2 ^ 32 → ∀ past, past <+: ops →
        ((run (perform P docLifeTime) {} past).built.map Prod.fst).Nodup) := by
  refine ⟨⟨?_, ?_⟩, ?_⟩
  · intro along
    by_contra many
    exact not_takesFreshId P docLifeTime (by omega) along
  · intro few
    rw [along_iff]
    intro past op inside
    cases op with
    | pass now => trivial
    | build req clock =>
        have more := IndexOp.builds_mono inside
        rw [IndexOp.builds_snoc] at more
        simp only [IndexOp.isBuild, if_true] at more
        exact (numbered_run P docLifeTime past).takesFreshId (by omega) _
  · intro few past inside
    have fewer := IndexOp.builds_mono inside
    exact (numbered_run P docLifeTime past).nodup (by omega)

/-! ## The story count -/

/-- The monitor's total is the number of attachments. -/
def Counted (m : IndexMachine W) : Prop :=
  m.monitor.numIndexedStoriesTotal.toInt = m.att.size

/-- The condition on a step: a build takes an id that is not in use and the count
still fits an `int`; a pass collects only documents that still have their attachment. -/
def Accounted (docLifeTime : Int) (m : IndexMachine W) : IndexOp → Prop
  | .build _ _ => m.localDocidCounter ∉ m.att ∧ m.att.size + 1 < 2 ^ 31
  | .pass now => ∀ localId, m.LosesPosting (now - docLifeTime) localId → localId ∈ m.att

/-- The condition on a pass, over the set the pass collects. -/
theorem accounted_pass {P : Platform W} {docLifeTime now : Int} {m : IndexMachine W}
    (attached : (m.cleanPass P docLifeTime now).docToDelete ⊆ m.att.keys.toFinset) :
    Accounted docLifeTime m (.pass now) := by
  obtain ⟨cleared, shape, -, -, collected⟩ := cleanPass_eq P docLifeTime m now
  intro localId loses
  rw [shape] at attached
  simpa using attached ((collected localId).mpr loses)

omit [Inhabited W] in
/-- Deleting documents that all have an attachment makes the map smaller by their number. -/
theorem size_deleteAtt {m : IndexMachine W}
    (attached : ∀ localId ∈ m.docToDelete, localId ∈ m.att) :
    m.deleteAtt.att.size + m.docToDelete.card = m.att.size := by
  have left : m.deleteAtt.att.keys.toFinset = m.att.keys.toFinset \ m.docToDelete := by
    ext localId
    rw [deleteAtt, ExtTreeMap.keys_filter_key]
    simp [and_comm]
  rw [← card_keys, ← card_keys, left]
  apply Finset.card_sdiff_add_card_eq_card
  intro localId inside
  simpa using attached localId inside

theorem Counted.addStoryInternal {P : Platform W} {docLifeTime : Int} {m : IndexMachine W}
    {req : StoryAddingRequest} {clock : Nat → Int} (counted : Counted m)
    (fresh : m.localDocidCounter ∉ m.att) (fits : m.att.size + 1 < 2 ^ 31) :
    Counted (m.addStoryInternal P docLifeTime req clock) := by
  obtain ⟨att, -, -, monitor⟩ := addStoryInternal_frame P docLifeTime m req clock
  rw [Counted] at counted
  rw [Counted, att, monitor, ExtTreeMap.size_insert, if_neg (by simpa using fresh)]
  show (m.monitor.numIndexedStoriesTotal + 1).toInt = _
  rw [Int32.toInt_add, counted, Int32.toInt_one]
  have := Int.bmod_eq_of_le (n := (m.att.size : Int) + 1) (m := 2 ^ 32) (by omega) (by omega)
  simpa using this

theorem Counted.cleanPass {P : Platform W} {docLifeTime now : Int} {m : IndexMachine W}
    (counted : Counted m)
    (attached : ∀ localId, m.LosesPosting (now - docLifeTime) localId → localId ∈ m.att) :
    Counted (m.cleanPass P docLifeTime now) := by
  obtain ⟨cleared, shape, att, monitor, collected⟩ := cleanPass_eq P docLifeTime m now
  have size : cleared.deleteAtt.att.size + cleared.docToDelete.card = m.att.size := by
    rw [← att]
    apply size_deleteAtt
    intro localId inside
    rw [att]
    exact attached localId ((collected localId).mp inside)
  rw [Counted] at counted
  rw [shape, Counted]
  show (cleared.monitor.numIndexedStoriesTotal - Int32.ofNat cleared.docToDelete.card).toInt = _
  have fits := m.monitor.numIndexedStoriesTotal.toInt_lt
  rw [monitor, Int32.toInt_sub, counted, Int32.toInt_ofNat_of_lt (by omega)]
  have whole : (m.att.size : Int) - cleared.docToDelete.card = cleared.deleteAtt.att.size := by
    omega
  rw [whole]
  exact Int.bmod_eq_of_le (by omega) (by omega)

/-- **The count over whole runs.**  In a run whose steps are all accounted for,
the total is the number of attachments in every state between operations. -/
theorem counted_of_accounted (P : Platform W) (docLifeTime : Int) (ops : List IndexOp)
    (accounted : Along (perform P docLifeTime) (Accounted docLifeTime) {} ops) :
    ∀ past, past <+: ops → Counted (run (perform P docLifeTime) {} past) := by
  refine run_history (I := fun _ m => Counted m) rfl ?_
  intro past op inside counted
  have step := accounted.at inside
  cases op with
  | build req clock => exact counted.addStoryInternal step.1 step.2
  | pass now => exact counted.cleanPass step

end IndexMachine

/-! ## A counter that wraps and a story counted out twice -/

namespace SplitStory

/-- The last of 2^32 stories gets the illegal id. -/
theorem replicate_build_wraps :
    ¬ Along (IndexMachine.perform platform 10) IndexMachine.TakesFreshId {}
      (List.replicate (2 ^ 32) (.build request fun _ => 10)) := by
  have many := (IndexOp.builds_replicate (2 ^ 32) request fun _ => 10).ge
  exact IndexMachine.not_takesFreshId platform 10 many

/-- The postings are stamped 10 and 11; the passes have the cutoffs 11 and 12. -/
def acrossTwoPasses : List IndexOp := [.build request fun i => 10 + i, .pass 21, .pass 22]

/-- The second pass collects the story again: the total is -1 and the map is empty. -/
theorem acrossTwoPasses_miscounts :
    IndexMachine.ClockForward acrossTwoPasses ∧
      ¬ ∀ past, past <+: acrossTwoPasses →
        (run (IndexMachine.perform platform 10) {} past).Counted := by
  refine ⟨by unfold IndexMachine.ClockForward; decide, ?_⟩
  intro always
  have counted := always acrossTwoPasses (List.prefix_refl _)
  revert counted
  unfold IndexMachine.Counted
  decide +kernel

/-- A story built within one second is counted out once. -/
theorem withinTick_counted :
    Along (IndexMachine.perform platform 10) (IndexMachine.Accounted 10) {} withinTick ∧
      ∀ past, past <+: withinTick →
        (run (IndexMachine.perform platform 10) {} past).Counted := by
  have accounted : Along (IndexMachine.perform platform 10) (IndexMachine.Accounted 10) {}
      withinTick := by
    refine ⟨⟨by simp, by simp⟩, ?_, ?_, trivial⟩
    · exact IndexMachine.accounted_pass (P := platform) (by decide +kernel)
    · exact IndexMachine.accounted_pass (P := platform) (by decide +kernel)
  exact ⟨accounted, IndexMachine.counted_of_accounted platform 10 withinTick accounted⟩

end SplitStory

end RecommEngine.Indexing
