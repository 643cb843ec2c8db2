/-
# Indexing.Operations -- building a story and a whole cleaner pass

`addStoryInternal` and `cleanPass` are the step lists of `AddStoryInternal` and
of one round of the cleaner, run with nothing in between.  Their effect is
stated once, per token and per local id:

* a build pushes one posting onto the list of each of the story's keywords,
  creating the list if there is none (`seqAt_addStoryInternal`), and adds one
  attachment;
* a pass over unmarked lists cuts every list behind its longest young prefix
  (`seqAt_cleanPass`) and deletes the attachment of every document that lost a
  posting (`mem_att_cleanPass`).
-/
import RecommEngine.Indexing.MarkAndClear

namespace RecommEngine.Indexing

set_option autoImplicit false

open Std (ExtTreeMap)
open Theory Theory.Run Idl

namespace IndexMachine

variable {W : Type} [Inhabited W]

/-! ## Definitions -/

/-- The posting steps of one story: one per keyword, in key order, the `i`-th
stamped with the `i`-th clock reading. -/
def pushEvents (P : Platform W) (localId : LocalDocID) (keywords : Keywords) (clock : Nat → Int) :
    List (IndexEvent W) :=
  keywords.toList.zipIdx.map fun entry =>
    .push entry.1.1 localId (P.floatOfInt32 entry.1.2) (clock entry.2)

def buildEvents (P : Platform W) (m : IndexMachine W) (req : StoryAddingRequest)
    (clock : Nat → Int) : List (IndexEvent W) :=
  .attach req :: .create req.story ::
    pushEvents P m.localDocidCounter req.story.keywords clock

/-- `IndexBuildThread::AddStoryInternal`. -/
def addStoryInternal (P : Platform W) (docLifeTime : Int) (m : IndexMachine W)
    (req : StoryAddingRequest) (clock : Nat → Int) : IndexMachine W :=
  run (step P docLifeTime) m (buildEvents P m req clock)

def passEvents (m : IndexMachine W) (now : Int) : List (IndexEvent W) :=
  .startPass now :: (m.index.keys.map .mark ++ m.index.keys.map .clear ++ [.deleteAtt])

/-- One round of `CleanOldStoryThread::Run`, up to the replay log. -/
def cleanPass (P : Platform W) (docLifeTime : Int) (m : IndexMachine W) (now : Int) :
    IndexMachine W :=
  run (step P docLifeTime) m (passEvents m now)

/-! ## The effect of a build -/

/-- The posting a build adds to the list of `token`. -/
def newPosting (P : Platform W) (localId : LocalDocID) (keywords : Keywords) (clock : Nat → Int)
    (token : Int64) : Option (Posting W) :=
  (keywords.toList.zipIdx.find? fun entry => entry.1.1 = token).map fun entry =>
    ⟨localId, P.floatOfInt32 entry.1.2, Int32.ofInt (clock entry.2)⟩

theorem seqAt_pushes {P : Platform W} {docLifeTime : Int} (localId : LocalDocID)
    (clock : Nat → Int) (k : Int64) (entries : List ((Int64 × Int32) × Nat))
    (distinct : (entries.map fun entry => entry.1.1).Nodup) (m : IndexMachine W) :
    (run (step P docLifeTime) m (entries.map fun entry =>
        .push entry.1.1 localId (P.floatOfInt32 entry.1.2) (clock entry.2))).seqAt k =
      match entries.find? fun entry => entry.1.1 = k with
      | none => m.seqAt k
      | some entry => (m.seqAt k).map
          (·.push ⟨localId, P.floatOfInt32 entry.1.2, Int32.ofInt (clock entry.2)⟩) := by
  induction entries generalizing m with
  | nil => rfl
  | cons entry entries ih =>
      simp only [List.map_cons, List.nodup_cons] at distinct
      rw [List.map_cons, run_cons, ih distinct.2, List.find?_cons]
      by_cases here : entry.1.1 = k
      · have gone := find?_tail_of_nodup distinct.1 here
        simp [gone, here, step, seqAt_push]
      · simp only [here, decide_false, step, seqAt_push, if_false]

omit [Inhabited W] in
theorem tokens_zipIdx (keywords : Keywords) :
    (keywords.toList.zipIdx.map fun entry => entry.1.1) = keywords.keys := by
  rw [← ExtTreeMap.map_fst_toList_eq_keys,
    show (fun entry : (Int64 × Int32) × Nat => entry.1.1) = Prod.fst ∘ Prod.fst from rfl,
    ← List.map_map, List.zipIdx_map_fst]

omit [Inhabited W] in
/-- The entry found for a token carries the token's weight. -/
theorem find?_entry {keywords : Keywords} {k : Int64} {entry : (Int64 × Int32) × Nat}
    (found : keywords.toList.zipIdx.find? (fun entry => entry.1.1 = k) = some entry) :
    keywords[k]? = some entry.1.2 := by
  have here : entry.1.1 = k := by simpa using List.find?_some found
  have inside := List.mem_of_find?_eq_some found
  rw [← here, ← ExtTreeMap.mem_toList_iff_getElem?_eq_some]
  exact List.fst_mem_of_mem_zipIdx inside

omit [Inhabited W] in
theorem find?_entry_none {keywords : Keywords} {k : Int64} :
    keywords.toList.zipIdx.find? (fun entry => entry.1.1 = k) = none ↔ k ∉ keywords := by
  rw [List.find?_eq_none, ← ExtTreeMap.mem_keys, ← tokens_zipIdx, List.mem_map]
  simp only [decide_eq_true_eq, not_exists, not_and]

omit [Inhabited W] in
theorem newPosting_eq_none {P : Platform W} {localId : LocalDocID} {keywords : Keywords}
    {clock : Nat → Int} {k : Int64} :
    newPosting P localId keywords clock k = none ↔ k ∉ keywords := by
  rw [newPosting, Option.map_eq_none_iff, find?_entry_none]

/-- A build pushes the story's posting onto the list of each of its keywords;
a keyword seen for the first time starts from an empty list. -/
theorem seqAt_addStoryInternal (P : Platform W) (docLifeTime : Int) (m : IndexMachine W)
    (req : StoryAddingRequest) (clock : Nat → Int) (k : Int64) :
    (m.addStoryInternal P docLifeTime req clock).seqAt k =
      match newPosting P m.localDocidCounter req.story.keywords clock k with
      | none => m.seqAt k
      | some posting => some (((m.seqAt k).getD (.unmarked [])).push posting) := by
  simp only [addStoryInternal, buildEvents, run_cons, pushEvents]
  rw [seqAt_pushes _ _ _ _ (by rw [tokens_zipIdx]; exact ExtTreeMap.nodup_keys)]
  simp only [step, seqAt_create, show (m.attach P req).seqAt k = m.seqAt k from rfl, newPosting]
  cases found : req.story.keywords.toList.zipIdx.find? (fun entry => entry.1.1 = k) with
  | none => simp [find?_entry_none.mp found]
  | some entry =>
      have inside : k ∈ req.story.keywords := by
        by_contra absent
        simp [find?_entry_none.mpr absent] at found
      cases m.seqAt k <;> simp [inside]

/-- Everything else a build changes: the attachment of the new local id and the
counters.  The cleaner's fields are untouched. -/
theorem addStoryInternal_frame (P : Platform W) (docLifeTime : Int) (m : IndexMachine W)
    (req : StoryAddingRequest) (clock : Nat → Int) :
    (m.addStoryInternal P docLifeTime req clock).att =
        m.att.insert m.localDocidCounter ⟨P.cityHash64 req.story.storyId⟩ ∧
      (m.addStoryInternal P docLifeTime req clock).localDocidCounter = m.localDocidCounter + 1 ∧
      (m.addStoryInternal P docLifeTime req clock).built =
        (m.localDocidCounter, req) :: m.built ∧
      (m.addStoryInternal P docLifeTime req clock).monitor = (m.attach P req).monitor := by
  have pushes : ∀ (entries : List ((Int64 × Int32) × Nat)) (localId : LocalDocID)
      (m : IndexMachine W),
      let out := run (step P docLifeTime) m (entries.map fun entry =>
        .push entry.1.1 localId (P.floatOfInt32 entry.1.2) (clock entry.2))
      out.att = m.att ∧ out.localDocidCounter = m.localDocidCounter ∧ out.built = m.built ∧
        out.monitor = m.monitor := by
    intro entries localId
    induction entries with
    | nil => exact fun _ => ⟨rfl, rfl, rfl, rfl⟩
    | cons entry entries ih => exact fun m => ih _
  exact pushes _ _ _

/-! ## The effect of a pass -/

/-- Marking a list twice with one cutoff is marking it once. -/
theorem seqAt_marks (P : Platform W) (docLifeTime : Int) {targetTime : Int} (k : Int64)
    (tokens : List Int64) (m : IndexMachine W) (inPass : m.targetTime = some targetTime) :
    (run (step P docLifeTime) m (tokens.map .mark)).seqAt k =
      if k ∈ tokens then (m.seqAt k).map (·.mark (PostingList.staysAt targetTime))
      else m.seqAt k := by
  induction tokens generalizing m with
  | nil => rfl
  | cons token tokens ih =>
      have same : (m.markList token).targetTime = some targetTime := by
        simp [markList, inPass]
      rw [List.map_cons, run_cons, step, ih _ same, seqAt_mark m token inPass]
      by_cases here : token = k
      · subst here
        cases m.seqAt token <;> simp
      · simp [here, Ne.symm here]

theorem seqAt_clears {P : Platform W} {docLifeTime : Int} (k : Int64) (tokens : List Int64)
    (m : IndexMachine W) :
    (run (step P docLifeTime) m (tokens.map .clear)).seqAt k =
      if k ∈ tokens then (m.seqAt k).map (·.clear) else m.seqAt k := by
  induction tokens generalizing m with
  | nil => rfl
  | cons token tokens ih =>
      rw [List.map_cons, run_cons, step, ih, seqAt_clear]
      by_cases here : token = k
      · subst here
        cases m.seqAt token <;> simp
      · simp [here, Ne.symm here]

theorem run_marks_frame (P : Platform W) (docLifeTime : Int) (tokens : List Int64)
    (m : IndexMachine W) :
    let out := run (step P docLifeTime) m (tokens.map .mark)
    out.docToDelete = m.docToDelete ∧ out.att = m.att ∧
      out.localDocidCounter = m.localDocidCounter ∧ out.built = m.built ∧
      out.monitor = m.monitor := by
  induction tokens generalizing m with
  | nil => exact ⟨rfl, rfl, rfl, rfl, rfl⟩
  | cons token tokens ih =>
      have one : (m.markList token).docToDelete = m.docToDelete ∧
          (m.markList token).att = m.att ∧
          (m.markList token).localDocidCounter = m.localDocidCounter ∧
          (m.markList token).built = m.built ∧ (m.markList token).monitor = m.monitor := by
        unfold markList
        split <;> exact ⟨rfl, rfl, rfl, rfl, rfl⟩
      have rest := ih (m.markList token)
      simp only [one] at rest
      exact rest

theorem run_clears_frame (P : Platform W) (docLifeTime : Int) (tokens : List Int64)
    (m : IndexMachine W) :
    let out := run (step P docLifeTime) m (tokens.map .clear)
    out.att = m.att ∧ out.localDocidCounter = m.localDocidCounter ∧ out.built = m.built ∧
      out.monitor = m.monitor := by
  induction tokens generalizing m with
  | nil => exact ⟨rfl, rfl, rfl, rfl⟩
  | cons token tokens ih => exact ih (m.clearList token)

/-- The clear steps collect the documents behind the marks of their lists.  A
list cleared twice has nothing behind its mark the second time. -/
theorem mem_docToDelete_clears {P : Platform W} {docLifeTime : Int} (tokens : List Int64)
    (m : IndexMachine W) (localId : LocalDocID) :
    localId ∈ (run (step P docLifeTime) m (tokens.map .clear)).docToDelete ↔
      localId ∈ m.docToDelete ∨ ∃ k ∈ tokens, ∃ s, m.seqAt k = some s ∧
        ∃ p ∈ s.hidden, p.localDocid = localId := by
  induction tokens generalizing m with
  | nil => simp
  | cons token tokens ih =>
      have here : localId ∈ (m.clearList token).docToDelete ↔ localId ∈ m.docToDelete ∨
          ∃ s, m.seqAt token = some s ∧ ∃ p ∈ s.hidden, p.localDocid = localId := by
        simp only [clearList, Finset.mem_union, List.mem_toFinset, List.mem_map, mem_expiredIn]
        constructor
        · rintro (old | ⟨p, ⟨s, seq, hidden⟩, same⟩)
          · exact Or.inl old
          · exact Or.inr ⟨s, seq, p, hidden, same⟩
        · rintro (old | ⟨s, seq, p, hidden, same⟩)
          · exact Or.inl old
          · exact Or.inr ⟨p, ⟨s, seq, hidden⟩, same⟩
      rw [List.map_cons, run_cons, step, ih, here]
      constructor
      · rintro ((old | first) | ⟨k, hk, s, seq, p, hidden, same⟩)
        · exact Or.inl old
        · exact Or.inr ⟨token, by simp, first⟩
        · rw [seqAt_clear] at seq
          split at seq
          · obtain ⟨s', -, rfl⟩ := Option.map_eq_some_iff.mp seq
            simp at hidden
          · exact Or.inr ⟨k, by simp [hk], s, seq, p, hidden, same⟩
      · rintro (old | ⟨k, hk, s, seq, p, hidden, same⟩)
        · exact Or.inl (Or.inl old)
        · by_cases first : token = k
          · subst first
            exact Or.inl (Or.inr ⟨s, seq, p, hidden, same⟩)
          · refine Or.inr ⟨k, by simpa [Ne.symm first] using hk, s, ?_, p, hidden, same⟩
            rw [seqAt_clear, if_neg first, seq]

omit [Inhabited W] in
theorem mem_keys_iff (m : IndexMachine W) (k : Int64) :
    k ∈ m.index.keys ↔ ∃ s, m.seqAt k = some s := by
  rw [ExtTreeMap.mem_keys, seqAt, ExtTreeMap.mem_iff_isSome_getElem?]
  cases m.index[k]? <;> simp

/-- A pass cuts every list behind its longest young prefix. -/
theorem seqAt_cleanPass (P : Platform W) (docLifeTime : Int) (m : IndexMachine W) (now : Int)
    (k : Int64) :
    (m.cleanPass P docLifeTime now).seqAt k = (m.seqAt k).map fun s =>
      .unmarked (s.contents.takeWhile (PostingList.staysAt (now - docLifeTime))) := by
  have marks := seqAt_marks P docLifeTime k m.index.keys
    (m.startPass docLifeTime now) rfl
  have same : (m.startPass docLifeTime now).seqAt k = m.seqAt k := rfl
  simp only [cleanPass, passEvents, run_cons, run_append, run_nil]
  show (run (step P docLifeTime) (run (step P docLifeTime) (m.startPass docLifeTime now) _)
    _).seqAt k = _
  rw [seqAt_clears, marks, same]
  by_cases inside : k ∈ m.index.keys
  · cases m.seqAt k <;> simp [inside, MarkedSeq.clear]
  · have absent : m.seqAt k = none := by
      rw [Option.eq_none_iff_forall_ne_some]
      exact fun s seq => inside ((mem_keys_iff m k).mpr ⟨s, seq⟩)
    simp [inside, absent]

/-- The documents a pass forgets: those with a posting behind the cut of some list. -/
def LosesPosting (m : IndexMachine W) (targetTime : Int) (localId : LocalDocID) : Prop :=
  ∃ k s, m.seqAt k = some s ∧
    ∃ p ∈ s.contents.dropWhile (PostingList.staysAt targetTime), p.localDocid = localId

/-- What a pass does last, with the documents it has collected by then. -/
theorem cleanPass_eq (P : Platform W) (docLifeTime : Int) (m : IndexMachine W) (now : Int) :
    ∃ cleared : IndexMachine W, m.cleanPass P docLifeTime now = cleared.deleteAtt ∧
      cleared.att = m.att ∧ cleared.monitor = m.monitor ∧
      ∀ localId, localId ∈ cleared.docToDelete ↔ m.LosesPosting (now - docLifeTime) localId := by
  let marked := run (step P docLifeTime) (m.startPass docLifeTime now) (m.index.keys.map .mark)
  let cleared := run (step P docLifeTime) marked (m.index.keys.map .clear)
  obtain ⟨noneYet, att, -, -, monitor⟩ :=
    run_marks_frame P docLifeTime m.index.keys (m.startPass docLifeTime now)
  obtain ⟨att', -, -, monitor'⟩ := run_clears_frame P docLifeTime m.index.keys marked
  refine ⟨cleared, ?_, att'.trans att, monitor'.trans monitor, ?_⟩
  · simp only [cleanPass, passEvents, run_cons, run_append, run_nil]
    rfl
  · intro localId
    have nothing : marked.docToDelete = ∅ := noneYet
    rw [mem_docToDelete_clears, nothing]
    have seq := fun k => seqAt_marks P docLifeTime k m.index.keys
      (m.startPass docLifeTime now) rfl
    have same : ∀ k, (m.startPass docLifeTime now).seqAt k = m.seqAt k := fun _ => rfl
    simp only [Finset.notMem_empty, false_or, LosesPosting]
    constructor
    · rintro ⟨k, inside, s, found, p, hidden, rfl⟩
      rw [seq, if_pos inside, same] at found
      obtain ⟨s, before, rfl⟩ := Option.map_eq_some_iff.mp found
      exact ⟨k, s, before, p, by simpa using hidden, rfl⟩
    · rintro ⟨k, s, found, p, hidden, rfl⟩
      have inside := (mem_keys_iff m k).mpr ⟨s, found⟩
      refine ⟨k, inside, s.mark (PostingList.staysAt (now - docLifeTime)), ?_, p, ?_, rfl⟩
      · rw [seq, if_pos inside, same, found]
        rfl
      · simpa using hidden

/-- A pass deletes exactly the attachments of the documents that lost a posting. -/
theorem att_cleanPass (P : Platform W) (docLifeTime : Int) (m : IndexMachine W) (now : Int)
    (localId : LocalDocID) (a : IndexingAttachment) :
    (m.cleanPass P docLifeTime now).att[localId]? = some a ↔
      m.att[localId]? = some a ∧ ¬ m.LosesPosting (now - docLifeTime) localId := by
  obtain ⟨cleared, shape, att, -, collected⟩ := cleanPass_eq P docLifeTime m now
  rw [shape, ← collected]
  simp [deleteAtt, att, Option.filter_eq_some_iff]

theorem cleanPass_frame (P : Platform W) (docLifeTime : Int) (m : IndexMachine W) (now : Int) :
    (m.cleanPass P docLifeTime now).localDocidCounter = m.localDocidCounter ∧
      (m.cleanPass P docLifeTime now).built = m.built := by
  obtain ⟨-, -, counter, built, -⟩ := run_marks_frame P docLifeTime
    m.index.keys (m.startPass docLifeTime now)
  obtain ⟨-, counter', built', -⟩ := run_clears_frame P docLifeTime
    m.index.keys (run (step P docLifeTime) (m.startPass docLifeTime now) (m.index.keys.map .mark))
  simp only [cleanPass, passEvents, run_cons, run_append, run_nil]
  exact ⟨counter'.trans counter, built'.trans built⟩

/-! ## Runs of whole operations -/

end IndexMachine

inductive IndexOp where
  | build (req : StoryAddingRequest) (clock : Nat → Int)
  | pass (now : Int)

namespace IndexOp

/-- The stamps an operation gives, in the order it reads the clock. -/
def stamps : IndexOp → List Int32
  | build req clock => (List.range req.story.keywords.size).map fun i => Int32.ofInt (clock i)
  | pass _ => []

end IndexOp

namespace IndexMachine

variable {W : Type} [Inhabited W]

def perform (P : Platform W) (docLifeTime : Int) (m : IndexMachine W) : IndexOp → IndexMachine W
  | .build req clock => m.addStoryInternal P docLifeTime req clock
  | .pass now => m.cleanPass P docLifeTime now

omit [Inhabited W] in
/-- The stamp of a new posting is one the build gives. -/
theorem newPosting_stamp {P : Platform W} {localId : LocalDocID} {req : StoryAddingRequest}
    {clock : Nat → Int} {k : Int64} {posting : Posting W}
    (new : newPosting P localId req.story.keywords clock k = some posting) :
    posting.localDocid = localId ∧ posting.timestamp ∈ (IndexOp.build req clock).stamps := by
  obtain ⟨entry, found, rfl⟩ := Option.map_eq_some_iff.mp new
  refine ⟨rfl, List.mem_map.mpr ⟨entry.2, ?_, rfl⟩⟩
  have inside := List.snd_lt_of_mem_zipIdx (List.mem_of_find?_eq_some found)
  rw [List.mem_range, ← ExtTreeMap.length_toList]
  simpa using inside

/-- The stamps given so far never decrease: each is a reading of a clock that
does not run backwards. -/
def ClockForward (ops : List IndexOp) : Prop :=
  (ops.flatMap IndexOp.stamps).Pairwise (· ≤ ·)

theorem ClockForward.mono {ops past : List IndexOp} (forward : ClockForward ops)
    (inside : past <+: ops) : ClockForward past := by
  obtain ⟨rest, rfl⟩ := inside
  rw [ClockForward, List.flatMap_append] at forward
  exact (List.pairwise_append.mp forward).1

/-- Between operations: no list is marked, every list is sorted, and every stamp
was given by an operation of the past. -/
structure Settled (past : List IndexOp) (m : IndexMachine W) : Prop where
  unmarked : ∀ k s, m.seqAt k = some s → s = .unmarked s.contents
  sorted : ∀ k s, m.seqAt k = some s → YoungestFirst s
  stamped : ∀ k s, m.seqAt k = some s → ∀ p ∈ s.contents,
    p.timestamp ∈ past.flatMap IndexOp.stamps

/-- The list a build leaves for `k`: the old one, or an old or empty one with
the new posting in front. -/
theorem Settled.build_cases {P : Platform W} {docLifeTime : Int} {past : List IndexOp}
    {m : IndexMachine W} {req : StoryAddingRequest} {clock : Nat → Int} (settled : Settled past m)
    {k : Int64} {s : MarkedSeq (Posting W)}
    (after : (m.addStoryInternal P docLifeTime req clock).seqAt k = some s) :
    m.seqAt k = some s ∨ ∃ old posting, s = .unmarked (posting :: old) ∧
      (old.Pairwise fun a b => b.timestamp.toInt ≤ a.timestamp.toInt) ∧
      (∀ p ∈ old, p.timestamp ∈ past.flatMap IndexOp.stamps) ∧
      posting.timestamp ∈ (IndexOp.build req clock).stamps := by
  rw [seqAt_addStoryInternal] at after
  split at after
  · exact Or.inl after
  · rename_i posting new
    have stamp := (newPosting_stamp new).2
    cases before : m.seqAt k with
    | none =>
        rw [before] at after
        cases after
        exact Or.inr ⟨[], posting, rfl, .nil, by simp, stamp⟩
    | some old =>
        rw [before, settled.unmarked k old before] at after
        cases after
        exact Or.inr ⟨old.contents, posting, rfl, settled.sorted k old before,
          settled.stamped k old before, stamp⟩

theorem Settled.perform {P : Platform W} {docLifeTime : Int} {past : List IndexOp}
    {m : IndexMachine W} {op : IndexOp} (settled : Settled past m)
    (forward : ClockForward (past ++ [op])) :
    Settled (past ++ [op]) (m.perform P docLifeTime op) := by
  rw [ClockForward, List.flatMap_append, List.pairwise_append] at forward
  have earlier : ∀ {t}, t ∈ past.flatMap IndexOp.stamps →
      t ∈ (past ++ [op]).flatMap IndexOp.stamps := by
    intro t ht
    rw [List.flatMap_append]
    exact List.mem_append_left _ ht
  cases op with
  | build req clock =>
      refine ⟨fun k s after => ?_, fun k s after => ?_, fun k s after p hp => ?_⟩ <;>
        rcases settled.build_cases after with before | ⟨old, posting, rfl, sorted, stamped, new⟩
      · exact settled.unmarked k s before
      · simp [MarkedSeq.contents, MarkedSeq.visible, MarkedSeq.hidden]
      · exact settled.sorted k s before
      · rw [YoungestFirst, MarkedSeq.contents_unmarked, List.pairwise_cons]
        refine ⟨?_, sorted⟩
        intro p hp
        exact Int32.le_iff_toInt_le.mp (forward.2.2 _ (stamped p hp) _ (by simpa using new))
      · exact earlier (settled.stamped k s before p hp)
      · rw [MarkedSeq.contents_unmarked, List.mem_cons] at hp
        rcases hp with rfl | hp
        · rw [List.flatMap_append]
          exact List.mem_append_right _ (by simpa using new)
        · exact earlier (stamped p hp)
  | pass now =>
      refine ⟨fun k s after => ?_, fun k s after => ?_, fun k s after p hp => ?_⟩ <;>
        obtain ⟨old, before, rfl⟩ : ∃ old, m.seqAt k = some old ∧ .unmarked (old.contents.takeWhile
          (PostingList.staysAt (now - docLifeTime))) = s :=
          Option.map_eq_some_iff.mp (by rw [← seqAt_cleanPass]; exact after)
      · simp
      · rw [YoungestFirst, MarkedSeq.contents_unmarked]
        exact (settled.sorted k old before).sublist (List.takeWhile_sublist _)
      · rw [MarkedSeq.contents_unmarked] at hp
        exact earlier (settled.stamped k old before p ((List.takeWhile_sublist _).subset hp))

end IndexMachine

end RecommEngine.Indexing
