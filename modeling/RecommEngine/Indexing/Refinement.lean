/-
# Indexing.Refinement -- the index is a log of dated stories

`StoryLog` says what the inverted index is for: it remembers every story that
was built, with its local id and the second of its build, and the cutoff of the
last pass.  A story survives while it is not older than the cutoff; a token's
postings are those of the surviving stories that have the token, newest first.

`refines_run` relates the linked lists, marks and attachments of `IndexMachine`
to that log along every run of builds and passes, and `index_refines_storyLog`
reads the relation off at the interface: `getPostingList`, the read loop and the
attachment map.
-/
import RecommEngine.Indexing.Integrity

namespace RecommEngine.Indexing

set_option autoImplicit false

open Std (ExtTreeMap)
open Theory Theory.Run Idl

/-! ## The log -/

/-- A whole operation at one second: every posting of a build is stamped `time`. -/
inductive DatedOp where
  | build (req : StoryAddingRequest) (time : Int)
  | pass (now : Int)

namespace DatedOp

def time : DatedOp → Int
  | build _ time => time
  | pass now => now

def isBuild : DatedOp → Bool
  | build _ _ => true
  | pass _ => false

def toOp : DatedOp → IndexOp
  | build req time => .build req fun _ => time
  | pass now => .pass now

end DatedOp

structure BuiltStory where
  localId : Nat
  req : StoryAddingRequest
  time : Int

namespace BuiltStory

def keywords (b : BuiltStory) : Keywords := b.req.story.keywords

/-- The posting of the story in the list of `token`. -/
def posting {W : Type} (P : Platform W) (b : BuiltStory) (token : Int64) : Option (Posting W) :=
  b.keywords[token]?.map fun weight =>
    ⟨UInt32.ofNat b.localId, P.floatOfInt32 weight, Int32.ofInt b.time⟩

theorem posting_eq_none {W : Type} {P : Platform W} {b : BuiltStory} {token : Int64} :
    b.posting P token = none ↔ token ∉ b.keywords := by
  simp [posting]

end BuiltStory

structure StoryLog where
  /-- The stories built so far, newest first. -/
  stories : List BuiltStory := []
  /-- The cutoff of the last pass. -/
  cutoff : Option Int := none

namespace StoryLog

def step (docLifeTime : Int) (log : StoryLog) : DatedOp → StoryLog
  | .build req time =>
      { log with stories := ⟨log.stories.length + 1, req, time⟩ :: log.stories }
  | .pass now => { log with cutoff := some (now - docLifeTime) }

def Survives (log : StoryLog) (b : BuiltStory) : Prop :=
  ∀ cutoff ∈ log.cutoff, cutoff ≤ b.time

instance (log : StoryLog) : DecidablePred log.Survives := fun b =>
  inferInstanceAs (Decidable (∀ cutoff ∈ log.cutoff, cutoff ≤ b.time))

def postings {W : Type} (P : Platform W) (log : StoryLog) (token : Int64) : List (Posting W) :=
  (log.stories.filter log.Survives).filterMap (·.posting P token)

theorem postings_eq_nil {W : Type} (P : Platform W) {log : StoryLog} {token : Int64}
    (absent : ¬ ∃ b ∈ log.stories, token ∈ b.keywords) : log.postings P token = [] := by
  rw [postings, List.filterMap_eq_nil_iff]
  intro b hb
  exact BuiltStory.posting_eq_none.mpr fun has => absent ⟨b, List.mem_of_mem_filter hb, has⟩

/-- The log after `past`: ids count the builds, the newest story is the youngest,
times and cutoffs are not ahead of the clock. -/
structure WellDated (docLifeTime : Int) (past : List DatedOp) (log : StoryLog) : Prop where
  count : log.stories.length = past.countP DatedOp.isBuild
  ids : ∀ b ∈ log.stories, 1 ≤ b.localId ∧ b.localId ≤ log.stories.length
  descending : log.stories.Pairwise fun a b => b.localId < a.localId ∧ b.time ≤ a.time
  times : ∀ b ∈ log.stories, b.time ∈ past.map DatedOp.time
  cutoffs : ∀ c ∈ log.cutoff, c + docLifeTime ∈ past.map DatedOp.time

end StoryLog

/-- The runs the log is a specification of: a clock that never runs backwards
and fits an `int32`, and fewer builds than local ids. -/
structure Admissible (docLifeTime : Int) (ops : List DatedOp) : Prop where
  life : 0 ≤ docLifeTime
  mono : (ops.map DatedOp.time).Pairwise (· ≤ ·)
  fits : ∀ op ∈ ops, 0 ≤ op.time ∧ op.time < 2 ^ 31
  builds : ops.countP DatedOp.isBuild < 2 ^ 32 - 1

theorem Admissible.of_prefix {docLifeTime : Int} {ops past : List DatedOp}
    (ok : Admissible docLifeTime ops) (inside : past <+: ops) : Admissible docLifeTime past := by
  obtain ⟨rest, rfl⟩ := inside
  obtain ⟨life, mono, fits, builds⟩ := ok
  rw [List.map_append] at mono
  rw [List.countP_append] at builds
  exact ⟨life, (List.pairwise_append.mp mono).1, fun op hop => fits op (by simp [hop]), by omega⟩

/-- Everything read before `op` is at most its time. -/
theorem Admissible.le_time {docLifeTime : Int} {past : List DatedOp} {op : DatedOp}
    (ok : Admissible docLifeTime (past ++ [op])) {t : Int} (ht : t ∈ past.map DatedOp.time) :
    t ≤ op.time := by
  have mono := ok.mono
  rw [List.map_append, List.pairwise_append] at mono
  exact mono.2.2 t ht op.time (by simp)

namespace StoryLog

theorem WellDated.step {docLifeTime : Int} {past : List DatedOp} {log : StoryLog} {op : DatedOp}
    (dated : WellDated docLifeTime past log) (ok : Admissible docLifeTime (past ++ [op])) :
    WellDated docLifeTime (past ++ [op]) (log.step docLifeTime op) := by
  obtain ⟨count, ids, descending, times, cutoffs⟩ := dated
  cases op with
  | build req time =>
      refine ⟨?_, ?_, ?_, ?_, ?_⟩
      · simp [StoryLog.step, count, DatedOp.isBuild]
      · intro b hb
        simp only [StoryLog.step, List.length_cons] at hb ⊢
        rcases List.mem_cons.mp hb with rfl | hb
        · exact ⟨by simp, le_refl _⟩
        · exact ⟨(ids b hb).1, (ids b hb).2.trans (Nat.le_succ _)⟩
      · refine List.pairwise_cons.mpr ⟨?_, descending⟩
        intro b hb
        exact ⟨Nat.lt_succ_of_le (ids b hb).2, ok.le_time (times b hb)⟩
      · intro b hb
        rcases List.mem_cons.mp hb with rfl | hb
        · simp [DatedOp.time]
        · rw [List.map_append]
          exact List.mem_append_left _ (times b hb)
      · intro c hc
        rw [List.map_append]
        exact List.mem_append_left _ (cutoffs c hc)
  | pass now =>
      refine ⟨?_, ids, descending, ?_, ?_⟩
      · simp [StoryLog.step, count, DatedOp.isBuild]
      · intro b hb
        rw [List.map_append]
        exact List.mem_append_left _ (times b hb)
      · intro c hc
        simp only [StoryLog.step, Option.mem_def, Option.some.injEq] at hc
        simp [← hc, DatedOp.time]

theorem wellDated_run {docLifeTime : Int} {ops : List DatedOp} (ok : Admissible docLifeTime ops) :
    ∀ past, past <+: ops → WellDated docLifeTime past (run (step docLifeTime) {} past) :=
  run_history ⟨rfl, by simp, .nil, by simp, by simp⟩ fun _ _ inside dated =>
    dated.step (ok.of_prefix inside)

theorem WellDated.nodup_ids {docLifeTime : Int} {past : List DatedOp} {log : StoryLog}
    (dated : WellDated docLifeTime past log) (ok : Admissible docLifeTime past) :
    (log.stories.map fun b => UInt32.ofNat b.localId).Nodup := by
  have bound := ok.builds
  rw [← dated.count] at bound
  refine List.pairwise_map.mpr (dated.descending.imp_of_mem fun {a b} ha hb below same => ?_)
  have ids := congrArg UInt32.toNat same
  have la := (dated.ids a ha).2
  have lb := (dated.ids b hb).2
  obtain ⟨below, -⟩ := below
  rw [UInt32.toNat_ofNat_of_lt' (by simp only [UInt32.size]; omega),
    UInt32.toNat_ofNat_of_lt' (by simp only [UInt32.size]; omega)] at ids
  omega

/-- Local ids identify stories. -/
theorem WellDated.unique {docLifeTime : Int} {past : List DatedOp} {log : StoryLog}
    (dated : WellDated docLifeTime past log) (ok : Admissible docLifeTime past)
    {b b' : BuiltStory} (hb : b ∈ log.stories) (hb' : b' ∈ log.stories)
    (same : UInt32.ofNat b.localId = UInt32.ofNat b'.localId) : b = b' :=
  List.inj_on_of_nodup_map (dated.nodup_ids ok) hb hb' same

end StoryLog

/-! ## The simulation -/

namespace IndexMachine

variable {W : Type} [Inhabited W]

omit [Inhabited W] in
/-- With one reading for all postings, the new posting of a token is given by its weight. -/
theorem newPosting_const (P : Platform W) (localId : LocalDocID) (keywords : Keywords)
    (time : Int) (k : Int64) :
    newPosting P localId keywords (fun _ => time) k =
      keywords[k]?.map fun weight => ⟨localId, P.floatOfInt32 weight, Int32.ofInt time⟩ := by
  unfold newPosting
  cases found : keywords.toList.zipIdx.find? (fun entry => entry.1.1 = k) with
  | none =>
      have absent := ExtTreeMap.getElem?_eq_none (find?_entry_none.mp found)
      simp [absent]
  | some entry => simp [find?_entry found]

structure Refines (P : Platform W) (m : IndexMachine W) (log : StoryLog) : Prop where
  counter : m.localDocidCounter = UInt32.ofNat (log.stories.length + 1)
  lists : ∀ k, m.seqAt k = if ∃ b ∈ log.stories, k ∈ b.keywords
    then some (.unmarked (log.postings P k)) else none
  att : ∀ localId a, m.att[localId]? = some a ↔ ∃ b ∈ log.stories,
    UInt32.ofNat b.localId = localId ∧ a = ⟨P.cityHash64 b.req.story.storyId⟩ ∧
      (b.keywords = ∅ ∨ log.Survives b)

omit [Inhabited W] in
theorem Refines.posted_iff {P : Platform W} {m : IndexMachine W} {log : StoryLog}
    (refines : Refines P m log) {k : Int64} {p : Posting W} :
    m.Posted k p ↔ ∃ b ∈ log.stories, log.Survives b ∧ b.posting P k = some p := by
  rw [Posted, refines.lists]
  constructor
  · rintro ⟨s, found, inside⟩
    split at found
    · cases found
      simpa [StoryLog.postings, and_assoc] using inside
    · simp at found
  · rintro ⟨b, hb, survives, posting⟩
    have has : k ∈ b.keywords := by
      by_contra absent
      simp [BuiltStory.posting_eq_none.mpr absent] at posting
    rw [if_pos ⟨b, hb, has⟩]
    refine ⟨_, rfl, ?_⟩
    rw [MarkedSeq.contents_unmarked, StoryLog.postings, List.mem_filterMap]
    exact ⟨b, by simp [hb, survives], posting⟩

/-- The clock has passed every cutoff, so a new story survives. -/
theorem Admissible.survives_new {docLifeTime : Int} {past : List DatedOp} {log : StoryLog}
    {b : BuiltStory} (dated : log.WellDated docLifeTime past)
    (ok : Admissible docLifeTime (past ++ [.build b.req b.time])) : log.Survives b := by
  intro c hc
  have behind : c + docLifeTime ≤ b.time := ok.le_time (dated.cutoffs c hc)
  have life := ok.life
  omega

/-- The lists after a build: the new story's posting is in front of the old ones. -/
theorem Refines.seqAt_build {P : Platform W} {docLifeTime time : Int} {m : IndexMachine W}
    {log : StoryLog} {req : StoryAddingRequest} (refines : Refines P m log)
    (survives : log.Survives ⟨log.stories.length + 1, req, time⟩) (k : Int64) :
    (m.addStoryInternal P docLifeTime req fun _ => time).seqAt k =
      if ∃ b ∈ (log.step docLifeTime (.build req time)).stories, k ∈ b.keywords
      then some (.unmarked ((log.step docLifeTime (.build req time)).postings P k)) else none := by
  let new : BuiltStory := ⟨log.stories.length + 1, req, time⟩
  have posting : newPosting P m.localDocidCounter req.story.keywords (fun _ => time) k =
      new.posting P k := by
    rw [newPosting_const, refines.counter]
    rfl
  have postings : (log.step docLifeTime (.build req time)).postings P k =
      (new.posting P k).toList ++ log.postings P k := by
    show ((new :: log.stories).filter log.Survives).filterMap _ = _
    rw [List.filter_cons_of_pos (by simpa using survives), List.filterMap_cons]
    cases new.posting P k <;> rfl
  have some_has : (∃ b ∈ (log.step docLifeTime (.build req time)).stories, k ∈ b.keywords) ↔
      k ∈ new.keywords ∨ ∃ b ∈ log.stories, k ∈ b.keywords := by
    simp [StoryLog.step, new]
  rw [seqAt_addStoryInternal, posting, postings, refines.lists k]
  cases found : new.posting P k with
  | none => simp [some_has, BuiltStory.posting_eq_none.mp found]
  | some p =>
      have has : k ∈ new.keywords := by
        by_contra absent
        simp [BuiltStory.posting_eq_none.mpr absent] at found
      by_cases before : ∃ b ∈ log.stories, k ∈ b.keywords
      · simp [some_has, has, before, MarkedSeq.push]
      · simp [some_has, has, before, MarkedSeq.push, StoryLog.postings_eq_nil P before]

/-- The attachments after a build; the new local id is the id of no old story. -/
theorem Refines.att_build {P : Platform W} {docLifeTime time : Int} {m : IndexMachine W}
    {log : StoryLog} {req : StoryAddingRequest} (refines : Refines P m log)
    (survives : log.Survives ⟨log.stories.length + 1, req, time⟩)
    (new_id : ∀ b ∈ log.stories, UInt32.ofNat b.localId ≠ UInt32.ofNat (log.stories.length + 1))
    (localId : LocalDocID) (a : IndexingAttachment) :
    (m.addStoryInternal P docLifeTime req fun _ => time).att[localId]? = some a ↔
      ∃ b ∈ (log.step docLifeTime (.build req time)).stories,
        UInt32.ofNat b.localId = localId ∧ a = ⟨P.cityHash64 b.req.story.storyId⟩ ∧
          (b.keywords = ∅ ∨ log.Survives b) := by
  obtain ⟨att, -⟩ := addStoryInternal_frame P docLifeTime m req fun _ => time
  have split : (∃ b ∈ (log.step docLifeTime (.build req time)).stories,
        UInt32.ofNat b.localId = localId ∧ a = ⟨P.cityHash64 b.req.story.storyId⟩ ∧
          (b.keywords = ∅ ∨ log.Survives b)) ↔
      UInt32.ofNat (log.stories.length + 1) = localId ∧ a = ⟨P.cityHash64 req.story.storyId⟩ ∨
        m.att[localId]? = some a := by
    rw [refines.att]
    simp only [StoryLog.step, List.mem_cons, exists_eq_or_imp]
    refine or_congr_left ⟨fun h => ⟨h.1, h.2.1⟩, fun h => ⟨h.1, h.2, Or.inr survives⟩⟩
  rw [split, att, ExtTreeMap.getElem?_insert, refines.counter]
  by_cases here : UInt32.ofNat (log.stories.length + 1) = localId
  · have absent : m.att[localId]? ≠ some a := by
      intro found
      obtain ⟨b, hb, same, -⟩ := (refines.att localId a).mp found
      exact new_id b hb (same.trans here.symm)
    simp [here, absent, eq_comm]
  · have other : compare (UInt32.ofNat (log.stories.length + 1)) localId ≠ .eq :=
      fun same => here (Std.LawfulEqCmp.eq_of_compare same)
    rw [if_neg other]
    exact (or_iff_right fun both => here both.1).symm

theorem Refines.build {P : Platform W} {docLifeTime time : Int} {past : List DatedOp}
    {m : IndexMachine W} {log : StoryLog} {req : StoryAddingRequest} (refines : Refines P m log)
    (dated : log.WellDated docLifeTime past)
    (ok : Admissible docLifeTime (past ++ [.build req time])) :
    Refines P (m.addStoryInternal P docLifeTime req fun _ => time)
      (log.step docLifeTime (.build req time)) := by
  have survives : log.Survives ⟨log.stories.length + 1, req, time⟩ :=
    Admissible.survives_new dated ok
  have new_id : ∀ b ∈ log.stories,
      UInt32.ofNat b.localId ≠ UInt32.ofNat (log.stories.length + 1) := by
    intro b hb same
    have after : (log.step docLifeTime (.build req time)).WellDated docLifeTime _ :=
      dated.step ok
    have equal := after.unique ok (List.mem_cons_of_mem _ hb) List.mem_cons_self same
    have old := (dated.ids b hb).2
    rw [equal] at old
    exact absurd old (Nat.not_succ_le_self _)
  obtain ⟨-, counter, -⟩ := addStoryInternal_frame P docLifeTime m req fun _ => time
  refine ⟨?_, refines.seqAt_build survives, refines.att_build survives new_id⟩
  rw [counter, refines.counter]
  simp [StoryLog.step, UInt32.ofNat_add]

omit [Inhabited W] in
/-- The stamp of a story's posting is the time of its build. -/
theorem stamp_eq {P : Platform W} {docLifeTime : Int} {past : List DatedOp} {log : StoryLog}
    (dated : log.WellDated docLifeTime past) (ok : Admissible docLifeTime past) {b : BuiltStory}
    (hb : b ∈ log.stories) {k : Int64} {p : Posting W} (posting : b.posting P k = some p) :
    p.localDocid = UInt32.ofNat b.localId ∧ p.timestamp.toInt = b.time := by
  obtain ⟨weight, -, rfl⟩ := Option.map_eq_some_iff.mp posting
  obtain ⟨op, hop, same⟩ := List.mem_map.mp (dated.times b hb)
  obtain ⟨low, high⟩ := ok.fits op hop
  exact ⟨rfl, Int32.toInt_ofInt_of_le (by omega) (by omega)⟩

omit [Inhabited W] in
theorem youngestFirst_postings {P : Platform W} {docLifeTime : Int} {past : List DatedOp}
    {log : StoryLog} (dated : log.WellDated docLifeTime past) (ok : Admissible docLifeTime past)
    (k : Int64) : YoungestFirst (.unmarked (log.postings P k)) := by
  rw [YoungestFirst, MarkedSeq.contents_unmarked, StoryLog.postings, List.pairwise_filterMap]
  apply (dated.descending.sublist List.filter_sublist).imp_of_mem
  intro a b ha hb below p hp q hq
  rw [(stamp_eq dated ok (List.mem_of_mem_filter ha) hp).2,
    (stamp_eq dated ok (List.mem_of_mem_filter hb) hq).2]
  exact below.2

omit [Inhabited W] in
/-- A story that survives a pass survived all passes before it. -/
theorem survives_pass_iff {docLifeTime now : Int} {past : List DatedOp} {log : StoryLog}
    (dated : log.WellDated docLifeTime past)
    (ok : Admissible docLifeTime (past ++ [.pass now])) (b : BuiltStory) :
    (log.step docLifeTime (.pass now)).Survives b ↔
      log.Survives b ∧ now - docLifeTime ≤ b.time := by
  constructor
  · intro survives
    have young : now - docLifeTime ≤ b.time := survives _ rfl
    refine ⟨?_, young⟩
    intro c hc
    have behind : c + docLifeTime ≤ now := ok.le_time (dated.cutoffs c hc)
    omega
  · rintro ⟨-, young⟩ c hc
    simp only [StoryLog.step, Option.mem_def, Option.some.injEq] at hc
    omega

omit [Inhabited W] in
/-- The cut of a pass, in the log: the younger cutoff replaces the older one. -/
theorem takeWhile_postings {P : Platform W} {docLifeTime now : Int} {past : List DatedOp}
    {log : StoryLog} (dated : log.WellDated docLifeTime past)
    (ok : Admissible docLifeTime (past ++ [.pass now])) (k : Int64) :
    (log.postings P k).takeWhile (PostingList.staysAt (now - docLifeTime)) =
      (log.step docLifeTime (.pass now)).postings P k := by
  have before := ok.of_prefix (List.prefix_append past [.pass now])
  have sorted := (youngestFirst_postings (P := P) dated before k).pairwise_staysAt
    (now - docLifeTime)
  rw [MarkedSeq.contents_unmarked] at sorted
  rw [takeWhile_eq_filter_of_pairwise sorted, StoryLog.postings, StoryLog.postings,
    List.filterMap_filter, List.filterMap_filter, List.filter_filterMap]
  apply List.filterMap_congr
  intro b hb
  simp only [survives_pass_iff dated ok, decide_eq_true_eq]
  by_cases survives : log.Survives b
  · cases posting : b.posting P k with
    | none => simp
    | some p =>
        rw [if_pos survives, Option.filter_some, PostingList.staysAt,
          (stamp_eq dated before hb posting).2]
        simp [survives]
  · simp [survives]

theorem Refines.pass {P : Platform W} {docLifeTime now : Int} {past : List DatedOp}
    {m : IndexMachine W} {log : StoryLog} (refines : Refines P m log)
    (dated : log.WellDated docLifeTime past)
    (ok : Admissible docLifeTime (past ++ [.pass now])) :
    Refines P (m.cleanPass P docLifeTime now) (log.step docLifeTime (.pass now)) := by
  have before := ok.of_prefix (List.prefix_append past [.pass now])
  have sorted : ∀ k s, m.seqAt k = some s → YoungestFirst s := by
    intro k s found
    rw [refines.lists] at found
    split at found
    · cases found
      exact youngestFirst_postings dated before k
    · simp at found
  refine ⟨?_, ?_, ?_⟩
  · rw [(cleanPass_frame P docLifeTime m now).1, refines.counter]
    rfl
  · intro k
    rw [seqAt_cleanPass, refines.lists, ← takeWhile_postings dated ok]
    by_cases has : ∃ b ∈ log.stories, k ∈ b.keywords <;> simp [StoryLog.step, has]
  · intro localId a
    rw [att_cleanPass, refines.att, losesPosting_iff sorted]
    simp only [refines.posted_iff, survives_pass_iff dated ok]
    -- The attachment goes with the postings: one document, one id.
    constructor
    · rintro ⟨⟨b, hb, same, rfl, kept⟩, notLost⟩
      refine ⟨b, hb, same, rfl, ?_⟩
      by_cases empty : b.keywords = ∅
      · exact Or.inl empty
      · have survives := kept.resolve_left empty
        refine Or.inr ⟨survives, ?_⟩
        by_contra old
        obtain ⟨k, has⟩ : ∃ k, k ∈ b.keywords := by
          by_contra none
          exact empty (ExtTreeMap.eq_empty_iff_forall_not_mem.mpr fun k has => none ⟨k, has⟩)
        obtain ⟨p, posting⟩ : ∃ p, b.posting P k = some p := by
          rw [← Option.isSome_iff_exists, Option.isSome_iff_ne_none, ne_eq,
            BuiltStory.posting_eq_none, not_not]
          exact has
        obtain ⟨id, stamp⟩ := stamp_eq dated before hb posting
        exact notLost ⟨k, p, ⟨b, hb, survives, posting⟩, id.trans same, by omega⟩
    · rintro ⟨b, hb, same, rfl, kept⟩
      refine ⟨⟨b, hb, same, rfl, kept.imp_right And.left⟩, ?_⟩
      rintro ⟨k, p, ⟨b', hb', -, posting⟩, id, old⟩
      obtain ⟨id', stamp⟩ := stamp_eq dated before hb' posting
      obtain rfl := dated.unique before hb hb' (same.trans (id.symm.trans id'))
      rcases kept with empty | ⟨-, young⟩
      · have absent := ExtTreeMap.eq_empty_iff_forall_not_mem.mp empty k
        simp [BuiltStory.posting_eq_none.mpr absent] at posting
      · omega

/-- **The index refines the log of dated stories along every run.** -/
theorem refines_run (P : Platform W) {docLifeTime : Int} {ops : List DatedOp}
    (ok : Admissible docLifeTime ops) :
    Refines P (run (perform P docLifeTime) {} (ops.map DatedOp.toOp))
      (run (StoryLog.step docLifeTime) {} ops) := by
  induction ops using List.reverseRecOn with
  | nil => exact ⟨rfl, by simp [seqAt], by simp⟩
  | append_singleton past op ih =>
      have inside := List.prefix_append past [op]
      have dated := StoryLog.wellDated_run ok past inside
      have refines := ih (ok.of_prefix inside)
      rw [List.map_append, List.map_singleton, run_snoc, run_snoc]
      cases op with
      | build req time => exact refines.build dated ok
      | pass now => exact refines.pass dated ok

/-- **Sequential correctness of the inverted index.**  After any admissible run
a token has a list exactly if a built story had it; the read loop over the list
yields the postings of the surviving stories, newest first; and the attachments
are those of the surviving stories and of the stories without keywords. -/
theorem index_refines_storyLog (P : Platform W) (docLifeTime : Int) (ops : List DatedOp)
    (ok : Admissible docLifeTime ops) :
    let m := run (perform P docLifeTime) {} (ops.map DatedOp.toOp)
    let log := run (StoryLog.step docLifeTime) {} ops
    (∀ k, m.getPostingList k = none ↔ ∀ b ∈ log.stories, k ∉ b.keywords) ∧
      (∀ k pl it, m.getPostingList k = some (pl, it) →
        ∃ enough, ∀ rounds, enough ≤ rounds →
          PostingIteratorImpl.drain pl rounds it = .ok (log.postings P k)) ∧
      (∀ localId a, m.att[localId]? = some a ↔ ∃ b ∈ log.stories,
        UInt32.ofNat b.localId = localId ∧ a = ⟨P.cityHash64 b.req.story.storyId⟩ ∧
          (b.keywords = ∅ ∨ log.Survives b)) ∧
      (log.stories.map fun b => UInt32.ofNat b.localId).Nodup := by
  intro m log
  have refines : Refines P m log := refines_run P ok
  have dated := StoryLog.wellDated_run ok ops (List.prefix_refl ops)
  refine ⟨?_, ?_, refines.att, dated.nodup_ids ok⟩
  · intro k
    have list := refines.lists k
    rw [InstantIndex.getPostingList, Option.map_eq_none_iff,
      ← Option.map_eq_none_iff (f := ValidPostingList.abs)]
    show m.seqAt k = none ↔ _
    rw [list]
    simp
  · intro k pl it found
    obtain ⟨valid, here, same⟩ := Option.map_eq_some_iff.mp found
    cases same
    refine ⟨valid.1.nodes.length + 1, ?_⟩
    intro rounds enough
    rw [PostingIteratorImpl.drain_eq valid.2 enough]
    have list := refines.lists k
    rw [seqAt, here, Option.map_some] at list
    split at list
    · rw [Option.some.injEq] at list
      show Except.ok (ValidPostingList.abs valid).visible = _
      rw [list]
      rfl
    · simp at list

end IndexMachine

/-! ## Three stories and two passes -/

namespace ThreeStories

def platform : Platform Int32 := ⟨fun s => s.length.toInt64, id⟩

def request (id : String) (keywords : List (Int64 × Int32)) : StoryAddingRequest :=
  ⟨⟨id, 0, "", "", .ofList keywords⟩⟩

/-- The first story expires in the second pass, the last one has no keywords. -/
def ops : List DatedOp :=
  [.build (request "a" [(1, 3), (2, 4)]) 10, .build (request "bb" [(2, 5)]) 12, .pass 15,
    .build (request "ccc" []) 16, .build (request "dddd" [(2, 6)]) 16, .pass 22]

theorem ops_refines :
    let m := run (IndexMachine.perform platform 10) {} (ops.map DatedOp.toOp)
    (∃ pl it, m.getPostingList 2 = some (pl, it) ∧ ∃ enough, ∀ rounds, enough ≤ rounds →
      PostingIteratorImpl.drain pl rounds it = .ok [⟨4, 6, 16⟩, ⟨2, 5, 12⟩]) ∧
      m.getPostingList 7 = none := by
  have ok : Admissible 10 ops := ⟨by decide, by decide, by decide, by decide⟩
  obtain ⟨absent, drained, -⟩ := IndexMachine.index_refines_storyLog platform 10 ops ok
  have postings : (run (StoryLog.step 10) {} ops).postings platform 2 =
      [⟨4, 6, 16⟩, ⟨2, 5, 12⟩] := by decide
  refine ⟨?_, (absent 7).mpr (by decide)⟩
  rcases found : (run (IndexMachine.perform platform 10) {}
      (ops.map DatedOp.toOp)).getPostingList 2 with _ | ⟨pl, it⟩
  · exact absurd ((absent 2).mp found) (by decide)
  · exact ⟨pl, it, rfl, postings ▸ drained 2 pl it found⟩

end ThreeStories

end RecommEngine.Indexing
