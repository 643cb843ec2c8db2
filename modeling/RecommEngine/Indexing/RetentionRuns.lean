/-
# Indexing.RetentionRuns -- the replay log over runs of its writer and cleaner

Runs of `ReplayLogWriterThread::Write` and `CleanOldStoryThread::CleanReplayLog`
over one log directory, by one writer after the other, at any times of the
clock's range and not necessarily in order.  `Named` is the invariant: every file
carries the name of a window that ends no earlier than any of its records.

`log_retention` draws the consequences: a pass removes exactly the files whose
window has ended before its cutoff, and so never a record that no cutoff has
reached.  The last part compares the records on disk with the records written as
collections, repetitions included.
-/
import RecommEngine.Theory.Run
import RecommEngine.Indexing.Recovery

namespace RecommEngine.Indexing

set_option autoImplicit false

open Theory.Run Util Idl

/-- The writer's window and the files in the log directory. -/
structure LogState where
  window : Window
  files : List LogFile

inductive LogOp where
  /-- A new `ReplayLogWriterThread` on the directory of the last one. -/
  | start (now : Int)
  | write (req : StoryAddingRequest) (now : Int)
  | clean (now : Int)

namespace LogState

variable (S : LogSettings)

/-- A writer started at `start` in an empty directory. -/
def init (now : Int) : LogState :=
  ⟨S.openWindow (UInt32.ofInt now), []⟩

def step (s : LogState) : LogOp → LogState
  | .start now => { s with window := S.openWindow (UInt32.ofInt now) }
  | .write req now =>
      let (window, files) := S.write s.window s.files req now
      ⟨window, files⟩
  | .clean now => { s with files := S.cleanReplayLog s.files now }

/-- Times are in the range of the clock, and a pass is made after a life time. -/
def InTime : LogOp → Prop
  | .start now => 0 ≤ now ∧ now < 2 ^ 31
  | .write _ now => 0 ≤ now ∧ now < 2 ^ 31
  | .clean now => S.docLifeTime ≤ now ∧ now < 2 ^ 31

/-- The records that the writes of a run have made, in order. -/
def written (ops : List LogOp) : List LogEntry :=
  ops.filterMap fun op =>
    match op with
    | .write req now => some ⟨UInt32.ofInt now, req⟩
    | _ => none

/-- The records in the directory. -/
def records (s : LogState) : List LogEntry :=
  s.files.flatMap LogFile.entries

/-- The records that are not older than `cutoff`. -/
def notBefore (cutoff : Int) (entries : List LogEntry) : List LogEntry :=
  entries.filter fun e => cutoff ≤ e.now.toNat

/-- Every file is named after a window that none of its records has outlived. -/
def Named (s : LogState) : Prop :=
  ∀ f ∈ s.files, ∃ w, f.path = S.filePath w ∧ ∀ e ∈ f.entries, e.now ≤ w.timeEnd

/-- What no pass of the run has reached is on disk, as often as it was written. -/
def Retained (past : List LogOp) (s : LogState) : Prop :=
  ∀ cutoff, (∀ now, .clean now ∈ past → now - S.docLifeTime ≤ cutoff) →
    (notBefore cutoff s.records).Perm (notBefore cutoff (written past))

/-! ## One step -/

/-- A record that is appended is one more record, wherever its file stands. -/
theorem entries_appendEntry (path : List Char) (e : LogEntry) (files : List LogFile) :
    ((appendEntry path e files).flatMap LogFile.entries).Perm
      (files.flatMap LogFile.entries ++ [e]) := by
  induction files with
  | nil => simp [appendEntry]
  | cons f files ih =>
      rw [appendEntry]
      split
      · simp only [List.flatMap_cons, List.append_assoc]
        exact List.Perm.append_left _ List.perm_append_comm
      · simp only [List.flatMap_cons, List.append_assoc]
        exact ih.append_left _

/-- Files without a record from `cutoff` on can go. -/
theorem notBefore_filter {cutoff : Int} {keep : LogFile → Bool} {files : List LogFile}
    (removed : ∀ f ∈ files, keep f = false → notBefore cutoff f.entries = []) :
    notBefore cutoff ((files.filter keep).flatMap LogFile.entries) =
      notBefore cutoff (files.flatMap LogFile.entries) := by
  induction files with
  | nil => rfl
  | cons f files ih =>
      have rest := ih fun g inside => removed g (List.mem_cons_of_mem _ inside)
      simp only [notBefore] at removed rest ⊢
      rw [List.filter_cons]
      split
      · simp only [List.flatMap_cons, List.filter_append, rest]
      · rename_i gone
        rw [List.flatMap_cons, List.filter_append,
          removed f (by simp) (Bool.eq_false_iff.mpr gone), List.nil_append, rest]

theorem written_append (past past' : List LogOp) :
    written (past ++ past') = written past ++ written past' :=
  List.filterMap_append

variable {S}

theorem Named.write {s : LogState} {req : StoryAddingRequest} {now : Int} (named : Named S s)
    (inTime : InTime S (.write req now)) : Named S (step S s (.write req now)) := by
  obtain ⟨nonneg, small⟩ := inTime
  have covers : UInt32.ofInt now ≤ (S.advance s.window (UInt32.ofInt now)).timeEnd := by
    have here := LogSettings.toNat_ofInt nonneg (by omega)
    have := S.window_covers nonneg small s.window
    rw [UInt32.le_iff_toNat_le]
    omega
  intro f inside
  rcases mem_appendEntry inside with old | rfl | ⟨g, old, path, rfl⟩
  · exact named f old
  · refine ⟨_, rfl, ?_⟩
    intro e mem
    rw [List.mem_singleton.mp mem]
    exact covers
  · -- the window of the file's name ends when the current window ends
    obtain ⟨w, named', fresh⟩ := named g old
    have ends := S.timeEnd_of_filePath_eq (path.symm.trans named')
    refine ⟨_, rfl, ?_⟩
    intro e mem
    rcases List.mem_append.mp mem with earlier | new
    · rw [ends]
      exact fresh e earlier
    · rw [List.mem_singleton.mp new]
      exact covers

/-- A pass keeps the files whose window has not ended before its cutoff. -/
theorem mem_clean {s : LogState} {now : Int} (named : Named S s) (inTime : InTime S (.clean now))
    (f : LogFile) :
    f ∈ (step S s (.clean now)).files ↔ f ∈ s.files ∧
      ¬ ∃ w, f.path = S.filePath w ∧ (w.timeEnd.toNat : Int) < now - S.docLifeTime := by
  obtain ⟨late, small⟩ := inTime
  show f ∈ S.cleanReplayLog s.files now ↔ _
  constructor
  · intro kept
    refine ⟨List.mem_of_mem_filter kept, ?_⟩
    rintro ⟨w, path, before⟩
    have := ((S.mem_cleanReplayLog late small path).mp kept).2
    omega
  · rintro ⟨inside, spared⟩
    obtain ⟨w, path, -⟩ := named f inside
    refine (S.mem_cleanReplayLog late small path).mpr ⟨inside, ?_⟩
    by_contra before
    exact spared ⟨w, path, by omega⟩

theorem Named.clean {s : LogState} {now : Int} (named : Named S s) :
    Named S (step S s (.clean now)) :=
  fun f inside => named f (List.mem_of_mem_filter inside)

/-- A pass with a cutoff up to `cutoff` removes only records before `cutoff`. -/
theorem notBefore_clean {s : LogState} {now cutoff : Int} (named : Named S s)
    (inTime : InTime S (.clean now)) (earlier : now - S.docLifeTime ≤ cutoff) :
    notBefore cutoff (step S s (.clean now)).records = notBefore cutoff s.records := by
  have removed : ∀ f ∈ s.files, f ∉ (step S s (.clean now)).files →
      notBefore cutoff f.entries = [] := by
    intro f inside gone
    rw [mem_clean named inTime, not_and_not_right] at gone
    obtain ⟨w, path, before⟩ := gone inside
    obtain ⟨w', path', fresh⟩ := named f inside
    have ends := S.timeEnd_of_filePath_eq (path.symm.trans path')
    rw [notBefore, List.filter_eq_nil_iff]
    intro e mem
    have := UInt32.le_iff_toNat_le.mp (fresh e mem)
    rw [← ends] at this
    simp only [decide_eq_true_eq, not_le]
    omega
  apply notBefore_filter
  intro f inside gone
  refine removed f inside fun still => ?_
  simp [(List.mem_filter.mp still).2] at gone

theorem Named.step {s : LogState} {op : LogOp} (named : Named S s) (inTime : InTime S op) :
    Named S (step S s op) := by
  cases op with
  | start now => exact named
  | write req now => exact named.write inTime
  | clean now => exact named.clean

/-! ## Whole runs -/

theorem Retained.step {past : List LogOp} {s : LogState} {op : LogOp} (named : Named S s)
    (inTime : InTime S op) (retained : Retained S past s) :
    Retained S (past ++ [op]) (step S s op) := by
  intro cutoff spared
  have before := retained cutoff fun now inside => spared now (List.mem_append_left _ inside)
  cases op with
  | start now =>
      show (notBefore cutoff s.records).Perm _
      rw [written_append]
      simpa [written] using before
  | write req now =>
      rw [written_append, notBefore, notBefore, List.filter_append]
      refine ((entries_appendEntry _ _ _).filter _).trans ?_
      rw [List.filter_append]
      exact before.append_right _
  | clean now =>
      rw [notBefore_clean named inTime (spared now (by simp)), written_append]
      simpa [written] using before

/-- **Retention of the replay log.**  In every run: the name of a file carries an
end that none of its records is later than; a pass removes exactly the files
whose end is before its cutoff; and the records that are not before the cutoff
of any pass so far are on disk, as many times as they were written.  (`LogSettings`
has the conditions on the flags: `shortDir`, `intervalRange`, `lifeRange`.) -/
theorem log_retention (S : LogSettings) (start : Int) (ops : List LogOp)
    (inTime : ∀ op ∈ ops, InTime S op) :
    ∀ past, past <+: ops →
      let s := run (LogState.step S) (init S start) past
      (∀ f ∈ s.files, ∃ w, f.path = S.filePath w ∧ ∀ e ∈ f.entries, e.now ≤ w.timeEnd) ∧
      (∀ now, past ++ [.clean now] <+: ops → ∀ f,
        f ∈ (run (LogState.step S) (init S start) (past ++ [.clean now])).files ↔
          f ∈ s.files ∧
            ¬ ∃ w, f.path = S.filePath w ∧ (w.timeEnd.toNat : Int) < now - S.docLifeTime) ∧
      ∀ cutoff, (∀ now, .clean now ∈ past → now - S.docLifeTime ≤ cutoff) →
        (notBefore cutoff s.records).Perm (notBefore cutoff (written past)) := by
  have within : ∀ pre op, pre ++ [op] <+: ops → InTime S op := fun pre op inside =>
    inTime op (inside.subset (by simp))
  have invariant : ∀ past, past <+: ops →
      Named S (run (LogState.step S) (init S start) past) ∧
        Retained S past (run (LogState.step S) (init S start) past) := by
    refine run_history (I := fun past s => Named S s ∧ Retained S past s)
      ⟨by simp [Named, init], fun cutoff _ => .refl _⟩ ?_
    intro pre op inside before
    exact ⟨before.1.step (within pre op inside), before.2.step before.1 (within pre op inside)⟩
  intro past inside
  obtain ⟨named, retained⟩ := invariant past inside
  refine ⟨named, ?_, retained⟩
  intro now inside' f
  rw [run_snoc]
  exact mem_clean named (within past _ inside') f

end LogState

/-! ## A pass between two writes -/

namespace OnePass

open TwoRestarts

/-- Logged into the file that ends at 105; the pass at 116 has cutoff 106. -/
def ops : List LogOp := [.write request 100, .clean 116, .write request 108]

theorem later_record_retained :
    (∀ op ∈ ops, LogState.InTime settings op) ∧
      (LogState.notBefore 106
          (run (LogState.step settings) (LogState.init settings 100) ops).records).Perm
        [⟨108, request⟩] := by
  have inTime : ∀ op ∈ ops, LogState.InTime settings op := by
    simp [ops, LogState.InTime, settings]
  refine ⟨inTime, ?_⟩
  refine (LogState.log_retention settings 100 ops inTime ops (List.prefix_refl _)).2.2 106 ?_
  simp [ops, settings]

end OnePass

end RecommEngine.Indexing
