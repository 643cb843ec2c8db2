/-
# Indexing.LogRetention -- the files of the replay log

`ReplayLogWriterThread` appends the stories of a time window to one file named
after the window, `BEGIN_END_replay.log`, and opens a new window when the clock
has passed the end of the current one.  `CleanReplayLog` reads the end of the
window back out of each file name and removes the files that end before the
check point, comparing local times as strings.

All times are unsigned 32-bit seconds, as in the source.  `outdated_filePath`
turns the comparison of strings into one of seconds; `window_covers` says that
a story is written into a window that has not ended.

A file is kept as the list of its entries; `ReplayLog` is about their bytes.
-/
import RecommEngine.Util.Timer
import RecommEngine.Indexing.ReplayLog

namespace RecommEngine.Indexing

set_option autoImplicit false

open Util Idl

structure LogFile where
  path : List Char
  entries : List LogEntry

/-- The flags the log depends on, within their types, and what the platform
gives: the local time and the order in which a directory lists its files. -/
structure LogSettings where
  zone : TimeZone
  replayLogDir : List Char
  cleanDocInterval : Int
  docLifeTime : Int
  directoryOrder : List LogFile → List LogFile
  /-- A file path fits the buffer of `StringAppendF`. -/
  shortDir : replayLogDir.length + 41 < strBufSize
  intervalRange : 0 ≤ cleanDocInterval ∧ cleanDocInterval < 2 ^ 31
  lifeRange : 0 ≤ docLifeTime ∧ docLifeTime < 2 ^ 31
  listsAll : ∀ files, (directoryOrder files).Perm files

/-- The current time bucket of `ReplayLogWriterThread`. -/
structure Window where
  timeBegin : UInt32
  timeEnd : UInt32
  deriving DecidableEq

namespace LogSettings

variable (S : LogSettings)

/-! ## Writing -/

/-- The window that starts at `now`, as in the constructor and in `Write`. -/
def openWindow (now : UInt32) : Window :=
  ⟨now, now + UInt32.ofInt S.cleanDocInterval⟩

/-- The first lines of `Write`: a window that has passed is replaced. -/
def advance (w : Window) (now : UInt32) : Window :=
  if now > w.timeEnd then S.openWindow now else w

def filePath (w : Window) : List Char :=
  stringAppendF []
    (S.replayLogDir ++ '/' :: (Timer.localTimeStrHMS S.zone w.timeBegin.toNat ++
      '_' :: (Timer.localTimeStrHMS S.zone w.timeEnd.toNat ++ "_replay.log".toList)))

end LogSettings

/-- Appending to the file at `path`, which is created if there is none. -/
def appendEntry (path : List Char) (e : LogEntry) : List LogFile → List LogFile
  | [] => [⟨path, [e]⟩]
  | f :: files =>
      if f.path = path then ⟨path, f.entries ++ [e]⟩ :: files else f :: appendEntry path e files

theorem exists_appendEntry (path : List Char) (e : LogEntry) (files : List LogFile) :
    ∃ f ∈ appendEntry path e files, f.path = path ∧ e ∈ f.entries := by
  induction files with
  | nil => exact ⟨⟨path, [e]⟩, by simp [appendEntry], rfl, by simp⟩
  | cons f files ih =>
      rw [appendEntry]
      split
      · exact ⟨⟨path, f.entries ++ [e]⟩, by simp, rfl, by simp⟩
      · obtain ⟨f', inside, there⟩ := ih
        exact ⟨f', List.mem_cons_of_mem _ inside, there⟩

/-- What was in a file stays in the file of that path. -/
theorem appendEntry_keeps {path : List Char} {e : LogEntry} {files : List LogFile} {f : LogFile}
    (inside : f ∈ files) :
    ∃ f' ∈ appendEntry path e files, f'.path = f.path ∧ f.entries ⊆ f'.entries := by
  induction files with
  | nil => simp at inside
  | cons g files ih =>
      rw [appendEntry]
      split
      · rename_i here
        rcases List.mem_cons.mp inside with rfl | later
        · exact ⟨⟨path, f.entries ++ [e]⟩, by simp, here.symm, by simp⟩
        · exact ⟨f, List.mem_cons_of_mem _ later, rfl, List.Subset.refl _⟩
      · rcases List.mem_cons.mp inside with rfl | later
        · exact ⟨f, by simp, rfl, List.Subset.refl _⟩
        · obtain ⟨f', inside', there⟩ := ih later
          exact ⟨f', List.mem_cons_of_mem _ inside', there⟩

/-- The file of a record after an append: an old one, or the one appended to. -/
theorem mem_appendEntry {path : List Char} {e : LogEntry} {files : List LogFile} {f : LogFile}
    (inside : f ∈ appendEntry path e files) :
    f ∈ files ∨ f = ⟨path, [e]⟩ ∨ ∃ g ∈ files, g.path = path ∧ f = ⟨path, g.entries ++ [e]⟩ := by
  induction files with
  | nil => exact Or.inr (Or.inl (List.mem_singleton.mp inside))
  | cons g files ih =>
      rw [appendEntry] at inside
      split at inside
      · rename_i here
        rcases List.mem_cons.mp inside with rfl | later
        · exact Or.inr (Or.inr ⟨g, by simp, here, rfl⟩)
        · exact Or.inl (List.mem_cons_of_mem _ later)
      · rcases List.mem_cons.mp inside with rfl | later
        · exact Or.inl (by simp)
        · rcases ih later with old | new | ⟨h, inside', same⟩
          · exact Or.inl (List.mem_cons_of_mem _ old)
          · exact Or.inr (Or.inl new)
          · exact Or.inr (Or.inr ⟨h, List.mem_cons_of_mem _ inside', same⟩)

theorem path_appendEntry {path : List Char} {e : LogEntry} {files : List LogFile} {f : LogFile}
    (inside : f ∈ appendEntry path e files) : f.path = path ∨ ∃ g ∈ files, g.path = f.path := by
  rcases mem_appendEntry inside with old | rfl | ⟨g, -, -, rfl⟩
  · exact Or.inr ⟨f, old, rfl⟩
  · exact Or.inl rfl
  · exact Or.inl rfl

namespace LogSettings

variable (S : LogSettings)

/-- `ReplayLogWriterThread::Write`. -/
def write (w : Window) (files : List LogFile) (req : StoryAddingRequest) (now : Int) :
    Window × List LogFile :=
  let w' := S.advance w (UInt32.ofInt now)
  (w', appendEntry (S.filePath w') ⟨UInt32.ofInt now, req⟩ files)

/-! ## Cleaning -/

/-- Whether a file ends before the check point.  A name without two segments is
only reported. -/
def outdated (checkPoint : UInt32) (path : List Char) : Bool :=
  match (splitString path '/' []).getLast? with
  | none => false
  | some fname =>
      match splitString fname '_' [] with
      | _ :: timeEnd :: _ => Timer.localTimeStrHMS S.zone checkPoint.toNat > timeEnd
      | _ => false

/-- `CleanOldStoryThread::CleanReplayLog`. -/
def cleanReplayLog (files : List LogFile) (now : Int) : List LogFile :=
  files.filter fun f => !S.outdated (UInt32.ofInt (now - S.docLifeTime)) f.path

/-! ## Windows and their names -/

theorem toNat_ofInt {n : Int} (nonneg : 0 ≤ n) (small : n < 2 ^ 32) :
    ((UInt32.ofInt n).toNat : Int) = n := by
  rw [UInt32.ofInt, UInt32.toNat_ofNat', Int.emod_eq_of_lt nonneg small]
  omega

/-- A story is written into a window that has not ended. -/
theorem window_covers {now : Int} (nonneg : 0 ≤ now) (small : now < 2 ^ 31) (w : Window) :
    now ≤ (S.advance w (UInt32.ofInt now)).timeEnd.toNat := by
  have here := toNat_ofInt nonneg (by omega)
  rw [advance]
  split
  · have length := toNat_ofInt S.intervalRange.1 (by have := S.intervalRange.2; omega)
    have noWrap := S.intervalRange.2
    rw [openWindow, UInt32.toNat_add, Nat.mod_eq_of_lt (by omega)]
    omega
  · rename_i current
    have := UInt32.le_iff_toNat_le.mp (UInt32.not_lt.mp current)
    omega

/-- What is read back from a file name: the file is removed iff its window
ended before the check point. -/
theorem outdated_filePath (w : Window) (checkPoint : UInt32) :
    S.outdated checkPoint (S.filePath w) = decide (w.timeEnd < checkPoint) := by
  have small : ∀ t : UInt32, t.toNat < 2 ^ 32 := UInt32.toNat_lt
  let base := Timer.localTimeStrHMS S.zone w.timeBegin.toNat ++
    '_' :: (Timer.localTimeStrHMS S.zone w.timeEnd.toNat ++ "_replay.log".toList)
  have path : S.filePath w = S.replayLogDir ++ '/' :: base := by
    rw [filePath, stringAppendF, List.nil_append, List.take_of_length_le]
    have := S.shortDir
    simp only [List.length_append, List.length_cons, Timer.length_localTimeStrHMS S.zone (small _)]
    simp only [strBufSize] at this ⊢
    simp
    omega
  have noSlash : '/' ∉ base := by
    simp only [base, List.mem_append, List.mem_cons,
      Timer.notMem_localTimeStrHMS S.zone (small _) (show '/'.isDigit = false from rfl)]
    decide
  have name : (splitString (S.replayLogDir ++ '/' :: base) '/' []).getLast? = some base := by
    rw [splitString, if_neg (by simp), List.nil_append, getLast?_splitLoop noSlash (by simp [base])]
  have noSep : ∀ t : UInt32, '_' ∉ Timer.localTimeStrHMS S.zone t.toNat := fun t =>
    Timer.notMem_localTimeStrHMS S.zone (small t) rfl
  have filled : ∀ t : UInt32, Timer.localTimeStrHMS S.zone t.toNat ≠ [] := by
    intro t empty
    have := Timer.length_localTimeStrHMS S.zone (small t)
    simp [empty] at this
  have segments : splitString base '_' [] =
      Timer.localTimeStrHMS S.zone w.timeBegin.toNat ::
        Timer.localTimeStrHMS S.zone w.timeEnd.toNat :: splitLoop '_' "replay.log".toList := by
    rw [splitString, if_neg (by simp [base]), List.nil_append, splitLoop_append (noSep _),
      if_neg (filled _), show "_replay.log".toList = '_' :: "replay.log".toList from rfl,
      splitLoop_append (noSep _), if_neg (filled _)]
    rfl
  rw [outdated, path, name]
  simp only [segments, gt_iff_lt, Timer.localTimeStrHMS_lt_iff S.zone (small _) (small _),
    UInt32.lt_iff_toNat_lt]

/-- A pass keeps a file of a window exactly if the window reaches its cutoff. -/
theorem mem_cleanReplayLog {now : Int} (late : S.docLifeTime ≤ now) (small : now < 2 ^ 31)
    {files : List LogFile} {f : LogFile} {w : Window} (path : f.path = S.filePath w) :
    f ∈ S.cleanReplayLog files now ↔ f ∈ files ∧ now - S.docLifeTime ≤ w.timeEnd.toNat := by
  have cutoff := toNat_ofInt (show 0 ≤ now - S.docLifeTime by omega)
    (by have := S.lifeRange.1; omega)
  have kept : (!S.outdated (UInt32.ofInt (now - S.docLifeTime)) f.path) = true ↔
      now - S.docLifeTime ≤ w.timeEnd.toNat := by
    rw [path, S.outdated_filePath, Bool.not_eq_true', decide_eq_false_iff_not,
      UInt32.lt_iff_toNat_lt]
    omega
  rw [cleanReplayLog, List.mem_filter, kept]

/-- The end of its window can be read from the path of a file. -/
theorem timeEnd_of_filePath_eq {w w' : Window} (same : S.filePath w = S.filePath w') :
    w.timeEnd = w'.timeEnd := by
  have agree : ∀ t, w.timeEnd < t ↔ w'.timeEnd < t := by
    intro t
    rw [← decide_eq_decide, ← S.outdated_filePath, ← S.outdated_filePath, same]
  refine UInt32.le_antisymm (UInt32.not_lt.mp ?_) (UInt32.not_lt.mp ?_)
  · intro less
    exact UInt32.lt_irrefl _ ((agree _).mpr less)
  · intro less
    exact UInt32.lt_irrefl _ ((agree _).mp less)

end LogSettings

end RecommEngine.Indexing
