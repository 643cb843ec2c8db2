/-
# Indexing.Cutoffs -- two computations of one cutoff

A pass of the cleaner at `now` computes `now - doc_life_time` twice: in the mark
loop as an `int64_t` that is compared with the `int32_t` stamp of a posting, and
in `CleanReplayLog` as an `unsigned int` that is compared with the end of a
file's window.  Over the integers both ask whether a time lies before the
cutoff.

* The stamp of a posting is the time it was built at, until 2^31
  (`toInt_stamp`, `unlinked_mark_iff`).
* The check point is the cutoff, unless the life time reaches back before 1970:
  then it wraps around to a point in the future (`toNat_checkPoint`,
  `file_removed_iff`).

`cutoffs_agree_iff` puts the two together: for which times and clocks posting
and file are both treated by the integer cutoff.
-/
import RecommEngine.Indexing.Recovery

namespace RecommEngine.Indexing

set_option autoImplicit false

open Util Theory Idl

/-! ## The mark loop -/

section Marking

variable {W : Type} {pl : ValidPostingList W} {front rest : List (Posting W)} {p : Posting W}
  {targetTime : Int}

/-- The loop that has come to a posting leaves it behind the mark, together with
all older ones, exactly if the posting fails the comparison. -/
theorem unlinked_mark_iff (listed : pl.postings = front ++ p :: rest)
    (newer : ∀ q ∈ front, PostingList.staysAt targetTime q) :
    (pl.mark targetTime).unlinked = p :: rest ↔ p.timestamp.toInt < targetTime := by
  have walked : (pl.mark targetTime).unlinked =
      (p :: rest).dropWhile (PostingList.staysAt targetTime) := by
    rw [ValidPostingList.unlinked_eq, ValidPostingList.abs_mark, MarkedSeq.hidden_mark]
    show pl.postings.dropWhile _ = _
    rw [listed, List.dropWhile_append_of_pos newer]
  rw [walked]
  by_cases stays : targetTime ≤ p.timestamp.toInt
  · have passed : (p :: rest).dropWhile (PostingList.staysAt targetTime) =
        rest.dropWhile (PostingList.staysAt targetTime) := by
      rw [List.dropWhile_cons_of_pos (by simpa [PostingList.staysAt] using stays)]
    refine iff_of_false ?_ (by omega)
    intro whole
    have shorter : (rest.dropWhile (PostingList.staysAt targetTime)).length ≤ rest.length :=
      (List.dropWhile_suffix _).length_le
    rw [← passed, whole, List.length_cons] at shorter
    omega
  · refine iff_of_true (List.dropWhile_cons_of_neg ?_) (by omega)
    simpa [PostingList.staysAt] using stays

end Marking

/-- A time as the `int32_t` stamp of a posting. -/
theorem toInt_stamp {t : Int} (nonneg : 0 ≤ t) (small : t < 2 ^ 32) :
    (Int32.ofInt t).toInt = if t < 2 ^ 31 then t else t - 2 ^ 32 := by
  rw [Int32.toInt_ofInt, show (Int32.size : Nat) = 2 ^ 32 from rfl]
  split
  · exact Int.bmod_eq_of_le (by omega) (by omega)
  · rw [← Int.sub_bmod_right]
    exact Int.bmod_eq_of_le (by omega) (by omega)

/-! ## The log cleaner -/

/-- The cutoff as the `unsigned int` check point. -/
theorem toNat_checkPoint {cutoff : Int} (least : -2 ^ 31 < cutoff) (small : cutoff < 2 ^ 32) :
    ((UInt32.ofInt cutoff).toNat : Int) = if 0 ≤ cutoff then cutoff else cutoff + 2 ^ 32 := by
  split
  · exact LogSettings.toNat_ofInt (by omega) small
  · rw [UInt32.ofInt, UInt32.toNat_ofNat']
    omega

/-- A file of a window that ends at `t` is removed exactly if `t` lies before the
check point. -/
theorem file_removed_iff (S : LogSettings) {now : Int} {files : List LogFile} {f : LogFile}
    {w : Window} (inDir : f ∈ files) (path : f.path = S.filePath w) :
    f ∉ S.cleanReplayLog files now ↔
      w.timeEnd.toNat < (UInt32.ofInt (now - S.docLifeTime)).toNat := by
  rw [LogSettings.cleanReplayLog, List.mem_filter, path, S.outdated_filePath]
  simp [inDir, UInt32.lt_iff_toNat_lt]

/-! ## Where the two agree -/

/-- **Posting and file are both treated by the integer cutoff** exactly if the
cutoff is not negative and the time is below 2^31 or expired anyway, or if the
time lies behind the check point even where the cutoff has wrapped around.

The posting `p` was built at `t`, and the mark loop has come to it; the file `f`
is in the directory and its window ends at `t`.  Its path fits the buffer
(`shortDir`), and the life time is an `int` that is not negative (`lifeRange`). -/
theorem cutoffs_agree_iff {W : Type} (S : LogSettings) (t now : Int)
    (nonneg : 0 ≤ t) (small : t < 2 ^ 32) (clock : 0 ≤ now) (clockSmall : now < 2 ^ 32)
    (pl : ValidPostingList W) (front rest : List (Posting W)) (p : Posting W)
    (built : p.timestamp = Int32.ofInt t) (listed : pl.postings = front ++ p :: rest)
    (newer : ∀ q ∈ front, PostingList.staysAt (now - S.docLifeTime) q)
    (files : List LogFile) (f : LogFile) (w : Window) (inDir : f ∈ files)
    (path : f.path = S.filePath w) (ends : w.timeEnd = UInt32.ofInt t) :
    (((pl.mark (now - S.docLifeTime)).unlinked = p :: rest ↔ t < now - S.docLifeTime) ∧
      (f ∉ S.cleanReplayLog files now ↔ t < now - S.docLifeTime)) ↔
    (0 ≤ now - S.docLifeTime ∧ (t < 2 ^ 31 ∨ t < now - S.docLifeTime)) ∨
      now - S.docLifeTime + 2 ^ 32 ≤ t := by
  have life := S.lifeRange
  have stamp := toInt_stamp nonneg small
  have least : -2 ^ 31 < now - S.docLifeTime := by omega
  have check := toNat_checkPoint least (by omega)
  have ending := LogSettings.toNat_ofInt nonneg small
  rw [unlinked_mark_iff listed newer, file_removed_iff S inDir path, built, ends]
  generalize now - S.docLifeTime = cutoff at *
  generalize (Int32.ofInt t).toInt = stamped at *
  generalize (UInt32.ofInt cutoff).toNat = checkPoint at *
  generalize (UInt32.ofInt t).toNat = windowEnd at *
  split at stamp <;> split at check <;> omega

/-! ## A life time that is meant to be endless -/

namespace EndlessLife

/-- The largest `doc_life_time` there is. -/
def settings : LogSettings :=
  { TwoRestarts.settings with docLifeTime := 2147483647, lifeRange := by decide }

/-- A list with one posting, built at `t`. -/
def listOf (t : Int) : ValidPostingList Int32 := ValidPostingList.create.push ⟨1, 1, Int32.ofInt t⟩

theorem postings_listOf (t : Int) : (listOf t).postings = [] ++ ⟨1, 1, Int32.ofInt t⟩ :: [] := by
  simp [listOf, ValidPostingList.postings]

/-- A window that ends at `t`. -/
def windowTo (t : Int) : Window := ⟨UInt32.ofInt (t - 5), UInt32.ofInt t⟩

/-- One file, with that window. -/
def fileOf (t : Int) : LogFile := ⟨settings.filePath (windowTo t), []⟩

/-- A hundred seconds after a story was built and logged its posting is kept, but
its log file is removed: the cutoff lies before 1970 and the check point in
2091. -/
theorem endless_life_removes_file :
    ¬ (1699999900 : Int) < 1700000000 - settings.docLifeTime ∧
      ¬ ((listOf 1699999900).mark (1700000000 - settings.docLifeTime)).unlinked =
        [⟨1, 1, Int32.ofInt 1699999900⟩] ∧
      fileOf 1699999900 ∉ settings.cleanReplayLog [fileOf 1699999900] 1700000000 ∧
      ¬ ((((listOf 1699999900).mark (1700000000 - settings.docLifeTime)).unlinked =
            [⟨1, 1, Int32.ofInt 1699999900⟩] ↔
          (1699999900 : Int) < 1700000000 - settings.docLifeTime) ∧
        (fileOf 1699999900 ∉ settings.cleanReplayLog [fileOf 1699999900] 1700000000 ↔
          (1699999900 : Int) < 1700000000 - settings.docLifeTime)) := by
  have cutoff : ¬ (1699999900 : Int) < 1700000000 - settings.docLifeTime := by decide
  have kept : ¬ ((listOf 1699999900).mark (1700000000 - settings.docLifeTime)).unlinked =
      [⟨1, 1, Int32.ofInt 1699999900⟩] := by
    rw [unlinked_mark_iff (postings_listOf 1699999900) (by simp)]
    decide
  have removed : fileOf 1699999900 ∉ settings.cleanReplayLog [fileOf 1699999900] 1700000000 := by
    rw [file_removed_iff settings (List.mem_singleton_self _) rfl]
    decide
  exact ⟨cutoff, kept, removed, fun both => cutoff (both.2.mp removed)⟩

/-- A file of the same window is kept as long as the cutoff is not negative. -/
theorem cutoffs_agree_late :
    (((listOf 1699999900).mark (2147483647 - settings.docLifeTime)).unlinked =
        [⟨1, 1, Int32.ofInt 1699999900⟩] ↔
      (1699999900 : Int) < 2147483647 - settings.docLifeTime) ∧
      (fileOf 1699999900 ∉ settings.cleanReplayLog [fileOf 1699999900] 2147483647 ↔
        (1699999900 : Int) < 2147483647 - settings.docLifeTime) :=
  (cutoffs_agree_iff settings 1699999900 2147483647 (by decide) (by decide) (by decide)
    (by decide) (listOf 1699999900) [] [] _ rfl (postings_listOf 1699999900) (by simp)
    [fileOf 1699999900] (fileOf 1699999900) (windowTo 1699999900) (List.mem_singleton_self _) rfl
    rfl).mpr (Or.inl (by decide))

end EndlessLife

end RecommEngine.Indexing
