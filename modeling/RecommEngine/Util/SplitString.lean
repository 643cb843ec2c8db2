/-
# Util.SplitString -- the loop of SplitString, position by position

`splitString` of `Util.StrUtil` works on what is left of the string.  The source
works on positions: it finds the next delimiter, clamps `npos` to the size of the
string, copies what lies in between and goes on one past the end it has found,
which may be one past the end of the string.  Here the loop is as written, with a
bound on its rounds.

`run_eq` says that it ends, and with what `splitLoop` computes.
`splitString_appends_runs` says what that is: the maximal runs between delimiters,
behind the segments that were there.
-/
import RecommEngine.Theory.MaximalRuns
import RecommEngine.Util.StrUtil

namespace RecommEngine.Util

set_option autoImplicit false

open Theory.MaximalRuns

namespace SplitString

/-- `str.find(del, pos)`; `none` is `npos`. -/
def find (str : List Char) (del : Char) (pos : Nat) : Option Nat :=
  ((str.drop pos).findIdx? (· == del)).map (pos + ·)

/-- `std::min(pos, str.size())`: `npos` is larger than every size. -/
def clamp (str : List Char) : Option Nat → Nat
  | none => str.length
  | some pos => min pos str.length

structure Loop where
  lastPos : Nat
  segs : List (List Char)

/-- The body of the loop.  The inner loop copies the characters from `last_pos` up
to `end_pos`. -/
def round (str : List Char) (del : Char) (s : Loop) : Loop :=
  let curPos := find str del s.lastPos
  let endPos := clamp str curPos
  let seg := (str.drop s.lastPos).take (endPos - s.lastPos)
  { lastPos := clamp str curPos + 1
    segs := if seg = [] then s.segs else s.segs ++ [seg] }

/-- The segments after the loop, or `none` while it is running. -/
def run (str : List Char) (del : Char) : Nat → Loop → Option (List (List Char))
  | 0, _ => none
  | rounds + 1, s =>
      let s := round str del s
      if s.lastPos < str.length then run str del rounds s else some s.segs

def splitString (str : List Char) (del : Char) (segs : List (List Char)) (rounds : Nat) :
    Option (List (List Char)) :=
  if str = [] then some segs else run str del rounds ⟨0, segs⟩

/-! ## The loop ends -/

/-- The end of a segment is where the next delimiter stands or the string ends. -/
theorem clamp_find {str : List Char} {del : Char} {pos : Nat} (inside : pos ≤ str.length) :
    clamp str (find str del pos) = pos + ((str.drop pos).takeWhile (· != del)).length := by
  have upTo : ((str.drop pos).takeWhile (· != del)).length =
      (str.drop pos).findIdx (· == del) := by
    rw [List.takeWhile_eq_take_findIdx_not, List.length_take]
    simp only [bne, Bool.not_not]
    exact min_eq_left List.findIdx_le_length
  have size : (str.drop pos).length = str.length - pos := List.length_drop
  rw [upTo, find]
  cases found : (str.drop pos).findIdx? (· == del) with
  | none =>
      rw [List.findIdx?_eq_none_iff_findIdx_eq.mp found, size]
      simp only [Option.map_none, clamp]
      omega
  | some i =>
      obtain ⟨small, rfl⟩ := List.findIdx?_eq_some_iff_findIdx_eq.mp found
      simp only [Option.map_some, clamp]
      omega

theorem round_eq {str : List Char} {del : Char} {pos : Nat} (inside : pos ≤ str.length)
    (segs : List (List Char)) :
    let seg := (str.drop pos).takeWhile (· != del)
    round str del ⟨pos, segs⟩ =
      ⟨pos + seg.length + 1, segs ++ if seg = [] then [] else [seg]⟩ := by
  intro seg
  have copied : (str.drop pos).take seg.length = seg :=
    List.prefix_iff_eq_take.mp (List.takeWhile_prefix _) |>.symm
  simp only [round, clamp_find inside, Nat.add_sub_cancel_left]
  rw [show ((str.drop pos).takeWhile (· != del)).length = seg.length from rfl, copied]
  split <;> simp

/-- From any position the loop ends, and appends what `splitLoop` finds from there
on. -/
theorem run_eq {str : List Char} {del : Char} {pos rounds : Nat} (inside : pos ≤ str.length)
    (enough : str.length - pos < rounds) (segs : List (List Char)) :
    run str del rounds ⟨pos, segs⟩ = some (segs ++ splitLoop del (str.drop pos)) := by
  induction rounds generalizing pos segs with
  | zero => omega
  | succ rounds ih =>
      rw [run, round_eq inside, splitLoop]
      simp only [List.drop_drop, ← Nat.add_assoc]
      generalize (str.drop pos).takeWhile (· != del) = seg
      by_cases more : pos + seg.length + 1 < str.length
      · have left : str.drop (pos + seg.length + 1) ≠ [] := by
          rw [ne_eq, List.drop_eq_nil_iff]
          omega
        rw [if_pos more, if_neg left, ih more.le (by omega), List.append_assoc]
      · have done : str.drop (pos + seg.length + 1) = [] := by
          rw [List.drop_eq_nil_iff]
          omega
        rw [if_neg more, if_pos done, List.append_nil]

theorem splitString_eq (str : List Char) (del : Char) (segs : List (List Char)) {rounds : Nat}
    (enough : str.length < rounds) :
    splitString str del segs rounds = some (Util.splitString str del segs) := by
  rw [splitString, Util.splitString]
  split
  · rfl
  · simpa using run_eq (Nat.zero_le _) (by omega) segs

/-! ## What it appends -/

theorem runs_splitLoop (str : List Char) (del : Char) :
    Runs (· = del) str (splitLoop del str) := by
  induction length : str.length using Nat.strong_induction_on generalizing str with
  | h n ih =>
      by_cases more : del ∈ str
      · obtain ⟨seg, rest, rfl, before⟩ := List.eq_append_cons_of_mem more
        have free : ∀ c ∈ seg, ¬ c = del := fun c inside same => before (same ▸ inside)
        rw [splitLoop_append before]
        have all := (ih rest.length (by simp [← length]; omega) rest rfl).append_cons free rfl
        cases seg <;> simpa using all
      · have free : ∀ c ∈ str, ¬ c = del := fun c inside same => more (same ▸ inside)
        have all := runs_of_free free
        cases str with
        | nil => simpa using all
        | cons c str =>
            rw [splitLoop_of_notMem more (by simp)]
            simpa using all

/-- **SplitString appends the maximal runs.**  The call ends for every string and
delimiter; behind the segments that were there it leaves the maximal non-empty
runs of other characters, in order. -/
theorem splitString_appends_runs (str : List Char) (del : Char) (segs : List (List Char)) :
    ∃ added,
      (∀ rounds, str.length < rounds → splitString str del segs rounds = some (segs ++ added)) ∧
      Runs (· = del) str added ∧
      (∀ seg ∈ added, seg ≠ [] ∧ del ∉ seg) ∧
      (str ≠ [] → del ∉ str → added = [str]) := by
  have all := runs_splitLoop str del
  refine ⟨splitLoop del str, ?_, all, ?_, ?_⟩
  · intro rounds enough
    rw [splitString_eq str del segs enough, Util.splitString]
    split
    · rename_i empty
      simp [empty]
    · rfl
  · intro seg inside
    obtain ⟨filled, free⟩ := all.spec inside
    exact ⟨filled, fun contains => free del contains rfl⟩
  · intro filled whole
    exact splitLoop_of_notMem whole filled

/-- The strings of the unit test. -/
example : ["a_b_c", "_", "_a_b_c", "a_b_dec_", "___"].map
      (fun str => (splitString str.toList '_' [] 10).map List.length) =
    [some 3, some 0, some 3, some 3, some 0] := by
  decide

end SplitString

end RecommEngine.Util
