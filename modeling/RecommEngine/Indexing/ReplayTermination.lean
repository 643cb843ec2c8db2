/-
# Indexing.ReplayTermination -- when Replay comes to its end

`InstantIndex::Replay` reads every entry of the log directory in a loop that
tests one flag of its stream, the end of the file.  An entry that cannot be opened
and one whose reads fail never set it: from then on no read does anything, the
variables keep their values, and the loop goes on for ever.  There are two other
ways out.  Each round takes its buffer from the stack, with a size that the file
gives, and one that does not fit ends the process; and the `catch` around the loop
is reached by a size that the string constructor refuses.

`replayEntry` is the loop with both; without them it is the `replayFile` of
`ReplayLog` (`replayEntry_of_never`).  A file without read errors is left after
finitely many rounds, since every round moves on by the twelve bytes of a header at
least.  `replay_ends_iff` is the exact condition for a whole directory.

Which sizes overflow the stack and which are refused are parameters.
-/
import RecommEngine.Indexing.ReplayLog

namespace RecommEngine.Indexing

set_option autoImplicit false

open Idl Theory.ByteStream

namespace ReplayLog

/-- What a size can do besides being read. -/
structure Limits where
  /-- `char buf[obj_size + 1024]` does not fit on the stack. -/
  overflows : Nat → Bool
  /-- The string constructor throws. -/
  throws : Nat → Bool

/-- Why the loops have not come to their end. -/
inductive ReplayStop where
  | running
  | overflow
  deriving DecidableEq

variable (T : Thrift StoryAddingRequest) (limits : Limits)

/-! ## The loop with its catch -/

/-- The loop over one entry: the stories handed to `AddStory` when it is left.  It is
running after `fuel` tests of its condition if there is none left. -/
def replayEntry (stack : Nat → Nat → UInt8) : (fuel round : Nat) → ReplayLoop →
    Except ReplayStop (List StoryAddingRequest)
  | 0, _, _ => .error .running
  | fuel + 1, round, s =>
      if s.stream.eof then
        .ok []
      else
        let next := replayRound T (stack round) s
        if limits.overflows (decode next.2.objSize.1) then
          .error .overflow
        else if limits.throws (decode next.2.objSize.1) then
          .ok []
        else
          (replayEntry stack fuel (round + 1) next.2).map (next.1.toList ++ ·)

theorem replayEntry_of_never (fits : ∀ size, limits.overflows size = false)
    (never : ∀ size, limits.throws size = false) (stack : Nat → Nat → UInt8)
    (fuel round : Nat) (s : ReplayLoop) :
    (replayEntry T limits stack fuel round s).toOption = replayFile T stack fuel round s := by
  induction fuel generalizing round s with
  | zero => rfl
  | succ fuel ih =>
      rw [replayEntry, replayFile]
      split
      · rfl
      · simp only [fits, never, Bool.false_eq_true, if_false, ← ih]
        cases replayEntry T limits stack fuel (round + 1) (replayRound T (stack round) s).2 <;> rfl

/-- An entry of the directory, with what its variables and the stack under its
buffers hold before they are written. -/
structure DirectoryEntry where
  opens : Bool
  bytes : Bytes
  /-- Behind `bytes` the reads fail. -/
  broken : Bool
  timestamp : Cell 4
  objSize : Cell 8
  req : StoryAddingRequest
  stack : Nat → Nat → UInt8

namespace DirectoryEntry

/-- `std::ifstream in(fname.c_str())`. -/
def stream (e : DirectoryEntry) : InStream :=
  if e.opens then .opened e.bytes e.broken false else { rest := [], fail := true }

def loop (e : DirectoryEntry) : ReplayLoop := ⟨e.stream, e.timestamp, e.objSize, e.req⟩

/-- What there is to read. -/
def readable (e : DirectoryEntry) : Bytes := if e.opens then e.bytes else []

end DirectoryEntry

/-- `InstantIndex::Replay`: the stories of each entry.  The two threads are started
only behind the last. -/
def replay (fuel : Nat) (entries : List DirectoryEntry) :
    Except ReplayStop (List (List StoryAddingRequest)) :=
  entries.mapM fun e => replayEntry T limits e.stack fuel 0 e.loop

/-! ## The sizes a loop comes to -/

/-- The size of the first round, read from these bytes or still in the variable. -/
def firstSize (objSize : Cell 8) (rest : Bytes) : Nat := decode (overwrite objSize (rest.drop 4)).1

/-- `sizes` are the first sizes that the loop comes to: a round that finds its whole
record is followed by another. -/
inductive SizesRead : Cell 8 → Bytes → List Nat → Prop
  | one (objSize : Cell 8) (rest : Bytes) : SizesRead objSize rest [firstSize objSize rest]
  | more {objSize : Cell 8} {rest : Bytes} {sizes : List Nat}
      (whole : 12 + firstSize objSize rest ≤ rest.length)
      (next : SizesRead (overwrite objSize (rest.drop 4))
        (rest.drop (12 + firstSize objSize rest)) sizes) :
      SizesRead objSize rest (firstSize objSize rest :: sizes)

/-- All buffers of these sizes fit. -/
def Limits.Fit (limits : Limits) (sizes : List Nat) : Prop :=
  ∀ size ∈ sizes, limits.overflows size = false

/-- A loop over these bytes, read without an error or not, is left: no size overflows the
stack, or one is refused before any does. -/
def Left (healthy : Prop) (objSize : Cell 8) (rest : Bytes) : Prop :=
  (healthy ∧ ∀ sizes, SizesRead objSize rest sizes → limits.Fit sizes) ∨
    ∃ sizes, SizesRead objSize rest sizes ∧ limits.Fit sizes ∧
      ∃ size ∈ sizes, limits.throws size = true

variable {T limits} {stack : Nat → Nat → UInt8}

theorem SizesRead.first_mem {objSize : Cell 8} {rest : Bytes} {sizes : List Nat}
    (read : SizesRead objSize rest sizes) : firstSize objSize rest ∈ sizes := by
  cases read <;> simp

/-- After a short read nothing is left to read. -/
theorem SizesRead.eq_of_short {objSize : Cell 8} {rest : Bytes} {sizes : List Nat}
    (short : rest.length < 12 + firstSize objSize rest) (read : SizesRead objSize rest sizes) :
    sizes = [firstSize objSize rest] := by
  cases read with
  | one => rfl
  | more whole next => omega

theorem not_left_of_overflows {healthy : Prop} {objSize : Cell 8} {rest : Bytes}
    (overflow : limits.overflows (firstSize objSize rest) = true) :
    ¬ Left limits healthy objSize rest := by
  rintro (⟨-, fit⟩ | ⟨sizes, read, fit, -⟩)
  · have := fit _ (.one objSize rest) _ (List.mem_singleton_self _)
    simp [overflow] at this
  · have := fit _ read.first_mem
    simp [overflow] at this

/-- The last round: the reads stop there. -/
theorem left_iff_of_short {healthy : Prop} {objSize : Cell 8} {rest : Bytes}
    (short : rest.length < 12 + firstSize objSize rest)
    (fits : limits.overflows (firstSize objSize rest) = false) :
    Left limits healthy objSize rest ↔
      healthy ∨ limits.throws (firstSize objSize rest) = true := by
  have fit : limits.Fit [firstSize objSize rest] := by simpa [Limits.Fit] using fits
  refine or_congr ?_ ?_
  · refine ⟨fun both => both.1, fun fine => ⟨fine, ?_⟩⟩
    intro sizes read
    rwa [read.eq_of_short short]
  · constructor
    · rintro ⟨sizes, read, -, size, inside, thrown⟩
      rw [read.eq_of_short short, List.mem_singleton] at inside
      rwa [← inside]
    · exact fun thrown => ⟨_, .one objSize rest, fit, _, List.mem_singleton_self _, thrown⟩

/-- A round that finds its whole record leaves the question to the next. -/
theorem left_iff_of_whole {healthy : Prop} {objSize : Cell 8} {rest : Bytes}
    (whole : 12 + firstSize objSize rest ≤ rest.length)
    (fits : limits.overflows (firstSize objSize rest) = false)
    (quiet : limits.throws (firstSize objSize rest) = false) :
    Left limits healthy objSize rest ↔
      Left limits healthy (overwrite objSize (rest.drop 4))
        (rest.drop (12 + firstSize objSize rest)) := by
  have fit_cons : ∀ sizes, limits.Fit (firstSize objSize rest :: sizes) ↔ limits.Fit sizes := by
    intro sizes
    simp [Limits.Fit, fits]
  refine or_congr (and_congr_right fun _ => ⟨?_, ?_⟩) ⟨?_, ?_⟩
  · intro fit sizes read
    exact (fit_cons sizes).mp (fit _ (.more whole read))
  · intro fit sizes read
    cases read with
    | one => simpa [Limits.Fit] using fits
    | more whole' next => exact (fit_cons _).mpr (fit _ next)
  · rintro ⟨sizes, read, fit, size, inside, thrown⟩
    cases read with
    | one =>
        rw [List.mem_singleton.mp inside, quiet] at thrown
        cases thrown
    | more whole' next =>
        rcases List.mem_cons.mp inside with rfl | later
        · rw [quiet] at thrown
          cases thrown
        · exact ⟨_, next, (fit_cons _).mp fit, size, later, thrown⟩
  · rintro ⟨sizes, read, fit, size, inside, thrown⟩
    exact ⟨_, .more whole read, (fit_cons sizes).mpr fit, size, List.mem_cons_of_mem _ inside, thrown⟩

theorem left_nil_iff {healthy : Prop} {objSize : Cell 8} :
    Left limits healthy objSize [] ↔
      limits.overflows (decode objSize.1) = false ∧
        (healthy ∨ limits.throws (decode objSize.1) = true) := by
  have first : firstSize objSize [] = decode objSize.1 := by simp [firstSize]
  cases fits : limits.overflows (decode objSize.1) with
  | true =>
      have stuck : ¬ Left limits healthy objSize [] := not_left_of_overflows (first ▸ fits)
      simpa using stuck
  | false =>
      rw [left_iff_of_short (by simp only [List.length_nil]; omega) (first ▸ fits), first]
      simp

/-! ## One entry -/

/-- The loop ends. -/
def Returns (T : Thrift StoryAddingRequest) (limits : Limits) (stack : Nat → Nat → UInt8)
    (round : Nat) (s : ReplayLoop) : Prop :=
  ∃ fuel handed, replayEntry T limits stack fuel round s = .ok handed

theorem returns_of_eof {s : ReplayLoop} (ended : s.stream.eof = true) (round : Nat) :
    Returns T limits stack round s :=
  ⟨1, [], by simp [replayEntry, ended]⟩

theorem not_returns_of_overflows {s : ReplayLoop} {round : Nat} (more : s.stream.eof = false)
    (overflow : limits.overflows (decode (replayRound T (stack round) s).2.objSize.1) = true) :
    ¬ Returns T limits stack round s := by
  rintro ⟨fuel, handed, returned⟩
  cases fuel with
  | zero => cases returned
  | succ fuel => simp [replayEntry, more, overflow] at returned

theorem returns_of_throws {s : ReplayLoop} {round : Nat}
    (fits : limits.overflows (decode (replayRound T (stack round) s).2.objSize.1) = false)
    (thrown : limits.throws (decode (replayRound T (stack round) s).2.objSize.1) = true) :
    Returns T limits stack round s := by
  by_cases ended : s.stream.eof = true
  · exact returns_of_eof ended round
  · exact ⟨1, [], by simp [replayEntry, ended, fits, thrown]⟩

/-- A round that neither starts at the end nor is its loop's last leaves the question to
the next. -/
theorem returns_succ_iff {s : ReplayLoop} {round : Nat} (more : s.stream.eof = false)
    (fits : limits.overflows (decode (replayRound T (stack round) s).2.objSize.1) = false)
    (quiet : limits.throws (decode (replayRound T (stack round) s).2.objSize.1) = false) :
    Returns T limits stack round s ↔
      Returns T limits stack (round + 1) (replayRound T (stack round) s).2 := by
  have one : ∀ fuel, replayEntry T limits stack (fuel + 1) round s =
      (replayEntry T limits stack fuel (round + 1) (replayRound T (stack round) s).2).map
        ((replayRound T (stack round) s).1.toList ++ ·) := by
    intro fuel
    rw [replayEntry, if_neg (by simp [more])]
    simp [fits, quiet]
  constructor
  · rintro ⟨fuel, handed, returned⟩
    cases fuel with
    | zero => cases returned
    | succ fuel =>
        rw [one] at returned
        cases rest : replayEntry T limits stack fuel (round + 1) (replayRound T (stack round) s).2 with
        | error stop =>
            rw [rest] at returned
            cases returned
        | ok later => exact ⟨fuel, later, rest⟩
  · rintro ⟨fuel, handed, returned⟩
    exact ⟨fuel + 1, _, (one fuel).trans (congrArg (Except.map _) returned)⟩

theorem replayRound_failed {s : ReplayLoop} (failed : s.stream.fail = true)
    (memory : Nat → UInt8) :
    (replayRound T memory s).2.stream = s.stream ∧
      (replayRound T memory s).2.objSize = s.objSize := by
  simp [replayRound, InStream.read, failed]

/-- A stream that has failed before its end is never left but by an exception. -/
theorem returns_failed_iff {s : ReplayLoop} (failed : s.stream.fail = true)
    (more : s.stream.eof = false) (round : Nat) :
    Returns T limits stack round s ↔
      limits.overflows (decode s.objSize.1) = false ∧ limits.throws (decode s.objSize.1) = true := by
  have size := (replayRound_failed (T := T) failed (stack round)).2
  cases fits : limits.overflows (decode s.objSize.1) with
  | true => simpa using not_returns_of_overflows more (size ▸ fits)
  | false =>
      cases thrown : limits.throws (decode s.objSize.1) with
      | true => simpa using returns_of_throws (size ▸ fits) (size ▸ thrown)
      | false =>
          simp only [Bool.false_eq_true, and_false, iff_false]
          rintro ⟨fuel, handed, returned⟩
          have running : ∀ fuel round (s' : ReplayLoop), s'.stream = s.stream →
              s'.objSize = s.objSize → replayEntry T limits stack fuel round s' = .error .running := by
            intro fuel
            induction fuel with
            | zero => exact fun _ _ _ _ => rfl
            | succ fuel ih =>
                intro round s' stream objSize
                obtain ⟨stream', objSize'⟩ := @replayRound_failed T s' (stream ▸ failed) (stack round)
                have again := ih (round + 1) (replayRound T (stack round) s').2
                  (stream'.trans stream) (objSize'.trans objSize)
                rw [replayEntry, if_neg (by simp [stream, more])]
                simp only [objSize', objSize, fits, thrown, again, Bool.false_eq_true, if_false]
                rfl
          rw [running fuel round s rfl rfl] at returned
          cases returned

/-- When the loop over a file is left. -/
theorem returns_opened_iff (rest : Bytes) (broken : Bool) (round : Nat) (timestamp : Cell 4)
    (objSize : Cell 8) (req : StoryAddingRequest) :
    Returns T limits stack round ⟨.opened rest broken false, timestamp, objSize, req⟩ ↔
      Left limits (broken = false) objSize rest := by
  induction length : rest.length using Nat.strong_induction_on
    generalizing rest round timestamp objSize req with
  | h n ih =>
      subst length
      have next := replayRound_opened T (stack round) rest broken timestamp objSize req
      have objSize' := congrArg (fun out => decode out.2.objSize.1) next
      dsimp only at next objSize'
      rw [← firstSize] at next objSize'
      cases fits : limits.overflows (firstSize objSize rest) with
      | true =>
          exact iff_of_false (not_returns_of_overflows rfl (objSize'.symm ▸ fits))
            (not_left_of_overflows fits)
      | false =>
          by_cases thrown : limits.throws (firstSize objSize rest) = true
          · refine iff_of_true (returns_of_throws (objSize'.symm ▸ fits) (objSize'.symm ▸ thrown)) ?_
            exact Or.inr ⟨_, .one objSize rest, by simpa [Limits.Fit] using fits, _,
              List.mem_singleton_self _, thrown⟩
          · rw [Bool.not_eq_true] at thrown
            rw [returns_succ_iff rfl (objSize'.symm ▸ fits) (objSize'.symm ▸ thrown), next]
            by_cases whole : 12 + firstSize objSize rest ≤ rest.length
            · -- the header alone makes the rest shorter
              rw [decide_eq_false (by omega), left_iff_of_whole whole fits thrown]
              exact ih _ (by rw [List.length_drop]; omega) _ _ _ _ _ rfl
            · rw [decide_eq_true (by omega), left_iff_of_short (by omega) fits, thrown]
              cases broken with
              | false => exact iff_of_true (returns_of_eof rfl _) (Or.inl rfl)
              | true =>
                  rw [returns_failed_iff rfl rfl]
                  change _ ∧ limits.throws (firstSize objSize rest) = true ↔ _
                  simp [thrown]

/-- The loop over the entry ends. -/
theorem returns_entry_iff (e : DirectoryEntry) :
    Returns T limits e.stack 0 e.loop ↔
      Left limits (e.opens = true ∧ e.broken = false) e.objSize e.readable := by
  unfold DirectoryEntry.loop DirectoryEntry.stream DirectoryEntry.readable
  cases e.opens with
  | true =>
      simp only [if_true, true_and]
      exact returns_opened_iff e.bytes e.broken 0 e.timestamp e.objSize e.req
  | false =>
      simp only [Bool.false_eq_true, if_false, false_and]
      rw [left_nil_iff, returns_failed_iff rfl rfl, false_or]

/-! ## The directory -/

theorem replayEntry_succ {fuel round : Nat} {s : ReplayLoop} {handed : List StoryAddingRequest}
    (done : replayEntry T limits stack fuel round s = .ok handed) :
    replayEntry T limits stack (fuel + 1) round s = .ok handed := by
  induction fuel generalizing round s handed with
  | zero => cases done
  | succ fuel ih =>
      rw [replayEntry] at done ⊢
      split
      · rename_i ended
        rwa [if_pos ended] at done
      · rename_i more
        rw [if_neg more] at done
        dsimp only at done ⊢
        split
        · rename_i overflow
          rwa [if_pos overflow] at done
        · rename_i fits
          rw [if_neg fits] at done
          split
          · rename_i thrown
            rwa [if_pos thrown] at done
          · rename_i quiet
            rw [if_neg quiet] at done
            cases rest : replayEntry T limits stack fuel (round + 1)
                (replayRound T (stack round) s).2 with
            | error stop =>
                rw [rest] at done
                cases done
            | ok later => rwa [ih rest, ← rest]

theorem replayEntry_mono {fuel fuel' round : Nat} {s : ReplayLoop}
    {handed : List StoryAddingRequest} (more : fuel ≤ fuel')
    (done : replayEntry T limits stack fuel round s = .ok handed) :
    replayEntry T limits stack fuel' round s = .ok handed := by
  induction more with
  | refl => exact done
  | step _ ih => exact replayEntry_succ ih

theorem replay_cons_iff {fuel : Nat} {e : DirectoryEntry} {entries : List DirectoryEntry} :
    (∃ handed, replay T limits fuel (e :: entries) = .ok handed) ↔
      (∃ handed, replayEntry T limits e.stack fuel 0 e.loop = .ok handed) ∧
        ∃ handed, replay T limits fuel entries = .ok handed := by
  rw [replay, List.mapM_cons, ← replay]
  cases replayEntry T limits e.stack fuel 0 e.loop with
  | error stop => simp [bind, Except.bind]
  | ok handed => cases replay T limits fuel entries <;> simp [bind, Except.bind, pure, Except.pure]

theorem replay_mono {fuel fuel' : Nat} (more : fuel ≤ fuel') {entries : List DirectoryEntry}
    (done : ∃ handed, replay T limits fuel entries = .ok handed) :
    ∃ handed, replay T limits fuel' entries = .ok handed := by
  induction entries with
  | nil => exact ⟨[], rfl⟩
  | cons e entries ih =>
      rw [replay_cons_iff] at done ⊢
      obtain ⟨⟨handed, first⟩, rest⟩ := done
      exact ⟨⟨handed, replayEntry_mono more first⟩, ih rest⟩

theorem exists_replay_iff {entries : List DirectoryEntry} :
    (∃ fuel handed, replay T limits fuel entries = .ok handed) ↔
      ∀ e ∈ entries, Returns T limits e.stack 0 e.loop := by
  induction entries with
  | nil => exact iff_of_true ⟨0, [], rfl⟩ (by simp)
  | cons e entries ih =>
      simp only [replay_cons_iff, List.forall_mem_cons, ← ih]
      constructor
      · rintro ⟨fuel, first, rest⟩
        exact ⟨⟨fuel, first⟩, fuel, rest⟩
      · rintro ⟨⟨fuel, handed, first⟩, fuel', rest⟩
        exact ⟨max fuel fuel', ⟨handed, replayEntry_mono (le_max_left _ _) first⟩,
          replay_mono (le_max_right _ _) rest⟩

/-- **Replay comes to the start of its threads** exactly if of every entry of the
directory one of these holds: it opens, is read without an error and has no size that
overflows the stack; or it has a size that throws, and none up to that overflows the
stack.  Where this fails, no number of rounds is enough. -/
theorem replay_ends_iff (T : Thrift StoryAddingRequest) (limits : Limits)
    (entries : List DirectoryEntry) :
    (∃ fuel handed, replay T limits fuel entries = .ok handed) ↔
      ∀ e ∈ entries,
        ((e.opens = true ∧ e.broken = false) ∧
          ∀ sizes, SizesRead e.objSize e.readable sizes → limits.Fit sizes) ∨
        ∃ sizes, SizesRead e.objSize e.readable sizes ∧ limits.Fit sizes ∧
          ∃ size ∈ sizes, limits.throws size = true := by
  simp only [exists_replay_iff, returns_entry_iff, Left]

end ReplayLog

/-! ## A file that cannot be opened, and one with a large size -/

namespace Unreadable

open ReplayLog

/-- A stack of 8 MiB; `std::string` refuses what it cannot address. -/
def limits : Limits where
  overflows size := 2 ^ 23 ≤ (size + 1024) % 2 ^ 64
  throws size := 2 ^ 62 ≤ size

def closed : DirectoryEntry where
  opens := false
  bytes := []
  broken := false
  timestamp := cell 4 0
  objSize := cell 8 0
  req := LastRound.blank
  stack := fun _ _ => 0

/-- A subdirectory: it opens, and every read fails. -/
def subdirectory : DirectoryEntry := { closed with opens := true, broken := true }

/-- A log file that consists of one header. -/
def oversized : DirectoryEntry :=
  { closed with opens := true, bytes := (cell 4 0).1 ++ (cell 8 (2 ^ 40)).1 }

theorem not_ends {e : DirectoryEntry}
    (stuck : ¬ Left limits (e.opens = true ∧ e.broken = false) e.objSize e.readable) :
    ∀ fuel handed, replay LastRound.thrift limits fuel [e] ≠ .ok handed := by
  intro fuel handed ends
  have returns := exists_replay_iff.mp ⟨fuel, handed, ends⟩ e (List.mem_singleton_self e)
  exact stuck ((returns_entry_iff e).mp returns)

/-- Replay does not come past any of them. -/
theorem unreadable_entry_hangs :
    (∀ fuel handed, replay LastRound.thrift limits fuel [closed] ≠ .ok handed) ∧
      (∀ fuel handed, replay LastRound.thrift limits fuel [subdirectory] ≠ .ok handed) ∧
      (∀ fuel handed, replay LastRound.thrift limits fuel [oversized] ≠ .ok handed) ∧
      replay LastRound.thrift limits 1 [oversized] = .error .overflow := by
  refine ⟨not_ends ?_, not_ends ?_, not_ends ?_, ?_⟩
  · show ¬ Left limits _ (cell 8 0) []
    rw [left_nil_iff]
    decide
  · show ¬ Left limits _ (cell 8 0) []
    rw [left_nil_iff]
    decide
  · exact not_left_of_overflows (by decide +kernel)
  · have loop : oversized.loop = ⟨.opened oversized.bytes false false, oversized.timestamp,
        oversized.objSize, oversized.req⟩ := rfl
    have size := congrArg (fun out => decode out.2.objSize.1) (replayRound_opened LastRound.thrift
      (oversized.stack 0) oversized.bytes false oversized.timestamp oversized.objSize oversized.req)
    have large : limits.overflows (firstSize oversized.objSize oversized.bytes) = true := by
      decide +kernel
    dsimp only at size
    rw [← firstSize, ← loop] at size
    rw [← size] at large
    rw [replay, List.mapM_cons, replayEntry, if_neg (by decide), if_pos large]
    rfl

end Unreadable

end RecommEngine.Indexing
