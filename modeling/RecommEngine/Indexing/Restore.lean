/-
# Indexing.Restore -- the replay and the builder over one pool

`InstantIndex::Replay` reads the log files in a thread of its own and hands each
story it decodes to the build pool, while the builder takes stories out.  The
two threads interleave in any order: a step of `Replay` opens a file or makes one
round of its read loop, a step of the builder is one `Get` with the build after it.

`Replay` puts with `TryPut` and does not look at the answer, so a story that is
decoded while the pool is full is dropped.  `restore_lossless_iff` says that
this is the only loss: in a run the stories built, followed by the stories in
the pool, are the stories decoded in every state exactly if every story decoded
finds room (`FindsRoom`).

`decoded` and `built` record the past and are never read by a step.
-/
import RecommEngine.Theory.Run
import RecommEngine.Util.ProducerConsumerQueue
import RecommEngine.Indexing.Operations
import RecommEngine.Indexing.ReplayLog

namespace RecommEngine.Indexing

set_option autoImplicit false

open Theory.Run Theory.ByteStream Util Idl ReplayLog

structure Restore (W : Type) where
  /-- The contents of the log files that `Replay` has yet to open. -/
  files : List Bytes
  reading : Option ReplayLoop := none
  docPool : ProducerConsumerQueue StoryAddingRequest
  index : IndexMachine W := {}
  decoded : List StoryAddingRequest := []
  built : List StoryAddingRequest := []

inductive RestoreEvent where
  /-- `Replay` opens its next file; nothing has written the two variables yet. -/
  | openFile (timestamp : Cell 4) (objSize : Cell 8)
  | round (memory : Nat → UInt8) (now : Int64)
  /-- An exception in a round makes `Replay` go on to the next file. -/
  | giveUp
  | build (getClock : Nat → Int64) (clock : Nat → Int)

namespace Restore

variable {W : Type} [Inhabited W] (T : Thrift StoryAddingRequest) (P : Platform W)
  (docLifeTime : Int)

/-! ## The steps -/

/-- The pool is created with timeout 0. -/
def init (files : List Bytes) (docPoolSize : Nat) : Restore W where
  files := files
  docPool := ⟨docPoolSize, ProducerConsumerQueue.timeoutNone, []⟩

/-- The request of the loop before its first round. -/
def blankRequest : StoryAddingRequest := ⟨⟨"", 0, "", "", ∅⟩⟩

def openNext (s : Restore W) (timestamp : Cell 4) (objSize : Cell 8) : Restore W :=
  match s.reading, s.files with
  | none, file :: files =>
      { s with
        files := files
        reading := some ⟨.ofFile file false, timestamp, objSize, blankRequest⟩ }
  | _, _ => s

/-- `IndexBuildThread::AddStory`, whose answer `Replay` drops. -/
def addStory (s : Restore W) (req : StoryAddingRequest) (now : Int64) : Restore W :=
  { s with docPool := (s.docPool.tryPut req now).2, decoded := s.decoded ++ [req] }

/-- One test of `while (!in.eof())` and, if there is more, the round after it. -/
def readNext (s : Restore W) (memory : Nat → UInt8) (now : Int64) : Restore W :=
  match s.reading with
  | none => s
  | some loop =>
      if loop.stream.eof then
        { s with reading := none }
      else
        let next := replayRound T memory loop
        match next.1 with
        | none => { s with reading := some next.2 }
        | some req => addStory { s with reading := some next.2 } req now

/-- One round of `IndexBuildThread::Run`; an empty pool blocks it. -/
def buildNext (s : Restore W) (getClock : Nat → Int64) (clock : Nat → Int) : Restore W :=
  match s.docPool.tryGetInternal getClock with
  | (none, _) => s
  | (some req, docPool) =>
      { s with
        docPool := docPool
        index := s.index.addStoryInternal P docLifeTime req clock
        built := s.built ++ [req] }

def step (s : Restore W) : RestoreEvent → Restore W
  | .openFile timestamp objSize => s.openNext timestamp objSize
  | .round memory now => s.readNext T memory now
  | .giveUp => { s with reading := none }
  | .build getClock clock => s.buildNext P docLifeTime getClock clock

/-! ## What is lost and when -/

/-- Nothing that was decoded is missing, and nothing is out of order. -/
def Lossless (s : Restore W) : Prop :=
  s.built ++ s.docPool.items = s.decoded

/-- The story that the event hands to `AddStory`, if it does. -/
def decodes (s : Restore W) : RestoreEvent → Option StoryAddingRequest
  | .round memory _ =>
      s.reading.bind fun loop =>
        if loop.stream.eof then none else (replayRound T memory loop).1
  | _ => none

/-- A story that is decoded finds fewer stories in the pool than fit. -/
def FindsRoom (s : Restore W) (e : RestoreEvent) : Prop :=
  (decodes T s e).isSome → s.docPool.items.length < s.docPool.capacity

/-- What a step does to the stories: a put of the story it decodes, or a move of
the oldest story of the pool to the built ones, or nothing. -/
theorem step_cases {s : Restore W} (untimed : s.docPool.Untimed) (e : RestoreEvent) :
    let s' := step T P docLifeTime s e
    (∃ req now, decodes T s e = some req ∧ s'.built = s.built ∧
        s'.decoded = s.decoded ++ [req] ∧ s'.docPool = (s.docPool.tryPut req now).2) ∨
      (decodes T s e = none ∧ s'.decoded = s.decoded ∧ s'.docPool.Untimed ∧
        s'.built ++ s'.docPool.items = s.built ++ s.docPool.items) := by
  cases e with
  | openFile timestamp objSize =>
      right
      refine ⟨rfl, ?_⟩
      dsimp only [step, openNext]
      split <;> exact ⟨rfl, untimed, rfl⟩
  | round memory now =>
      dsimp only [step, readNext, decodes]
      cases s.reading with
      | none => exact Or.inr ⟨rfl, rfl, untimed, rfl⟩
      | some loop =>
          by_cases ended : loop.stream.eof = true
          · simp only [Option.bind_some, ended, if_true]
            exact Or.inr ⟨trivial, trivial, untimed, trivial⟩
          · simp only [Option.bind_some, ended]
            cases handed : (replayRound T memory loop).1 with
            | none => exact Or.inr ⟨rfl, rfl, untimed, rfl⟩
            | some req => exact Or.inl ⟨req, now, rfl, rfl, rfl, rfl⟩
  | giveUp => exact Or.inr ⟨rfl, rfl, untimed, rfl⟩
  | build getClock clock =>
      right
      refine ⟨rfl, ?_⟩
      dsimp only [step, buildNext]
      split
      · exact ⟨rfl, untimed, rfl⟩
      · rename_i req docPool got
        obtain ⟨first, rest⟩ := untimed.tryGet_some got
        exact ⟨rfl, rest, by simp [first]⟩

variable {T P docLifeTime}

theorem untimed_step {s : Restore W} (untimed : s.docPool.Untimed) (e : RestoreEvent) :
    (step T P docLifeTime s e).docPool.Untimed := by
  rcases step_cases T P docLifeTime untimed e with
    ⟨req, now, -, -, -, pool⟩ | ⟨-, -, still, -⟩
  · rw [pool]
    exact untimed.tryPut req now
  · exact still

/-- One step: only a put into a full pool loses a story. -/
theorem lossless_step_iff {s : Restore W} (untimed : s.docPool.Untimed) (lossless : Lossless s)
    (e : RestoreEvent) : Lossless (step T P docLifeTime s e) ↔ FindsRoom T s e := by
  rw [Lossless] at lossless
  rcases step_cases T P docLifeTime untimed e with
    ⟨req, now, decoded, built, more, pool⟩ | ⟨nothing, decoded, -, stories⟩
  · rw [Lossless, FindsRoom, built, more, pool, ProducerConsumerQueue.items_tryPut, decoded,
      ← lossless]
    split
    · rename_i room
      simp [room]
    · rename_i full
      -- the lists differ in length
      simp [full]
  · rw [Lossless, FindsRoom, stories, decoded, nothing]
    simp [lossless]

/-- **A restore loses nothing exactly if no story is decoded into a full pool**:
in every state of a run the stories built, followed by those in the pool, are
the stories decoded so far, iff every story decoded in the run finds room. -/
theorem restore_lossless_iff (T : Thrift StoryAddingRequest) (P : Platform W) (docLifeTime : Int)
    (files : List Bytes) (docPoolSize : Nat) (events : List RestoreEvent) :
    (∀ past, past <+: events →
        Lossless (run (step T P docLifeTime) (init files docPoolSize) past)) ↔
      Along (step T P docLifeTime) (FindsRoom T) (init files docPoolSize) events := by
  have untimed : ∀ past, past <+: events →
      (run (step T P docLifeTime) (init files docPoolSize) past).docPool.Untimed := by
    refine run_history (I := fun _ (s : Restore W) => s.docPool.Untimed) ?_ ?_
    · exact ProducerConsumerQueue.untimed_new docPoolSize
    · exact fun past e _ before => untimed_step before e
  apply always_iff_along
  · rfl
  · intro past e inside lossless
    exact lossless_step_iff (untimed past ((List.prefix_append _ _).trans inside)) lossless e

end Restore

/-! ## Two stories and room for one -/

namespace FullPool

def platform : Platform Int32 := ⟨fun s => s.length.toInt64, id⟩

def twoStories : Bytes := logFile LastRound.thrift [LastRound.entry, LastRound.entry]

/-- Both records are read before the builder takes anything. -/
def events : List RestoreEvent :=
  [.openFile (cell 4 0) (cell 8 0), .round (fun _ => 0) 0, .round (fun _ => 0) 0]

def restored : Restore Int32 :=
  run (Restore.step LastRound.thrift platform 10) (Restore.init [twoStories] 1) events

/-- Two stories are decoded and one of them is left. -/
theorem second_story_dropped :
    restored.decoded.length = 2 ∧ (restored.built ++ restored.docPool.items).length = 1 ∧
      ¬ Restore.Lossless restored := by
  have decoded : restored.decoded.length = 2 := by decide +kernel
  have kept : (restored.built ++ restored.docPool.items).length = 1 := by decide +kernel
  refine ⟨decoded, kept, ?_⟩
  intro lossless
  rw [Restore.Lossless] at lossless
  rw [lossless, decoded] at kept
  exact absurd kept (by decide)

end FullPool

end RecommEngine.Indexing
