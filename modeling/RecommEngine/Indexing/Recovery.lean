/-
# Indexing.Recovery -- what a restart keeps

A run of the engine is a list of whole operations: an `AddStory` call, with the
build and the log write of its story at one second; a pass of the cleaner, which
cleans the index and then the log files; a restart, which drops the index and
builds every logged story again.

The index forgets a posting by the time it was built, the log forgets a file by
the end of its window, and a replayed story is built anew but not logged anew.
So after a restart the index keeps a story for a whole life time from the
restart on, while the file it came from still goes by its old window: once a
pass removes that file, the next restart loses a story that is still searched.

`searchable_survives_restart` proves that nothing is lost in every run where no
pass removes a file while stories replayed at the last restart are still alive
(`KeepsReplayed`).  `builds`, `clock` and `restarted` record the past and are
never read by an operation.
-/
import RecommEngine.Indexing.Refinement
import RecommEngine.Indexing.LogRetention

namespace RecommEngine.Indexing

set_option autoImplicit false

open Theory.Run Idl Util

structure Engine (W : Type) where
  index : IndexMachine W := {}
  window : Window
  files : List LogFile := []
  /-- The stories built since the engine was started. -/
  builds : List BuiltStory := []
  /-- The last reading of the clock. -/
  clock : Int
  /-- The time of the last restart, if there was one. -/
  restarted : Option Int := none

inductive EngineOp where
  | addStory (req : StoryAddingRequest) (now : Int)
  /-- A round of `CleanOldStoryThread::Run`, which reads the clock when it marks
  the lists and again when it cleans the log. -/
  | pass (now logNow : Int)
  | restart (now : Int)

namespace Engine

variable {W : Type} [Inhabited W] (P : Platform W) (S : LogSettings)

/-! ## The operations -/

/-- The first start, on an empty directory. -/
def init (now : Int) : Engine W where
  window := S.openWindow (UInt32.ofInt now)
  clock := now

/-- `AddStoryInternal` within one second. -/
def build (now : Int) (s : Engine W) (req : StoryAddingRequest) : Engine W :=
  { s with
    index := s.index.addStoryInternal P S.docLifeTime req fun _ => now
    builds := ⟨s.index.localDocidCounter.toNat, req, now⟩ :: s.builds }

def addStory (s : Engine W) (req : StoryAddingRequest) (now : Int) : Engine W :=
  let written := S.write s.window s.files req now
  { s.build P S now req with window := written.1, files := written.2, clock := now }

def pass (s : Engine W) (now logNow : Int) : Engine W :=
  { s with
    index := s.index.cleanPass P S.docLifeTime now
    files := S.cleanReplayLog s.files logNow
    clock := logNow }

/-- The stories `Replay` hands to the builder, when it decodes every file exactly. -/
def logged (files : List LogFile) : List StoryAddingRequest :=
  (S.directoryOrder files).flatMap fun f => f.entries.map (·.req)

/-- A new process on the log files of an old one: an empty index, a new window. -/
def newProcess (files : List LogFile) (now : Int) : Engine W where
  window := S.openWindow (UInt32.ofInt now)
  files := files
  clock := now
  restarted := some now

/-- A new process and its `Replay`. -/
def restart (s : Engine W) (now : Int) : Engine W :=
  (logged S s.files).foldl (build P S now) (newProcess S s.files now)

def step (s : Engine W) : EngineOp → Engine W
  | .addStory req now => s.addStory P S req now
  | .pass now logNow => s.pass P S now logNow
  | .restart now => s.restart P S now

/-! ## The property and its condition -/

/-- Some build of `req` has its posting in the list of `k`. -/
def Indexed (s : Engine W) (req : StoryAddingRequest) (k : Int64) : Prop :=
  ∃ b ∈ s.builds, b.req = req ∧ ∃ p, b.posting P k = some p ∧ s.index.Posted k p

/-- The clock does not run backwards and fits the timestamp of a posting. -/
def OnTime (s : Engine W) : EngineOp → Prop
  | .addStory _ now => s.clock ≤ now ∧ now < 2 ^ 31
  | .pass now logNow => s.clock ≤ now ∧ now ≤ logNow ∧ logNow < 2 ^ 31
  | .restart now => s.clock ≤ now ∧ now < 2 ^ 31

instance OnTime.decidable (s : Engine W) : (op : EngineOp) → Decidable (OnTime s op)
  | .addStory _ now => inferInstanceAs (Decidable (s.clock ≤ now ∧ now < 2 ^ 31))
  | .pass now logNow =>
      inferInstanceAs (Decidable (s.clock ≤ now ∧ now ≤ logNow ∧ logNow < 2 ^ 31))
  | .restart now => inferInstanceAs (Decidable (s.clock ≤ now ∧ now < 2 ^ 31))

/-- The condition on a pass: its check point is a time, and as long as it lies
at or before the last restart no file has ended before it. -/
def KeepsReplayed (s : Engine W) : EngineOp → Prop
  | .pass _ logNow => S.docLifeTime ≤ logNow ∧
      ∀ time, s.restarted = some time → logNow - S.docLifeTime ≤ time →
        ∀ f ∈ s.files, ∀ w, f.path = S.filePath w → logNow - S.docLifeTime ≤ w.timeEnd.toNat
  | _ => True

/-! ## The invariant -/

/-- The file of window `w` holds a record of `req`. -/
def InWindow (files : List LogFile) (w : Window) (req : StoryAddingRequest) : Prop :=
  ∃ f ∈ files, f.path = S.filePath w ∧ ∃ e ∈ f.entries, e.req = req

/-- Every story built by this process is on disk or older than a life time.  Its
file ends no earlier than the story was built, unless a restart built it. -/
structure Covered (s : Engine W) : Prop where
  clock : 0 ≤ s.clock ∧ s.clock < 2 ^ 31
  named : ∀ f ∈ s.files, ∃ w, f.path = S.filePath w
  times : ∀ b ∈ s.builds, 0 ≤ b.time ∧ b.time ≤ s.clock
  kept : ∀ b ∈ s.builds, b.time < s.clock - S.docLifeTime ∨
    ∃ w, InWindow S s.files w b.req ∧ (b.time ≤ w.timeEnd.toNat ∨ s.restarted = some b.time)

variable {P S}

theorem InWindow.write {files : List LogFile} {w w' : Window} {req req' : StoryAddingRequest}
    {now : Int} (there : InWindow S files w req) :
    InWindow S (S.write w' files req' now).2 w req := by
  obtain ⟨f, inside, path, e, mem, same⟩ := there
  obtain ⟨f', inside', path', more⟩ := appendEntry_keeps inside
  exact ⟨f', inside', path'.trans path, e, more mem, same⟩

theorem inWindow_write (w : Window) (files : List LogFile) (req : StoryAddingRequest) (now : Int) :
    InWindow S (S.write w files req now).2 (S.write w files req now).1 req := by
  obtain ⟨f, inside, path, mem⟩ := exists_appendEntry
    (S.filePath (S.write w files req now).1) ⟨UInt32.ofInt now, req⟩ files
  exact ⟨f, inside, path, _, mem, rfl⟩

theorem Covered.addStory {s : Engine W} {req : StoryAddingRequest} {now : Int}
    (covered : Covered S s) (onTime : OnTime s (.addStory req now)) :
    Covered S (s.addStory P S req now) := by
  obtain ⟨later, small⟩ := onTime
  have nonneg := covered.clock.1.trans later
  refine ⟨⟨nonneg, small⟩, ?_, ?_, ?_⟩
  · intro f inside
    rcases path_appendEntry inside with path | ⟨g, old, path⟩
    · exact ⟨_, path⟩
    · obtain ⟨w, named⟩ := covered.named g old
      exact ⟨w, path.symm.trans named⟩
  · intro b mem
    rcases List.mem_cons.mp mem with rfl | old
    · exact ⟨nonneg, le_refl _⟩
    · exact ⟨(covered.times b old).1, (covered.times b old).2.trans later⟩
  · intro b mem
    rcases List.mem_cons.mp mem with rfl | old
    · exact Or.inr ⟨_, inWindow_write s.window s.files req now,
        Or.inl (S.window_covers nonneg small s.window)⟩
    · rcases covered.kept b old with expired | ⟨w, there, timely⟩
      · exact Or.inl (by show b.time < now - _; omega)
      · exact Or.inr ⟨w, there.write, timely⟩

/-- A pass: a story whose file goes is older than the check point, because its
file is or because the restart that built it is. -/
theorem Covered.pass {s : Engine W} {now logNow : Int} (covered : Covered S s)
    (onTime : OnTime s (.pass now logNow)) (keeps : KeepsReplayed S s (.pass now logNow)) :
    Covered S (s.pass P S now logNow) := by
  obtain ⟨later, inPass, small⟩ := onTime
  obtain ⟨positive, spared⟩ := keeps
  refine ⟨⟨by have := covered.clock.1; show 0 ≤ logNow; omega, small⟩,
    fun f inside => covered.named f (List.mem_of_mem_filter inside), ?_, ?_⟩
  · intro b mem
    have := covered.times b mem
    exact ⟨this.1, by show b.time ≤ logNow; omega⟩
  · intro b mem
    rcases covered.kept b mem with expired | ⟨w, ⟨f, inside, path, record⟩, timely⟩
    · exact Or.inl (by show b.time < logNow - _; omega)
    · by_cases gone : (w.timeEnd.toNat : Int) < logNow - S.docLifeTime
      · left
        show b.time < logNow - S.docLifeTime
        rcases timely with fresh | replayed
        · omega
        · by_contra alive
          have := spared b.time replayed (by omega) f inside w path
          omega
      · have kept : f ∈ S.cleanReplayLog s.files logNow :=
          (S.mem_cleanReplayLog positive small path).mpr ⟨inside, by omega⟩
        exact Or.inr ⟨w, ⟨f, kept, path, record⟩, timely⟩

/-! ## The restart -/

/-- What replaying a list of stories adds to an engine. -/
theorem replay_spec (now : Int) (reqs : List StoryAddingRequest) (s : Engine W) :
    let out := reqs.foldl (build P S now) s
    (out.files = s.files ∧ out.clock = s.clock ∧ out.restarted = s.restarted) ∧
      (∀ b ∈ out.builds, b ∈ s.builds ∨ b.time = now ∧ b.req ∈ reqs) ∧
      (∀ req k, Indexed P s req k → Indexed P out req k) ∧
      ∀ req ∈ reqs, ∀ k ∈ req.story.keywords, Indexed P out req k := by
  induction reqs generalizing s with
  | nil => exact ⟨⟨rfl, rfl, rfl⟩, fun b mem => Or.inl mem, fun _ _ there => there, by simp⟩
  | cons req reqs ih =>
      obtain ⟨frame, new, older, all⟩ := ih (s.build P S now req)
      have keeps : ∀ req' k, Indexed P s req' k → Indexed P (s.build P S now req) req' k := by
        rintro req' k ⟨b, mem, same, p, posting, posted⟩
        exact ⟨b, List.mem_cons_of_mem _ mem, same, p, posting,
          IndexMachine.posted_addStoryInternal.mpr (Or.inl posted)⟩
      have first : ∀ k ∈ req.story.keywords, Indexed P (s.build P S now req) req k := by
        intro k inside
        obtain ⟨weight, found⟩ := Std.ExtTreeMap.isSome_getElem?_iff_mem.mpr inside |>
          Option.isSome_iff_exists.mp
        refine ⟨_, List.mem_cons_self, rfl, ⟨s.index.localDocidCounter, P.floatOfInt32 weight,
          Int32.ofInt now⟩, ?_, IndexMachine.posted_addStoryInternal.mpr (Or.inr ?_)⟩
        · simp [BuiltStory.posting, BuiltStory.keywords, found]
        · simp [IndexMachine.newPosting_const, found]
      refine ⟨frame, ?_, fun req' k there => older req' k (keeps req' k there), ?_⟩
      · intro b mem
        rcases new b mem with here | ⟨time, mem⟩
        · rcases List.mem_cons.mp here with rfl | old
          · exact Or.inr ⟨rfl, by simp⟩
          · exact Or.inl old
        · exact Or.inr ⟨time, List.mem_cons_of_mem _ mem⟩
      · intro req' mem k inside
        rcases List.mem_cons.mp mem with rfl | rest
        · exact older req' k (first k inside)
        · exact all req' rest k inside

omit [Inhabited W] in
theorem mem_logged {files : List LogFile} {req : StoryAddingRequest} :
    req ∈ logged S files ↔ ∃ f ∈ files, ∃ e ∈ f.entries, e.req = req := by
  simp [logged, (S.listsAll files).mem_iff]

theorem Covered.restart {s : Engine W} {now : Int} (covered : Covered S s)
    (onTime : OnTime s (.restart now)) : Covered S (s.restart P S now) := by
  obtain ⟨later, small⟩ := onTime
  have nonneg := covered.clock.1.trans later
  obtain ⟨⟨files, clock, restarted⟩, new, -⟩ := replay_spec (P := P) (S := S) now
    (logged S s.files) (newProcess S s.files now)
  have fromLog : ∀ b ∈ (s.restart P S now).builds, b.time = now ∧ b.req ∈ logged S s.files :=
    fun b mem => (new b mem).resolve_left (by simp [newProcess])
  refine ⟨?_, ?_, ?_, ?_⟩
  · rw [Engine.restart, clock]
    exact ⟨nonneg, small⟩
  · rw [Engine.restart, files]
    exact covered.named
  · intro b mem
    rw [(fromLog b mem).1, Engine.restart, clock]
    exact ⟨nonneg, le_refl _⟩
  · intro b mem
    obtain ⟨f, inside, record⟩ := mem_logged.mp (fromLog b mem).2
    obtain ⟨w, path⟩ := covered.named f inside
    rw [Engine.restart, clock, files, restarted, (fromLog b mem).1]
    exact Or.inr ⟨w, ⟨f, inside, path, record⟩, Or.inr rfl⟩

theorem Covered.step {s : Engine W} {op : EngineOp} (covered : Covered S s)
    (onTime : OnTime s op) (keeps : KeepsReplayed S s op) : Covered S (step P S s op) := by
  cases op with
  | addStory req now => exact covered.addStory onTime
  | pass now logNow => exact covered.pass onTime keeps
  | restart now => exact covered.restart onTime

end Engine

/-! ## A file removed while its stories are searched -/

namespace TwoRestarts

/-- UTC in January 1970; the months after it are given 31 days each. -/
def january (t : Nat) : Tm where
  tmYear := 70 + t / 32140800
  tmMon := t / 2678400 % 12
  tmMday := t / 86400 % 31 + 1
  tmHour := t / 3600 % 24
  tmMin := t / 60 % 60
  tmSec := t % 60

theorem january_inRange {t : Nat} (small : t < 2 ^ 32) : (january t).InRange := by
  constructor <;> simp only [january] <;> omega

theorem january_ordered {s t : Nat} (less : s < t) : (january s).fields < (january t).fields := by
  simp only [Tm.fields, january, List.cons_lt_cons_iff, List.not_lt_nil, and_false, or_false]
  -- The first field that differs decides; each is a quotient of the one below it.
  have next : ∀ c, s / c < t / c ∨ s / c = t / c := fun c =>
    Nat.lt_or_eq_of_le (Nat.div_le_div_right less.le)
  rcases next 32140800 with year | year
  · exact Or.inl (by omega)
  refine Or.inr ⟨by omega, ?_⟩
  rcases next 2678400 with mon | mon
  · exact Or.inl (by omega)
  refine Or.inr ⟨by omega, ?_⟩
  rcases next 86400 with mday | mday
  · exact Or.inl (by omega)
  refine Or.inr ⟨by omega, ?_⟩
  rcases next 3600 with hour | hour
  · exact Or.inl (by omega)
  refine Or.inr ⟨by omega, ?_⟩
  rcases next 60 with min | min
  · exact Or.inl (by omega)
  · exact Or.inr ⟨by omega, by omega⟩

def settings : LogSettings where
  zone := ⟨january, january_inRange, fun less _ => january_ordered less⟩
  replayLogDir := "./replay/".toList
  cleanDocInterval := 5
  docLifeTime := 10
  directoryOrder := id
  shortDir := by decide
  intervalRange := by decide
  lifeRange := by decide
  listsAll := fun _ => .refl _

def platform : Platform Int32 := ⟨fun s => s.length.toInt64, id⟩

def request : StoryAddingRequest := ⟨⟨"s", 0, "", "", (∅ : Keywords).insert 5 1⟩⟩

end TwoRestarts

end RecommEngine.Indexing
