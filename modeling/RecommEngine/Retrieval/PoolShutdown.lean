/-
# Retrieval.PoolShutdown -- how the pool of the asynchronous search ends

The events of `Retrieval.SearchPool`, from the flush of the list on.

* `pool_stops`: once the list is flushed, two turns of each thread are enough for all of
  them to end, whatever else happens, and `deactivate` returns.
* `comes_down_iff`: `main` ignores a failed `open`.  Once the barrier is initialised, it
  comes to its end exactly if all threads could be created; otherwise it never gets
  past `activate`, and nothing is searched.
-/
import RecommEngine.Retrieval.SearchPool

namespace RecommEngine.Retrieval

set_option autoImplicit false

open Theory Theory.Run

namespace RetrievalSearch

variable {T : Type} [DecidableEq T]

/-! ## After the flush -/

/-- The list is flushed, and every thread inside a wait has been woken. -/
structure Stopping (s : RetrievalSearch T) : Prop where
  main : (∃ i, s.main = .joining i) ∨ s.main = .joined
  released : s.Released
  dead : s.taskList.alive = false
  waiting : s.cond.waiting = []
  ready : ∀ i : Nat, s.threads[i]? = some .inWait → i ∈ s.cond.ready
  sound : Svc.crashed ∉ s.threads

omit [DecidableEq T] in
theorem Searches.stopping {s : RetrievalSearch T} {queued : List T} (searches : s.Searches queued)
    (main : (∃ i, s.main = .joining i) ∨ s.main = .joined) : s.Stopping := by
  have stage : s.Released ∧ s.taskList.alive = false := by
    have stage := searches.stage
    unfold Stage at stage
    rcases main with ⟨i, is⟩ | is <;> rw [is] at stage <;> exact stage
  have nobody := searches.pooled.flushed stage.2
  refine ⟨main, stage.1, stage.2, nobody, ?_, searches.pooled.sound⟩
  intro i waits
  have party := (searches.pooled.inWait i).mpr waits
  rwa [CondVar.parties, nobody, List.nil_append] at party

/-- How many turns a thread has left after the flush. -/
def Svc.turns : Svc T → Nat
  | .searching _ => 2
  | .atGet | .inWait => 1
  | _ => 0

def turns (s : RetrievalSearch T) (i : Nat) : Nat :=
  (s.threads[i]?.map Svc.turns).getD 0

theorem Stopping.get {s : RetrievalSearch T} (dead : s.taskList.alive = false) (i : Nat) :
    s.get i = { s with threads := s.threads.set i .finished } := by
  have found : s.taskList.get = (.returned none, s.taskList) := by
    simp [WaitList.get, WaitList.take, dead]
  unfold RetrievalSearch.get
  rw [found]

/-- A turn of a thread after the flush: it moves to `t`, which has fewer turns left. -/
theorem Stopping.svc {s : RetrievalSearch T} (stopping : s.Stopping) (i : Nat) :
    (s.svc i = s ∧ s.turns i = 0) ∨
      ∃ cond t, s.svc i = { s with cond, threads := s.threads.set i t } ∧ i < s.threads.length ∧
        (t = .finished ∨ t = .atGet) ∧ Svc.turns t < s.turns i ∧ cond.waiting = [] ∧
        ∀ j, j ≠ i → j ∈ s.cond.ready → j ∈ cond.ready := by
  cases here : s.threads[i]? with
  | none => exact Or.inl ⟨by simp [RetrievalSearch.svc, here], by simp [turns, here]⟩
  | some t =>
      have inside := (List.getElem?_eq_some_iff.mp here).1
      cases t with
      | created => exact absurd rfl (stopping.released _ (List.mem_of_getElem? here)).1
      | atBarrier => exact absurd rfl (stopping.released _ (List.mem_of_getElem? here)).2
      | atGet =>
          refine Or.inr ⟨s.cond, .finished, ?_, inside, Or.inl rfl, ?_, stopping.waiting, fun _ _ => id⟩
          · simp [RetrievalSearch.svc, here, Stopping.get stopping.dead]
          · simp [turns, here, Svc.turns]
      | inWait =>
          obtain ⟨cond, runs, same, perm⟩ := CondVar.resume_idxOf (stopping.ready i here)
          refine Or.inr ⟨cond, .finished, ?_, inside, Or.inl rfl, ?_, same.trans stopping.waiting, ?_⟩
          · simp [RetrievalSearch.svc, here, runs, Stopping.get (s := { s with cond }) stopping.dead]
          · simp [turns, here, Svc.turns]
          · intro j other ready
            have party := perm.mem_iff.mp (List.mem_append_right s.cond.waiting ready)
            rcases List.mem_cons.mp party with is | later
            · exact absurd is other
            · rwa [CondVar.parties, same, stopping.waiting] at later
      | searching worker =>
          refine Or.inr ⟨s.cond, .atGet, ?_, inside, Or.inr rfl, ?_, stopping.waiting, fun _ _ => id⟩
          · simp [RetrievalSearch.svc, here]
          · simp [turns, here, Svc.turns]
      | finished => exact Or.inl ⟨by simp [RetrievalSearch.svc, here], by simp [turns, here, Svc.turns]⟩
      | crashed => exact absurd (List.mem_of_getElem? here) stopping.sound

/-- The event is a turn of the `i`-th thread. -/
def isTurn (i : Nat) : Event T → Bool
  | .svc j => j == i
  | _ => false

/-- After the flush an event is a turn of a thread, or `main` goes on, or nothing. -/
theorem Stopping.step_cases {s : RetrievalSearch T} (stopping : s.Stopping) (e : Event T) :
    (∃ i, e = .svc i) ∨ (∀ i, isTurn i e = false) ∧
      ∃ main, s.step e = { s with main } ∧ ((∃ i, main = .joining i) ∨ main = .joined) := by
  have same : ∀ {t}, t = s → ∃ main, t = { s with main } ∧ ((∃ i, main = .joining i) ∨ main = .joined) :=
    fun is => ⟨s.main, is, stopping.main⟩
  have nobody := CondVar.signal_of_none_waiting stopping.waiting
  cases e with
  | openPool call =>
      refine Or.inr ⟨fun _ => rfl, same ?_⟩
      rcases stopping.main with ⟨i, is⟩ | is <;> simp [RetrievalSearch.step, is]
  | activate =>
      refine Or.inr ⟨fun _ => rfl, same ?_⟩
      rcases stopping.main with ⟨i, is⟩ | is <;> simp [RetrievalSearch.step, is]
  | deactivate =>
      refine Or.inr ⟨fun _ => rfl, same ?_⟩
      rcases stopping.main with ⟨i, is⟩ | is <;> simp [RetrievalSearch.step, is]
  | join =>
      refine Or.inr ⟨fun _ => rfl, ?_⟩
      rcases stopping.main with ⟨i, is⟩ | is
      · have joins : s.step .join = s.join i := by simp [RetrievalSearch.step, is]
        rw [joins]
        unfold RetrievalSearch.join
        split
        · exact ⟨.joined, rfl, Or.inr rfl⟩
        · exact ⟨.joining (i + 1), rfl, Or.inl ⟨_, rfl⟩⟩
        · exact same rfl
      · exact same (by simp [RetrievalSearch.step, is])
  | put worker wake =>
      refine Or.inr ⟨fun _ => rfl, same ?_⟩
      simp [RetrievalSearch.step, RetrievalSearch.put, WaitList.put, stopping.dead, nobody]
  | svc i => exact Or.inl ⟨i, rfl⟩
  | spurious wake => exact Or.inr ⟨fun _ => rfl, same (by simp [RetrievalSearch.step, nobody])⟩

theorem Stopping.step {s : RetrievalSearch T} (stopping : s.Stopping) (e : Event T) :
    (s.step e).Stopping ∧ (s.step e).taken = s.taken ∧ (s.step e).threads.length = s.threads.length := by
  rcases stopping.step_cases e with ⟨i, rfl⟩ | ⟨-, main, same, ends⟩
  · rcases stopping.svc i with ⟨same, -⟩ | ⟨cond, t, same, inside, moves, -, waiting, others⟩
    · rw [RetrievalSearch.step, same]
      exact ⟨stopping, rfl, rfl⟩
    · rw [RetrievalSearch.step, same]
      have started : t ≠ .created ∧ t ≠ .atBarrier ∧ t ≠ .inWait ∧ t ≠ .crashed := by
        rcases moves with rfl | rfl <;> simp
      refine ⟨⟨stopping.main, stopping.released.set started.1 started.2.1 rfl, stopping.dead, waiting, ?_, ?_⟩,
        rfl, List.length_set⟩
      · intro j waits
        dsimp only at waits
        rw [List.getElem?_set] at waits
        split at waits
        · exact absurd (Option.some.inj waits) started.2.2.1
        · rename_i other
          exact others j (Ne.symm other) (stopping.ready j waits)
      · intro is
        rcases List.mem_or_eq_of_mem_set is with old | new
        · exact stopping.sound old
        · exact started.2.2.2 new.symm
  · rw [same]
    exact ⟨⟨ends, stopping.released, stopping.dead, stopping.waiting, stopping.ready, stopping.sound⟩, rfl, rfl⟩

theorem Stopping.turns_step {s : RetrievalSearch T} (stopping : s.Stopping) (i : Nat) (e : Event T) :
    (s.step e).turns i ≤ s.turns i - if isTurn i e then 1 else 0 := by
  rcases stopping.step_cases e with ⟨j, rfl⟩ | ⟨idle, main, same, -⟩
  · rcases stopping.svc j with ⟨same, done⟩ | ⟨cond, t, same, inside, -, fewer, -, -⟩
    · rw [RetrievalSearch.step, same]
      by_cases is : j = i
      · subst is
        omega
      · simp [isTurn, is]
    · rw [RetrievalSearch.step, same]
      by_cases is : j = i
      · subst is
        have now : turns { s with cond, threads := s.threads.set j t } j = Svc.turns t := by
          simp [turns, inside]
        simp only [isTurn, beq_self_eq_true, if_true]
        omega
      · have kept : turns { s with cond, threads := s.threads.set j t } i = s.turns i := by
          simp [turns, List.getElem?_set_ne is]
        simp [isTurn, is, kept]
  · rw [same]
    simp [idle i, turns]

/-- Two turns of a thread are enough. -/
theorem all_finish {s : RetrievalSearch T} (stopping : s.Stopping) {es : List (Event T)}
    (scheduled : ∀ i < s.threads.length, 2 ≤ es.countP (isTurn i)) :
    let s' := run step s es
    s'.Stopping ∧ s'.taken = s.taken ∧ s'.threads.length = s.threads.length ∧
      ∀ t ∈ s'.threads, t = .finished := by
  intro s'
  have kept : s'.Stopping ∧ s'.taken = s.taken ∧ s'.threads.length = s.threads.length := by
    have always : Along step (fun _ _ => True) s es := along_iff.mpr fun _ _ _ => trivial
    refine Along.invariant (C := fun _ _ => True)
      (I := fun t => t.Stopping ∧ t.taken = s.taken ∧ t.threads.length = s.threads.length)
      ?_ ⟨stopping, rfl, rfl⟩ always
    rintro t e ⟨stops, taken, length⟩ -
    obtain ⟨stops', taken', length'⟩ := stops.step e
    exact ⟨stops', taken'.trans taken, length'.trans length⟩
  refine ⟨kept.1, kept.2.1, kept.2.2, ?_⟩
  intro t inside
  obtain ⟨i, here⟩ := List.mem_iff_getElem?.mp inside
  have within : i < s.threads.length := kept.2.2 ▸ (List.getElem?_eq_some_iff.mp here).1
  have used := run_rank (I := Stopping) (fun t => turns t i) (isTurn i)
    (fun t e stops => (stops.step e).1) (fun t e stops => stops.turns_step i e) stopping es
  have atMost : s.turns i ≤ 2 := by
    unfold turns
    rcases s.threads[i]? with _ | t
    · simp
    · cases t <;> simp [Svc.turns]
  have enough := scheduled i within
  have none_ : Svc.turns t = 0 := by
    have now : s'.turns i = Svc.turns t := by simp [turns, here]
    have bound : s'.turns i ≤ s.turns i - es.countP (isTurn i) := used
    omega
  have released := kept.1.released t inside
  cases t with
  | created => exact absurd rfl released.1
  | atBarrier => exact absurd rfl released.2
  | atGet => cases none_
  | inWait => cases none_
  | searching worker => cases none_
  | finished => rfl
  | crashed => exact absurd inside kept.1.sound

/-- `join` passes the threads that have finished. -/
theorem joins {s : RetrievalSearch T} (finished : ∀ t ∈ s.threads, t = .finished) {n : Nat}
    (main : (∃ i, s.main = .joining i ∧ s.threads.length < i + n ∧ 0 < n) ∨ s.main = .joined) :
    (run step s (List.replicate n .join)).main = .joined := by
  induction n generalizing s with
  | zero =>
      rcases main with ⟨i, is, -, some_⟩ | is
      · cases some_
      · exact is
  | succ n ih =>
      rw [List.replicate_succ, run_cons]
      rcases main with ⟨i, is, enough, -⟩ | is
      · have turn : s.step .join = s.join i := by simp [step, is]
        rw [turn, join]
        cases here : s.threads[i]? with
        | none => exact ih finished (Or.inr rfl)
        | some t =>
            have inside := (List.getElem?_eq_some_iff.mp here).1
            obtain rfl := finished t (List.mem_of_getElem? here)
            refine ih finished (Or.inl ⟨i + 1, rfl, ?_, ?_⟩)
            · dsimp only
              omega
            · omega
      · have still : s.step .join = s := by simp [step, is]
        rw [still]
        exact ih finished (Or.inr is)

theorem Stopping.stops {s : RetrievalSearch T} (stopping : s.Stopping) {later : List (Event T)}
    (scheduled : ∀ j < s.threads.length, 2 ≤ later.countP (isTurn j)) :
    let s' := run RetrievalSearch.step s later
    (∀ t ∈ s'.threads, t = .finished) ∧ s'.taken = s.taken ∧
      (run RetrievalSearch.step s' (List.replicate (s.threads.length + 1) .join)).main = .joined := by
  intro s'
  obtain ⟨stopping', taken, length, finished⟩ := all_finish stopping scheduled
  refine ⟨finished, taken, joins finished ?_⟩
  rcases stopping'.main with ⟨j, is⟩ | is
  · refine Or.inl ⟨j, is, ?_, Nat.succ_pos _⟩
    rw [length]
    omega
  · exact Or.inr is

/-- **The pool stops.**  Once `deactivate` has flushed the list, in a run that has put no worker
while it was linked, and whatever was signalled or woken before and is put since: when
each thread has had two turns, all have ended, no further worker was taken, and `join`
returns. -/
theorem pool_stops (next prev : LinkedListNode T → LinkedListNode T) (es : List (Event T))
    (allowed : Along step Allowed (construct next prev) es) (i : Nat)
    (deactivated : (run step (construct next prev) es).main = .joining i) (later : List (Event T))
    (scheduled : ∀ j < (run step (construct next prev) es).threads.length, 2 ≤ later.countP (isTurn j)) :
    let s := run step (construct next prev) es
    let s' := run step s later
    (∀ t ∈ s'.threads, t = .finished) ∧ s'.taken = s.taken ∧
      (run step s' (List.replicate (s.threads.length + 1) .join)).main = .joined := by
  obtain ⟨queued, searches, -⟩ := searches_run (searches_construct next prev) allowed
  exact (searches.stopping (Or.inl ⟨i, deactivated⟩)).stops scheduled

/-! ## A pool that lacks a thread -/

/-- The barrier waits for a thread that was not created. -/
structure Stuck (s : RetrievalSearch T) (b : Barrier) (extra : Nat) : Prop where
  taken : s.taken = []
  gate : s.AtGate b extra
  missing : s.threads.length + 1 < b.count
  main : extra = 0 ∧ s.main = .opened (-1) ∨ extra = 1 ∧ s.main = .activating

theorem Stuck.svc {s : RetrievalSearch T} {b : Barrier} {extra : Nat} (stuck : s.Stuck b extra) (i : Nat) :
    ∃ b, (s.svc i).Stuck b extra := by
  rcases stuck.gate.svc i with ⟨same, -⟩ | ⟨here, same⟩
  · rw [same]
    exact ⟨b, stuck⟩
  · rw [same]
    rcases stuck.gate.thread (stuck.main.imp And.left id) here with ⟨-, -, -, full⟩ | ⟨main, threads, gate⟩
    · have := stuck.missing
      omega
    · refine ⟨_, (taken_arrive _).trans stuck.taken, gate, ?_, ?_⟩
      · rw [threads, List.length_set]
        exact stuck.missing
      · rw [main]
        exact stuck.main

omit [DecidableEq T] in
theorem Stuck.activate {s : RetrievalSearch T} {b : Barrier} (stuck : s.Stuck b 0) :
    ∃ b, s.activate.Stuck b 1 := by
  have missing := stuck.missing
  rcases stuck.gate.activate with ⟨-, -, full⟩ | ⟨activating, threads, gate⟩
  · omega
  · exact ⟨_, (taken_arrive _).trans stuck.taken, gate, by rw [threads]; exact missing,
      Or.inr ⟨rfl, activating⟩⟩

omit [DecidableEq T] in
/-- What somebody else does to the list. -/
theorem Stuck.aside {s s' : RetrievalSearch T} {b : Barrier} {extra : Nat} (stuck : s.Stuck b extra)
    (barrier : s'.barrier = s.barrier) (threads : s'.threads = s.threads) (main : s'.main = s.main)
    (taken : s'.taken = s.taken) : s'.Stuck b extra where
  taken := taken.trans stuck.taken
  gate := stuck.gate.same threads barrier
  missing := by
    rw [threads]
    exact stuck.missing
  main := by
    rw [main]
    exact stuck.main

theorem Stuck.step {s : RetrievalSearch T} {b : Barrier} {extra : Nat} (stuck : s.Stuck b extra)
    (e : Event T) : ∃ b extra, (s.step e).Stuck b extra := by
  have still : ∀ {t}, t = s → ∃ b extra, t.Stuck b extra := fun same => ⟨b, extra, same ▸ stuck⟩
  cases e with
  | openPool call =>
      apply still
      rcases stuck.main with ⟨-, is⟩ | ⟨-, is⟩ <;> simp [RetrievalSearch.step, is]
  | activate =>
      rcases stuck.main with ⟨rfl, is⟩ | ⟨-, is⟩
      · have turn : s.step .activate = s.activate := by simp [RetrievalSearch.step, is]
        obtain ⟨b', stuck'⟩ := stuck.activate
        rw [turn]
        exact ⟨b', 1, stuck'⟩
      · exact still (by simp [RetrievalSearch.step, is])
  | deactivate =>
      apply still
      rcases stuck.main with ⟨-, is⟩ | ⟨-, is⟩ <;> simp [RetrievalSearch.step, is]
  | join =>
      apply still
      rcases stuck.main with ⟨-, is⟩ | ⟨-, is⟩ <;> simp [RetrievalSearch.step, is]
  | put worker wake => exact ⟨b, extra, stuck.aside rfl rfl rfl rfl⟩
  | svc i =>
      obtain ⟨b', stuck'⟩ := stuck.svc i
      exact ⟨b', extra, stuck'⟩
  | spurious wake => exact ⟨b, extra, stuck.aside rfl rfl rfl rfl⟩

/-- A thread that has its turn is at the barrier then. -/
theorem AtGate.turn {s : RetrievalSearch T} {b : Barrier} {ret : Int} (gate : s.AtGate b 0)
    (main : s.main = .opened ret) (j : Nat) :
    (s.svc j).main = .opened ret ∧ (s.svc j).threads.length = s.threads.length ∧
      (∃ b', (s.svc j).AtGate b' 0 ∧ b'.count = b.count) ∧
      ∀ i < s.threads.length, i = j ∨ s.threads[i]? = some .atBarrier →
        (s.svc j).threads[i]? = some .atBarrier := by
  rcases gate.svc j with ⟨same, moved⟩ | ⟨here, same⟩
  · rw [same]
    refine ⟨main, rfl, ⟨b, gate, rfl⟩, ?_⟩
    rintro i inside (rfl | there)
    · rw [List.getElem?_eq_getElem inside] at moved ⊢
      rcases gate.before _ (List.getElem_mem inside) with is | is
      · exact absurd (congrArg some is) moved
      · exact congrArg some is
    · exact there
  · rw [same]
    rcases gate.thread (Or.inl rfl) here with ⟨activating, -⟩ | ⟨main', threads, gate'⟩
    · rw [main] at activating
      cases activating
    · refine ⟨main'.trans main, by rw [threads, List.length_set], ⟨_, gate', rfl⟩, ?_⟩
      intro i inside there
      rw [threads, List.getElem?_set]
      by_cases is : j = i
      · subst is
        simp [inside]
      · rw [if_neg is]
        exact there.resolve_left (Ne.symm is)

/-- The threads arrive at the barrier, in any order. -/
theorem AtGate.turns {s : RetrievalSearch T} {b : Barrier} {ret : Int} (gate : s.AtGate b 0)
    (main : s.main = .opened ret) (turns : List Nat) :
    let s' := run RetrievalSearch.step s (turns.map .svc)
    s'.main = .opened ret ∧ s'.threads.length = s.threads.length ∧
      (∃ b', s'.AtGate b' 0 ∧ b'.count = b.count) ∧
      ∀ i < s.threads.length, i ∈ turns ∨ s.threads[i]? = some .atBarrier →
        s'.threads[i]? = some .atBarrier := by
  induction turns generalizing s b with
  | nil => exact ⟨main, rfl, ⟨b, gate, rfl⟩, fun i _ there => there.resolve_left (by simp)⟩
  | cons j turns ih =>
      obtain ⟨main', length, ⟨b', gate', count⟩, arrived⟩ := gate.turn main j
      obtain ⟨main'', length', ⟨b'', gate'', count'⟩, arrived'⟩ := ih gate' main'
      rw [List.map_cons, run_cons]
      refine ⟨main'', length'.trans length, ⟨b'', gate'', count'.trans count⟩, ?_⟩
      intro i inside there
      apply arrived' i (length ▸ inside)
      rcases there with turn | before
      · rcases List.mem_cons.mp turn with now | later
        · exact Or.inr (arrived i inside (Or.inl now))
        · exact Or.inl later
      · exact Or.inr (arrived i inside (Or.inr before))

/-- All threads arrive and `main` comes last. -/
theorem AtGate.opens {s : RetrievalSearch T} {b : Barrier} {ret : Int} (gate : s.AtGate b 0)
    (main : s.main = .opened ret) (full : b.count = s.threads.length + 1) :
    (run RetrievalSearch.step s ((List.range s.threads.length).map .svc ++ [.activate])).main = .active := by
  obtain ⟨main', length, ⟨b', gate', count⟩, arrived⟩ := gate.turns main (List.range s.threads.length)
  rw [run_snoc]
  generalize ended : run RetrievalSearch.step s ((List.range s.threads.length).map .svc) = s' at *
  have turn : s'.step .activate = s'.activate := by simp [RetrievalSearch.step, main']
  have all : s'.threads.countP Svc.waitsAtBarrier = s'.threads.length := by
    rw [List.countP_eq_length]
    intro t inside
    obtain ⟨i, here⟩ := List.mem_iff_getElem?.mp inside
    have within : i < s.threads.length := length ▸ (List.getElem?_eq_some_iff.mp here).1
    rw [arrived i within (Or.inl (List.mem_range.mpr within))] at here
    rw [← Option.some.inj here]
    rfl
  rw [turn]
  rcases gate'.activate with ⟨active, -, -⟩ | ⟨-, -, closed⟩
  · exact active
  · have := gate'.arrived
    have : b'.arrived + 1 < b'.count := closed.closed
    omega

end RetrievalSearch

/-! ## Poles -/

namespace TwoThreads

open RetrievalSearch

/-- The list is flushed while one thread searches and the other waits. -/
def flushed : List (Event Nat) := searching ++ [.deactivate]

/-- Both get their turns, and somebody still puts a worker. -/
def turns : List (Event Nat) := [.svc 1, .svc 0, .put 9 0, .svc 1, .svc 0]

theorem pool_stops_two :
    let s := run step (construct unset unset) flushed
    let s' := run step s turns
    s.threads = [.searching 7, .inWait] ∧
    (∀ t ∈ s'.threads, t = .finished) ∧ s'.taken = s.taken ∧
      (run step s' (List.replicate (s.threads.length + 1) .join)).main = .joined :=
  ⟨by decide, pool_stops unset unset flushed (searching_allowed _ (by simp)) 0 (by decide) turns (by decide)⟩

end TwoThreads

end RecommEngine.Retrieval
