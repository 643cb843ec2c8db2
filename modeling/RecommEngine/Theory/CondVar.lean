/-
# Theory.CondVar -- condition variables and the threads they owe a wake-up

A condition variable as the threads that wait on it and the threads that have
been signalled and not run since.  `signal` moves one waiting thread, any one, to
the ready ones; a spurious wake-up is a `signal` that nobody sent.

What threads wait for is counted: free slots, items in stock.  `Covers c n` says
that while some thread waits, every one of the `n` units there are has a ready
thread that will look at it.  A thread that waits because there is nothing, a
signal per new unit and a ready thread that consumes one unit all keep it; one
signal for several new units does not, unless nobody is left waiting.
-/
import Mathlib

namespace RecommEngine.Theory

set_option autoImplicit false

structure CondVar (τ : Type) where
  waiting : List τ := []
  ready : List τ := []
  deriving DecidableEq

namespace CondVar

variable {τ : Type}

def wait (c : CondVar τ) (thread : τ) : CondVar τ :=
  { c with waiting := c.waiting ++ [thread] }

/-- Which of the waiting threads is woken is up to `choice`. -/
def signal (c : CondVar τ) (choice : Nat) : CondVar τ :=
  match c.waiting[choice % c.waiting.length]? with
  | none => c
  | some thread =>
      ⟨c.waiting.eraseIdx (choice % c.waiting.length), c.ready ++ [thread]⟩

/-- The `i`-th ready thread runs. -/
def resume (c : CondVar τ) (i : Nat) : Option (τ × CondVar τ) :=
  c.ready[i]?.map fun thread => (thread, { c with ready := c.ready.eraseIdx i })

def broadcast (c : CondVar τ) : CondVar τ :=
  ⟨[], c.ready ++ c.waiting⟩

/-- The threads inside a wait. -/
def parties (c : CondVar τ) : List τ :=
  c.waiting ++ c.ready

/-- While a thread waits, the `n` units there are have a ready thread each. -/
def Covers (c : CondVar τ) (n : Nat) : Prop :=
  c.waiting ≠ [] → n ≤ c.ready.length

theorem Covers.mono {c : CondVar τ} {n m : Nat} (covers : c.Covers n) (fewer : m ≤ n) : c.Covers m :=
  fun waits => fewer.trans (covers waits)

theorem covers_zero (c : CondVar τ) : c.Covers 0 := fun _ => Nat.zero_le _

/-- A signal wakes one thread if there is one to wake. -/
theorem signal_cases (c : CondVar τ) (choice : Nat) :
    (c.waiting = [] ∧ c.signal choice = c) ∨
      ∃ i thread, i < c.waiting.length ∧
        c.signal choice = ⟨c.waiting.eraseIdx i, c.ready ++ [thread]⟩ := by
  unfold signal
  rcases waiter : c.waiting[choice % c.waiting.length]? with _ | thread
  · refine Or.inl ⟨?_, rfl⟩
    by_contra some
    have := Nat.mod_lt choice (List.length_pos_of_ne_nil some)
    have := List.getElem?_eq_none_iff.mp waiter
    omega
  · exact Or.inr ⟨_, thread, (List.getElem?_eq_some_iff.mp waiter).1, rfl⟩

theorem signal_of_none_waiting {c : CondVar τ} (none_ : c.waiting = []) (choice : Nat) :
    c.signal choice = c := by
  rcases c.signal_cases choice with ⟨-, same⟩ | ⟨i, thread, inside, -⟩
  · exact same
  · rw [none_] at inside
    cases inside

/-- A signal covers one more unit. -/
theorem Covers.signal {c : CondVar τ} {n : Nat} (covers : c.Covers n) (choice : Nat) :
    (c.signal choice).Covers (n + 1) := by
  rcases c.signal_cases choice with ⟨none, same⟩ | ⟨i, thread, inside, same⟩ <;> rw [same]
  · exact fun waits => absurd none waits
  · intro _
    have enough := covers (List.ne_nil_of_length_pos (by omega))
    simpa using enough

/-- A signal to a single waiter leaves nobody waiting. -/
theorem covers_signal_of_length_le_one {c : CondVar τ} (few : c.waiting.length ≤ 1) (choice n : Nat) :
    (c.signal choice).Covers n := by
  rcases c.signal_cases choice with ⟨none, same⟩ | ⟨i, thread, inside, same⟩ <;> rw [same]
  · exact fun waits => absurd none waits
  · intro waits
    refine absurd (List.eq_nil_of_length_eq_zero ?_) waits
    rw [List.length_eraseIdx, if_pos inside]
    omega

/-- A ready thread that runs covers no unit any more. -/
theorem Covers.resume {c c' : CondVar τ} {n i : Nat} {thread : τ} (covers : c.Covers n)
    (runs : c.resume i = some (thread, c')) : c'.Covers (n - 1) := by
  obtain ⟨thread', here, same⟩ := Option.map_eq_some_iff.mp runs
  obtain ⟨rfl, rfl⟩ := Prod.mk.inj same
  intro waits
  have inside := (List.getElem?_eq_some_iff.mp here).1
  have enough := covers waits
  show n - 1 ≤ (c.ready.eraseIdx i).length
  rw [List.length_eraseIdx, if_pos inside]
  omega

/-! ## Who is inside a wait -/

theorem signal_parties (c : CondVar τ) (choice : Nat) :
    (c.signal choice).parties.Perm c.parties := by
  unfold signal
  rcases waiter : c.waiting[choice % c.waiting.length]? with _ | thread
  · exact .refl _
  · obtain ⟨inside, here⟩ := List.getElem?_eq_some_iff.mp waiter
    have moved := List.getElem_cons_eraseIdx_perm inside
    rw [here] at moved
    rw [parties, parties, ← List.append_assoc]
    refine List.Perm.trans ?_ (moved.append_right c.ready)
    exact List.perm_append_comm

theorem broadcast_parties (c : CondVar τ) : c.broadcast.parties.Perm c.parties := by
  show (c.ready ++ c.waiting).Perm (c.waiting ++ c.ready)
  exact List.perm_append_comm

theorem wait_parties (c : CondVar τ) (thread : τ) :
    (c.wait thread).parties.Perm (thread :: c.parties) := by
  rw [parties, parties, wait, List.append_assoc]
  exact List.perm_middle

/-- A thread that is ready runs, and is outside then. -/
theorem resume_idxOf [DecidableEq τ] {c : CondVar τ} {thread : τ} (ready : thread ∈ c.ready) :
    ∃ c', c.resume (c.ready.idxOf thread) = some (thread, c') ∧ c'.waiting = c.waiting ∧
      c.parties.Perm (thread :: c'.parties) := by
  have inside := List.idxOf_lt_length_of_mem ready
  have here : c.ready[c.ready.idxOf thread] = thread := List.getElem_idxOf inside
  have moved := List.getElem_cons_eraseIdx_perm inside
  rw [here] at moved
  refine ⟨⟨c.waiting, c.ready.eraseIdx (c.ready.idxOf thread)⟩, ?_, rfl, ?_⟩
  · rw [resume, List.getElem?_eq_getElem inside, here]
    rfl
  · exact (moved.symm.append_left c.waiting).trans List.perm_middle

theorem resume_idxOf_of_not_mem [DecidableEq τ] {c : CondVar τ} {thread : τ} (out : thread ∉ c.ready) :
    c.resume (c.ready.idxOf thread) = none := by
  rw [resume, List.idxOf_eq_length out, List.getElem?_eq_none le_rfl]
  rfl

end CondVar

end RecommEngine.Theory
