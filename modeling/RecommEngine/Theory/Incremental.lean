/-
# Theory.Incremental -- a machine on a buffer that grows at its end

A machine takes what it needs from the front of a buffer, or waits.  More bytes
may be appended while it waits.  Two facts are asked of it: what it does on a
buffer it does on every longer one (`stable`), and it cannot go on for ever on
one buffer (`descends`; `weight` pays for steps that take nothing).

`Steps` is a run of the machine on the bytes it has, `drain` the run that ends
where it waits.  The results are

* `Steps.append`: a run is a run on every longer buffer;
* `Steps.drain`: a run leads into the run that ends where the machine waits;
* `drain_append`: draining a buffer, and again once more has come, is draining
  all of it at once;
* `receiveAll_eq`: so the way a stream is cut into pieces does not matter.
-/
import Mathlib

namespace RecommEngine.Theory

set_option autoImplicit false

/-- `step` gives the next state, what is put out, and the rest of the buffer. -/
structure Incremental (σ β ω : Type) where
  step : σ → List β → Option (σ × List ω × List β)
  weight : σ → Nat
  descends : ∀ {s s' : σ} {buf rest : List β} {out : List ω}, step s buf = some (s', out, rest) →
    rest.length + weight s' < buf.length + weight s
  stable : ∀ {s s' : σ} {buf rest : List β} {out : List ω} (more : List β),
    step s buf = some (s', out, rest) → step s (buf ++ more) = some (s', out, rest ++ more)

namespace Incremental

variable {σ β ω : Type} (m : Incremental σ β ω)

/-- A machine and what is left of its buffer. -/
structure Config (σ β : Type) where
  state : σ
  buf : List β

/-- A run of the machine, with all it puts out. -/
inductive Steps : Config σ β → List ω → Config σ β → Prop
  | refl (c : Config σ β) : Steps c [] c
  | head {s s' : σ} {buf rest : List β} {out outs : List ω} {c : Config σ β}
      (first : m.step s buf = some (s', out, rest)) (then_ : Steps ⟨s', rest⟩ outs c) :
      Steps ⟨s, buf⟩ (out ++ outs) c

/-- The machine can do nothing with the bytes it has. -/
def Waits (c : Config σ β) : Prop :=
  m.step c.state c.buf = none

/-- The buffer once more has come. -/
def Config.more (c : Config σ β) (bytes : List β) : Config σ β :=
  { c with buf := c.buf ++ bytes }

@[simp] theorem Config.more_nil (c : Config σ β) : c.more [] = c := by
  simp [Config.more]

@[simp] theorem Config.more_more (c : Config σ β) (bytes bytes' : List β) :
    (c.more bytes).more bytes' = c.more (bytes ++ bytes') := by
  simp [Config.more]

variable {m}

theorem Steps.single {s s' : σ} {buf rest : List β} {out : List ω}
    (step : m.step s buf = some (s', out, rest)) : m.Steps ⟨s, buf⟩ out ⟨s', rest⟩ := by
  have run := Steps.head step (.refl _)
  rwa [List.append_nil] at run

theorem Steps.trans {c d e : Config σ β} {out outs : List ω} (run : m.Steps c out d)
    (run' : m.Steps d outs e) : m.Steps c (out ++ outs) e := by
  induction run with
  | refl c => exact run'
  | head first _ ih =>
      rw [List.append_assoc]
      exact .head first (ih run')

theorem Steps.append {c d : Config σ β} {out : List ω} (run : m.Steps c out d) (bytes : List β) :
    m.Steps (c.more bytes) out (d.more bytes) := by
  induction run with
  | refl c => exact .refl _
  | head first _ ih => exact .head (m.stable bytes first) ih

/-- A machine that waits goes nowhere. -/
theorem Steps.of_waits {c d : Config σ β} {out : List ω} (run : m.Steps c out d)
    (waits : m.Waits c) : d = c ∧ out = [] := by
  cases run with
  | refl _ => exact ⟨rfl, rfl⟩
  | head first _ =>
      rw [Waits, first] at waits
      cases waits

/-- Of two runs from one place the one that ends in waiting is the longer. -/
theorem Steps.split {c d e : Config σ β} {out outs : List ω} (run : m.Steps c out d)
    (whole : m.Steps c outs e) (waits : m.Waits e) :
    ∃ left, m.Steps d left e ∧ outs = out ++ left := by
  induction run generalizing outs with
  | refl c => exact ⟨outs, whole, rfl⟩
  | head first _ ih =>
      cases whole with
      | refl c =>
          rw [Waits, first] at waits
          cases waits
      | head first' rest =>
          rw [first] at first'
          cases first'
          obtain ⟨left, run, rfl⟩ := ih rest
          exact ⟨left, run, (List.append_assoc ..).symm⟩

theorem Steps.unique {c d e : Config σ β} {out outs : List ω} (run : m.Steps c out d)
    (run' : m.Steps c outs e) (waits : m.Waits d) (waits' : m.Waits e) : d = e ∧ out = outs := by
  obtain ⟨left, rest, rfl⟩ := run.split run' waits'
  obtain ⟨rfl, rfl⟩ := rest.of_waits waits
  exact ⟨rfl, (List.append_nil _).symm⟩

/-! ## Draining -/

variable (m)

def drainFor : Nat → Config σ β → List ω × Config σ β
  | 0, c => ([], c)
  | fuel + 1, c =>
      match m.step c.state c.buf with
      | none => ([], c)
      | some (s, out, rest) =>
          let (outs, d) := drainFor fuel ⟨s, rest⟩
          (out ++ outs, d)

/-- The machine goes on until it waits. -/
def drain (c : Config σ β) : List ω × Config σ β :=
  m.drainFor (c.buf.length + m.weight c.state) c

theorem drainFor_spec (fuel : Nat) (c : Config σ β) (enough : c.buf.length + m.weight c.state ≤ fuel) :
    m.Steps c (m.drainFor fuel c).1 (m.drainFor fuel c).2 ∧ m.Waits (m.drainFor fuel c).2 := by
  induction fuel generalizing c with
  | zero =>
      refine ⟨.refl c, ?_⟩
      cases next : m.step c.state c.buf with
      | none => exact next
      | some after =>
          have := m.descends next
          omega
  | succ fuel ih =>
      rw [drainFor]
      cases next : m.step c.state c.buf with
      | none => exact ⟨.refl c, next⟩
      | some after =>
          obtain ⟨s, out, rest⟩ := after
          have fewer := m.descends next
          obtain ⟨run, waits⟩ := ih ⟨s, rest⟩ (by show rest.length + m.weight s ≤ fuel; omega)
          exact ⟨.head next run, waits⟩

theorem drain_steps (c : Config σ β) : m.Steps c (m.drain c).1 (m.drain c).2 :=
  (m.drainFor_spec _ c le_rfl).1

theorem drain_waits (c : Config σ β) : m.Waits (m.drain c).2 :=
  (m.drainFor_spec _ c le_rfl).2

variable {m}

/-- Where a run ends in waiting, it is the run that drains the buffer. -/
theorem Steps.drain_eq {c d : Config σ β} {out : List ω} (run : m.Steps c out d)
    (waits : m.Waits d) : m.drain c = (out, d) := by
  obtain ⟨same, sameOut⟩ := run.unique (m.drain_steps c) waits (m.drain_waits c)
  exact Prod.ext sameOut.symm same.symm

theorem Steps.drain {c d : Config σ β} {out : List ω} (run : m.Steps c out d) :
    m.drain c = (out ++ (m.drain d).1, (m.drain d).2) :=
  (run.trans (m.drain_steps d)).drain_eq (m.drain_waits d)

variable (m)

theorem drain_of_waits {c : Config σ β} (waits : m.Waits c) : m.drain c = ([], c) :=
  (Steps.refl c).drain_eq waits

/-- What came late could have been there from the start. -/
theorem drain_append (c : Config σ β) (bytes : List β) :
    m.drain (c.more bytes) =
      ((m.drain c).1 ++ (m.drain ((m.drain c).2.more bytes)).1,
        (m.drain ((m.drain c).2.more bytes)).2) :=
  ((m.drain_steps c).append bytes).drain

/-! ## Pieces of a stream -/

/-- A piece arrives, and the machine goes on. -/
def receive (c : Config σ β) (piece : List β) : List ω × Config σ β :=
  m.drain (c.more piece)

def receiveAll (c : Config σ β) : List (List β) → List ω × Config σ β
  | [] => ([], c)
  | piece :: pieces =>
      let (out, d) := m.receive c piece
      let (outs, e) := receiveAll d pieces
      (out ++ outs, e)

/-- **However a stream is cut, the machine puts out the same and ends the same.** -/
theorem receiveAll_eq {c : Config σ β} (waits : m.Waits c) (pieces : List (List β)) :
    m.receiveAll c pieces = m.receive c pieces.flatten := by
  induction pieces generalizing c with
  | nil => simp [receiveAll, receive, m.drain_of_waits waits]
  | cons piece pieces ih =>
      have rest := ih (m.drain_waits (c.more piece))
      show ((m.drain (c.more piece)).1 ++ (m.receiveAll (m.drain (c.more piece)).2 pieces).1,
        (m.receiveAll (m.drain (c.more piece)).2 pieces).2) = _
      rw [rest, receive, receive, List.flatten_cons, ← Config.more_more, m.drain_append (c.more piece)]

end Incremental

end RecommEngine.Theory
