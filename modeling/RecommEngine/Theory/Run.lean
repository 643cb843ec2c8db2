/-
# Theory.Run -- runs of a deterministic event machine

A system is a state type, an event type and a step function; a run is a list of
events.  Whatever the environment chooses (an interleaving, a clock reading, the
outcome of a call) is part of the event, so a statement over all runs is a
statement over all lists.

`Along C s es` says that every event of the run meets `C` in the state it is
taken in.  These rules carry the proofs about runs:

* `Along.invariant`: what every step allowed by `C` preserves holds at the end;
* `run_history`: the same for an invariant that also mentions the events taken
  so far, with the whole run available at every step;
* `always_iff_along`: when a step keeps `P` exactly if it meets `C`, `P` holds
  in every state of the run exactly if the run meets `C` throughout;
* `Along.simulation`: two machines whose steps keep a relation allow the same runs
  and are related after them;
* `run_rank`: what some events lower and none raises runs out;
* `run_of_foldlM`: a loop that can stop early and did not is a run;
* `foldlM_eq_error_iff`: one that did stopped at the first element that fails;
* `run_cell`: what a run of assignments leaves in one cell.
-/
import Mathlib

namespace RecommEngine.Theory.Run

set_option autoImplicit false

variable {σ ε : Type} (step : σ → ε → σ)

/-- The state a list of events leads to. -/
def run (s : σ) (es : List ε) : σ :=
  es.foldl step s

@[simp] theorem run_nil (s : σ) : run step s [] = s := rfl

@[simp] theorem run_cons (s : σ) (e : ε) (es : List ε) :
    run step s (e :: es) = run step (step s e) es := rfl

theorem run_append (s : σ) (es fs : List ε) :
    run step s (es ++ fs) = run step (run step s es) fs := by
  simp [run]

theorem run_snoc (s : σ) (es : List ε) (e : ε) :
    run step s (es ++ [e]) = step (run step s es) e := by
  simp [run]

/-- Every event of the run meets `C` in the state it is taken in. -/
def Along (C : σ → ε → Prop) : σ → List ε → Prop
  | _, [] => True
  | s, e :: es => C s e ∧ Along C (step s e) es

instance Along.decidable {C : σ → ε → Prop} [∀ s e, Decidable (C s e)] :
    ∀ (s : σ) (es : List ε), Decidable (Along step C s es)
  | _, [] => .isTrue trivial
  | s, e :: es =>
      have := Along.decidable (C := C) (step s e) es
      inferInstanceAs (Decidable (C s e ∧ Along step C (step s e) es))

variable {step} {C : σ → ε → Prop}

theorem Along.append {s : σ} {es fs : List ε} :
    Along step C s (es ++ fs) ↔ Along step C s es ∧ Along step C (run step s es) fs := by
  induction es generalizing s with
  | nil => simp [Along]
  | cons e es ih => simp [Along, ih, and_assoc]

/-- The condition at a step inside the run. -/
theorem Along.at {s : σ} {es pre : List ε} {e : ε} (along : Along step C s es)
    (inside : pre ++ [e] <+: es) : C (run step s pre) e := by
  obtain ⟨rest, rfl⟩ := inside
  rw [List.append_assoc, Along.append] at along
  exact along.2.1

theorem Along.invariant {I : σ → Prop} (keeps : ∀ s e, I s → C s e → I (step s e))
    {s : σ} {es : List ε} (start : I s) (along : Along step C s es) : I (run step s es) := by
  induction es generalizing s with
  | nil => exact start
  | cons e es ih => exact ih (keeps s e start along.1) along.2

/-- Induction along one fixed run, for invariants that mention the past. -/
theorem run_history {I : List ε → σ → Prop} {s : σ} {es : List ε} (start : I [] s)
    (extend : ∀ pre e, pre ++ [e] <+: es → I pre (run step s pre) →
      I (pre ++ [e]) (step (run step s pre) e)) :
    ∀ pre, pre <+: es → I pre (run step s pre) := by
  intro pre
  induction pre using List.reverseRecOn with
  | nil => exact fun _ => start
  | append_singleton pre e ih =>
      intro inside
      rw [run_snoc]
      exact extend pre e inside (ih ((List.prefix_append pre [e]).trans inside))

theorem along_iff {s : σ} {es : List ε} :
    Along step C s es ↔ ∀ pre e, pre ++ [e] <+: es → C (run step s pre) e := by
  constructor
  · exact fun along pre e inside => along.at inside
  · intro each
    induction es using List.reverseRecOn with
    | nil => trivial
    | append_singleton es e ih =>
        refine Along.append.mpr ⟨ih ?_, each es e (List.prefix_refl _), trivial⟩
        intro pre f inside
        exact each pre f (inside.trans (List.prefix_append es [e]))

/-- **Exactness along a run.**  Where a step of the run re-establishes `P`
exactly if it meets `C`, `P` holds in every state of the run exactly if the run
meets `C` throughout. -/
theorem always_iff_along {P : σ → Prop} {s : σ} {es : List ε} (holds : P s)
    (exact : ∀ pre e, pre ++ [e] <+: es → P (run step s pre) →
      (P (step (run step s pre) e) ↔ C (run step s pre) e)) :
    (∀ pre, pre <+: es → P (run step s pre)) ↔ Along step C s es := by
  rw [along_iff]
  constructor
  · intro always pre e inside
    have before := always pre ((List.prefix_append pre [e]).trans inside)
    have after := always (pre ++ [e]) inside
    rw [run_snoc] at after
    exact (exact pre e inside before).mp after
  · intro each
    apply run_history (I := fun _ s => P s) holds
    intro pre e inside before
    exact (exact pre e inside before).mpr (each pre e inside)

/-- Two machines over the same events, where related states meet their conditions
alike and an allowed step keeps them related. -/
theorem Along.simulation {τ : Type} {step' : τ → ε → τ} {C' : τ → ε → Prop} {R : σ → τ → Prop}
    (alike : ∀ s t e, R s t → (C s e ↔ C' t e))
    (keeps : ∀ s t e, R s t → C s e → R (step s e) (step' t e))
    {s : σ} {t : τ} (related : R s t) (es : List ε) :
    (Along step C s es ↔ Along step' C' t es) ∧
      (Along step C s es → R (run step s es) (run step' t es)) := by
  induction es generalizing s t with
  | nil => exact ⟨Iff.rfl, fun _ => related⟩
  | cons e es ih =>
      constructor
      · rw [Along, Along, ← alike s t e related]
        exact and_congr_right fun first => (ih (keeps s t e related first)).1
      · rintro ⟨first, rest⟩
        exact (ih (keeps s t e related first)).2 rest

/-- What each event of one kind lowers and no event raises is used up by as many of
them, whatever happens in between. -/
theorem run_rank {I : σ → Prop} (rank : σ → Nat) (mine : ε → Bool)
    (keeps : ∀ s e, I s → I (step s e))
    (lowers : ∀ s e, I s → rank (step s e) ≤ rank s - if mine e then 1 else 0)
    {s : σ} (start : I s) (es : List ε) : rank (run step s es) ≤ rank s - es.countP mine := by
  induction es generalizing s with
  | nil => simp
  | cons e es ih =>
      have first := lowers s e start
      have later := ih (keeps s e start)
      rw [run_cons, List.countP_cons]
      omega

/-! ## Loops and cells -/

/-- A loop that succeeds is the run of the events its rounds have found. -/
theorem run_of_foldlM {α φ : Type} {round : σ → α → Except φ σ} {event : α → Option ε}
    (finds : ∀ s a s', round s a = .ok s' → ∃ e, event a = some e ∧ s' = step s e)
    {as : List α} {s s' : σ} (done : as.foldlM round s = .ok s') :
    s' = run step s (as.filterMap event) := by
  induction as generalizing s with
  | nil =>
      cases done
      rfl
  | cons a as ih =>
      rw [List.foldlM_cons] at done
      cases first : round s a with
      | error failure =>
          rw [first] at done
          cases done
      | ok next =>
          rw [first] at done
          obtain ⟨e, found, rfl⟩ := finds s a next first
          rw [List.filterMap_cons_some found, run_cons]
          exact ih done

/-- A loop over the list comes to `a`: all in front of it pass. -/
def ComesTo {α : Type} (passes : α → Prop) (as : List α) (a : α) : Prop :=
  ∃ front back, as = front ++ a :: back ∧ ∀ b ∈ front, passes b

theorem comesTo_cons {α : Type} {passes : α → Prop} {a b : α} {as : List α} :
    ComesTo passes (b :: as) a ↔ a = b ∨ (passes b ∧ ComesTo passes as a) := by
  constructor
  · rintro ⟨front, back, split, pass⟩
    cases front with
    | nil => exact Or.inl (List.cons.inj split).1.symm
    | cons c front =>
        obtain ⟨rfl, rest⟩ := List.cons.inj split
        exact Or.inr ⟨pass b (by simp), front, back, rest,
          fun d inside => pass d (List.mem_cons_of_mem _ inside)⟩
  · rintro (rfl | ⟨first, front, back, rfl, pass⟩)
    · exact ⟨[], as, rfl, by simp⟩
    · exact ⟨b :: front, back, rfl, by simpa using ⟨first, pass⟩⟩

theorem not_comesTo_nil {α : Type} {passes : α → Prop} {a : α} : ¬ ComesTo passes [] a := by
  rintro ⟨front, back, split, -⟩
  simp at split

/-- The loop comes to such an element at its head, or passes the head and comes to
one later. -/
theorem exists_comesTo_cons {α : Type} {passes found : α → Prop} {b : α} {as : List α} :
    (∃ a, ComesTo passes (b :: as) a ∧ found a) ↔
      found b ∨ (passes b ∧ ∃ a, ComesTo passes as a ∧ found a) := by
  simp only [comesTo_cons]
  constructor
  · rintro ⟨a, rfl | ⟨first, comes⟩, here⟩
    · exact Or.inl here
    · exact Or.inr ⟨first, a, comes, here⟩
  · rintro (here | ⟨first, a, comes, here⟩)
    · exact ⟨b, Or.inl rfl, here⟩
    · exact ⟨a, Or.inr ⟨first, comes⟩, here⟩

/-- If not all pass, the loop comes to one that does not. -/
theorem exists_comesTo {α : Type} {passes : α → Prop} {as : List α} {a : α} (inside : a ∈ as)
    (fails : ¬ passes a) : ∃ b, ComesTo passes as b ∧ ¬ passes b := by
  induction as with
  | nil => simp at inside
  | cons c as ih =>
      by_cases first : passes c
      · rcases List.mem_cons.mp inside with rfl | later
        · exact absurd first fails
        · obtain ⟨b, comes, found⟩ := ih later
          exact ⟨b, comesTo_cons.mpr (Or.inr ⟨first, comes⟩), found⟩
      · exact ⟨c, comesTo_cons.mpr (Or.inl rfl), first⟩

/-- A loop whose rounds fail by their element alone fails as the first element
that fails. -/
theorem foldlM_eq_error_iff {α φ : Type} {round : σ → α → Except φ σ} {fails : α → Option φ}
    (failing : ∀ s a failure, round s a = .error failure ↔ fails a = some failure)
    {as : List α} {s : σ} {failure : φ} :
    as.foldlM round s = .error failure ↔
      ∃ a, ComesTo (fun b => fails b = none) as a ∧ fails a = some failure := by
  induction as generalizing s with
  | nil =>
      refine iff_of_false (by simp [pure, Except.pure]) ?_
      rintro ⟨a, comes, -⟩
      exact not_comesTo_nil comes
  | cons a as ih =>
      rw [List.foldlM_cons, exists_comesTo_cons]
      cases first : round s a with
      | error other =>
          have fault := (failing s a other).mp first
          constructor
          · intro same
            exact Or.inl (fault.trans (congrArg some (Except.error.inj same)))
          · rintro (found | ⟨passed, -⟩)
            · exact congrArg Except.error (Option.some.inj (fault.symm.trans found))
            · rw [fault] at passed
              cases passed
      | ok next =>
          have passed : fails a = none := by
            cases fault : fails a with
            | none => rfl
            | some other =>
                rw [(failing s a other).mpr fault] at first
                cases first
          refine (ih (s := next)).trans ?_
          simp [passed]

/-- A loop that stands still wherever it has ended has one end. -/
theorem iterate_end_unique {α : Type} {round : α → α} {a b s : α} {m n : Nat}
    (reached : round^[m] s = a) (reached' : round^[n] s = b) (ended : round a = a)
    (ended' : round b = b) : a = b := by
  calc a = round^[n] a := (Function.iterate_fixed ended n).symm
    _ = round^[n] (round^[m] s) := by rw [reached]
    _ = round^[m] (round^[n] s) := by
      rw [← Function.iterate_add_apply, Nat.add_comm, Function.iterate_add_apply]
    _ = round^[m] b := by rw [reached']
    _ = b := Function.iterate_fixed ended' m

/-- Where every event sets the one cell it names, a cell holds at the end what some
event of its name has set, or no event names it and it is unchanged. -/
theorem run_cell {κ ρ : Type} [DecidableEq κ] {key : ε → κ} {value : ε → ρ} (read : σ → κ → ρ)
    (sets : ∀ s e k, read (step s e) k = if key e = k then value e else read s k)
    (s : σ) (es : List ε) (k : κ) :
    (∃ e ∈ es, key e = k ∧ read (run step s es) k = value e) ∨
      ((∀ e ∈ es, key e ≠ k) ∧ read (run step s es) k = read s k) := by
  induction es using List.reverseRecOn with
  | nil => exact Or.inr ⟨by simp, rfl⟩
  | append_singleton es last ih =>
      rw [run_snoc, sets]
      by_cases here : key last = k
      · exact Or.inl ⟨last, by simp, here, if_pos here⟩
      · rw [if_neg here]
        rcases ih with ⟨e, inside, same, set⟩ | ⟨absent, unchanged⟩
        · exact Or.inl ⟨e, by simp [inside], same, set⟩
        · refine Or.inr ⟨?_, unchanged⟩
          intro e inside
          rcases List.mem_append.mp inside with old | new
          · exact absent e old
          · rw [List.mem_singleton.mp new]
            exact here

end RecommEngine.Theory.Run
