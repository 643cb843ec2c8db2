/-
# Theory.MaximalRuns -- the stretches between separators

A run of a list is a non-empty stretch without a separator, and it is maximal if
it stands between separators or the ends of the list.  `RunAt sep l i run` says
that `run` is a maximal run of `l` that starts at position `i`; `Runs sep l runs`
that `runs` are all of them, in the order of their positions.

The two rules are those of a scan from the left: a list without separators is its
own run unless it is empty (`runs_of_free`), and behind the first separator the
scan starts anew (`Runs.append_cons`).
-/
import Mathlib

namespace RecommEngine.Theory.MaximalRuns

set_option autoImplicit false

variable {α : Type}

/-- `run` cannot be extended into `before` or `after`. -/
structure Maximal (sep : α → Prop) (before run after : List α) : Prop where
  filled : run ≠ []
  free : ∀ a ∈ run, ¬ sep a
  left : ∀ a ∈ before.getLast?, sep a
  right : ∀ a ∈ after.head?, sep a

def RunAt (sep : α → Prop) (l : List α) (i : Nat) (run : List α) : Prop :=
  ∃ before after, l = before ++ (run ++ after) ∧ before.length = i ∧
    Maximal sep before run after

/-- All maximal runs of `l`, by their positions. -/
def Runs (sep : α → Prop) (l : List α) (runs : List (List α)) : Prop :=
  ∃ placed : List (Nat × List α), placed.map Prod.snd = runs ∧
    placed.Pairwise (fun p q => p.1 < q.1) ∧ ∀ i run, (i, run) ∈ placed ↔ RunAt sep l i run

variable {sep : α → Prop} {l seg rest : List α} {d : α}

theorem Runs.spec {runs : List (List α)} (all : Runs sep l runs) {run : List α}
    (inside : run ∈ runs) : run ≠ [] ∧ ∀ a ∈ run, ¬ sep a := by
  obtain ⟨placed, rfl, -, exactly⟩ := all
  obtain ⟨⟨i, run⟩, at_, rfl⟩ := List.mem_map.mp inside
  obtain ⟨before, after, -, -, maximal⟩ := (exactly i run).mp at_
  exact ⟨maximal.filled, maximal.free⟩

/-! ## Without a separator -/

theorem eq_nil_of_getLast? (free : ∀ a ∈ l, ¬ sep a) (ends : ∀ a ∈ l.getLast?, sep a) :
    l = [] := by
  rcases List.eq_nil_or_concat l with rfl | ⟨init, last, rfl⟩
  · rfl
  · exact absurd (ends last (by simp)) (free last (by simp))

theorem eq_nil_of_head? (free : ∀ a ∈ l, ¬ sep a) (ends : ∀ a ∈ l.head?, sep a) : l = [] := by
  cases l with
  | nil => rfl
  | cons a l => exact absurd (ends a rfl) (free a (by simp))

theorem runAt_of_free (free : ∀ a ∈ l, ¬ sep a) (i : Nat) (run : List α) :
    RunAt sep l i run ↔ l ≠ [] ∧ i = 0 ∧ run = l := by
  constructor
  · rintro ⟨before, after, rfl, rfl, maximal⟩
    obtain rfl := eq_nil_of_getLast? (fun a inside => free a (by simp [inside])) maximal.left
    obtain rfl := eq_nil_of_head? (fun a inside => free a (by simp [inside])) maximal.right
    exact ⟨by simpa using maximal.filled, rfl, by simp⟩
  · rintro ⟨filled, rfl, rfl⟩
    exact ⟨[], [], by simp, rfl, filled, free, by simp, by simp⟩

theorem runs_of_free (free : ∀ a ∈ l, ¬ sep a) : Runs sep l (if l.isEmpty then [] else [l]) := by
  cases l with
  | nil => exact ⟨[], rfl, List.Pairwise.nil, by simp [runAt_of_free free]⟩
  | cons a l =>
      exact ⟨[(0, a :: l)], rfl, List.pairwise_singleton _ _, by simp [runAt_of_free free]⟩

/-! ## Behind the first separator -/

/-- Whether a run could be extended to the left is seen behind the separator. -/
theorem left_append_cons (isSep : sep d) (seg before : List α) :
    (∀ a ∈ (seg ++ d :: before).getLast?, sep a) ↔ ∀ a ∈ before.getLast?, sep a := by
  simp only [List.getLast?_append, List.getLast?_cons, Option.some_or]
  cases before.getLast? <;> simp [isSep]

theorem runAt_append_cons (free : ∀ a ∈ seg, ¬ sep a) (isSep : sep d) (i : Nat) (run : List α) :
    RunAt sep (seg ++ d :: rest) i run ↔
      (seg ≠ [] ∧ i = 0 ∧ run = seg) ∨ ∃ j, i = seg.length + 1 + j ∧ RunAt sep rest j run := by
  constructor
  · rintro ⟨before, after, split, rfl, maximal⟩
    rcases List.append_eq_append_iff.mp split with
      ⟨front, rfl, behind⟩ | ⟨back, rfl, behind⟩
    · -- the run starts behind `seg`, and not with the separator
      right
      cases front with
      | nil =>
          cases run with
          | nil => exact absurd rfl maximal.filled
          | cons a run =>
              obtain ⟨rfl, -⟩ := List.cons.inj behind
              exact absurd isSep (maximal.free d (by simp))
      | cons a front =>
          obtain ⟨rfl, rfl⟩ := List.cons.inj behind
          exact ⟨front.length, by simp; omega, front, after, rfl, rfl, maximal.filled,
            maximal.free, (left_append_cons isSep seg front).mp maximal.left, maximal.right⟩
    · -- the run starts in `seg`: at its front, and it ends with it
      left
      obtain rfl := eq_nil_of_getLast? (fun a inside => free a (by simp [inside])) maximal.left
      rw [List.nil_append] at free
      have same : run = back := by
        rcases List.append_eq_append_iff.mp behind with ⟨more, rfl, tail⟩ | ⟨more, rfl, tail⟩
        · have none_ : more = [] := by
            refine eq_nil_of_head? (fun a inside => free a (by simp [inside])) ?_
            intro a first
            exact maximal.right a (by simp [tail, Option.mem_def.mp first])
          simp [none_]
        · cases more with
          | nil => simp
          | cons a more =>
              obtain ⟨rfl, -⟩ := List.cons.inj tail
              exact absurd isSep (maximal.free d (by simp))
      subst same
      exact ⟨by simpa using maximal.filled, rfl, by simp⟩
  · rintro (⟨filled, rfl, rfl⟩ | ⟨j, rfl, before, after, rfl, rfl, maximal⟩)
    · exact ⟨[], d :: rest, rfl, rfl, filled, free, by simp, by simpa using isSep⟩
    · exact ⟨seg ++ d :: before, after, by simp, by simp; omega, maximal.filled, maximal.free,
        (left_append_cons isSep seg before).mpr maximal.left, maximal.right⟩

theorem Runs.append_cons (free : ∀ a ∈ seg, ¬ sep a) (isSep : sep d) {runs : List (List α)}
    (all : Runs sep rest runs) :
    Runs sep (seg ++ d :: rest) ((if seg.isEmpty then [] else [seg]) ++ runs) := by
  obtain ⟨placed, rfl, sorted, exactly⟩ := all
  let shift : Nat × List α → Nat × List α := fun p => (seg.length + 1 + p.1, p.2)
  let first : List (Nat × List α) := if seg.isEmpty then [] else [(0, seg)]
  have sorted' : (placed.map shift).Pairwise (fun p q => p.1 < q.1) := by
    rw [List.pairwise_map]
    exact sorted.imp fun less => by simpa [shift] using less
  have inFirst : ∀ i run, (i, run) ∈ first ↔ seg ≠ [] ∧ i = 0 ∧ run = seg := by
    intro i run
    cases seg <;> simp [first]
  refine ⟨first ++ placed.map shift, ?_, ?_, ?_⟩
  · cases seg <;> simp [first, shift]
  · refine List.pairwise_append.mpr ⟨by cases seg <;> simp [first], sorted', ?_⟩
    rintro ⟨i, run⟩ before ⟨j, run'⟩ behind
    obtain ⟨-, rfl, -⟩ := (inFirst i run).mp before
    obtain ⟨p, -, same⟩ := List.mem_map.mp behind
    obtain ⟨rfl, -⟩ := Prod.mk.inj same
    show 0 < seg.length + 1 + p.1
    omega
  · intro i run
    rw [runAt_append_cons free isSep, List.mem_append, inFirst]
    refine or_congr_right ?_
    simp only [List.mem_map, ← exactly]
    constructor
    · rintro ⟨⟨j, run⟩, inside, same⟩
      obtain ⟨rfl, rfl⟩ := Prod.mk.inj same
      exact ⟨j, rfl, inside⟩
    · rintro ⟨j, rfl, inside⟩
      exact ⟨(j, run), inside, rfl⟩

end RecommEngine.Theory.MaximalRuns
