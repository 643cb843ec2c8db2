/-
# Theory.MarkedSeq -- a sequence that grows at the front and is cut at a mark

The abstract data type behind mark-then-clear expiry: elements are pushed at the
front; `mark` splits the sequence behind its longest fresh prefix; `clear` drops
what is behind the mark and removes the mark.  Readers see only what is before
the mark.

The mark is unset, at the very front (nothing is visible) or inside the
sequence.  Where it stands decides the side a push lands on: in front of an
inside mark, but *behind* a mark at the front (`mem_hidden_push`).
-/
import Mathlib

namespace RecommEngine.Theory

set_option autoImplicit false

variable {β : Type}

inductive MarkedSeq (β : Type) where
  | unmarked (all : List β)
  | atFront (hidden : List β)
  | inside (visible hidden : List β)
  deriving DecidableEq

namespace MarkedSeq

def visible : MarkedSeq β → List β
  | unmarked all => all
  | atFront _ => []
  | inside visible _ => visible

def hidden : MarkedSeq β → List β
  | unmarked _ => []
  | atFront hidden => hidden
  | inside _ hidden => hidden

def contents (s : MarkedSeq β) : List β :=
  s.visible ++ s.hidden

/-- The mark is set and nothing is in front of it. -/
def IsAtFront : MarkedSeq β → Prop
  | atFront _ => True
  | _ => False

def push (x : β) : MarkedSeq β → MarkedSeq β
  | unmarked all => unmarked (x :: all)
  | atFront hidden => atFront (x :: hidden)
  | inside visible hidden => inside (x :: visible) hidden

/-- The sequence `kept ++ freed` with its mark between the two. -/
def markAfter : List β → List β → MarkedSeq β
  | [], freed => atFront freed
  | kept, freed => inside kept freed

/-- The mark behind the longest prefix that stays. -/
def mark (stay : β → Bool) (s : MarkedSeq β) : MarkedSeq β :=
  markAfter (s.contents.takeWhile stay) (s.contents.dropWhile stay)

def clear (s : MarkedSeq β) : MarkedSeq β :=
  unmarked s.visible

@[simp] theorem contents_unmarked (all : List β) : (unmarked all).contents = all :=
  List.append_nil all

@[simp] theorem contents_push (x : β) (s : MarkedSeq β) :
    (s.push x).contents = x :: s.contents := by
  cases s <;> rfl

@[simp] theorem visible_markAfter (kept freed : List β) :
    (markAfter kept freed).visible = kept := by
  cases kept <;> rfl

@[simp] theorem hidden_markAfter (kept freed : List β) :
    (markAfter kept freed).hidden = freed := by
  cases kept <;> rfl

@[simp] theorem visible_mark (stay : β → Bool) (s : MarkedSeq β) :
    (s.mark stay).visible = s.contents.takeWhile stay :=
  visible_markAfter _ _

@[simp] theorem hidden_mark (stay : β → Bool) (s : MarkedSeq β) :
    (s.mark stay).hidden = s.contents.dropWhile stay :=
  hidden_markAfter _ _

@[simp] theorem contents_mark (stay : β → Bool) (s : MarkedSeq β) :
    (s.mark stay).contents = s.contents := by
  rw [contents, visible_mark, hidden_mark, List.takeWhile_append_dropWhile]

@[simp] theorem mark_mark (stay : β → Bool) (s : MarkedSeq β) :
    (s.mark stay).mark stay = s.mark stay := by
  rw [mark, contents_mark, ← mark]

@[simp] theorem clear_clear (s : MarkedSeq β) : s.clear.clear = s.clear := rfl

@[simp] theorem contents_clear (s : MarkedSeq β) : s.clear.contents = s.visible := by
  simp [clear, contents, visible, hidden]

@[simp] theorem hidden_clear (s : MarkedSeq β) : s.clear.hidden = [] := rfl

/-- Only a mark at the front lets a push fall behind it. -/
theorem mem_hidden_push {x y : β} {s : MarkedSeq β} :
    y ∈ (s.push x).hidden ↔ y ∈ s.hidden ∨ (y = x ∧ s.IsAtFront) := by
  cases s <;> simp [push, hidden, IsAtFront, or_comm]

@[simp] theorem isAtFront_push {x : β} {s : MarkedSeq β} : (s.push x).IsAtFront ↔ s.IsAtFront := by
  cases s <;> simp [push, IsAtFront]

theorem visible_sublist (s : MarkedSeq β) : s.visible.Sublist s.contents :=
  List.sublist_append_left _ _

end MarkedSeq

/-! ## Cutting a sorted sequence

In a sequence whose fresh elements all stand before its stale ones, the longest
fresh prefix is the set of fresh elements. -/

theorem takeWhile_eq_filter_of_pairwise {stay : β → Bool} {l : List β}
    (sorted : l.Pairwise fun a b => stay b → stay a) : l.takeWhile stay = l.filter stay := by
  induction l with
  | nil => rfl
  | cons a l ih =>
      obtain ⟨head, tail⟩ := List.pairwise_cons.mp sorted
      by_cases ha : stay a
      · rw [List.takeWhile_cons_of_pos ha, List.filter_cons_of_pos ha, ih tail]
      · have none : ∀ b ∈ l, ¬ stay b := fun b hb stays => ha (head b hb stays)
        rw [List.takeWhile_cons_of_neg ha, List.filter_cons_of_neg ha,
          List.filter_eq_nil_iff.mpr none]

theorem not_stay_of_mem_dropWhile {stay : β → Bool} {l : List β}
    (sorted : l.Pairwise fun a b => stay b → stay a) {b : β} (hb : b ∈ l.dropWhile stay) :
    ¬ stay b := by
  induction l with
  | nil => simp at hb
  | cons a l ih =>
      obtain ⟨head, tail⟩ := List.pairwise_cons.mp sorted
      by_cases ha : stay a
      · rw [List.dropWhile_cons_of_pos ha] at hb
        exact ih tail hb
      · rw [List.dropWhile_cons_of_neg ha] at hb
        rcases List.mem_cons.mp hb with rfl | hb
        · exact ha
        · exact fun stays => ha (head b hb stays)

end RecommEngine.Theory
