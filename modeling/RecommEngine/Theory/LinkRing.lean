/-
# Theory.LinkRing -- circular doubly linked lists

A heap of nodes with two links each is a pair of functions `next` and `prev`.
`Ring next prev head l` says that the links go from the head through the nodes of
`l` and back to the head, and back along the same way.  The two edits are

* `Ring.link`: a node that is not on the ring comes in behind the head;
* `Ring.unlink`: a node of the ring, wherever it stands, is bypassed.

Both write the links of the neighbours only, and the neighbours may be one node:
the head of an empty ring is its own successor and predecessor.

`Ring.inverse` and `Ring.mem_iff` are what a ring is used for: the links are
inverse to each other on it, and its nodes are those the head leads to.
-/
import Mathlib

namespace RecommEngine.Theory.LinkRing

set_option autoImplicit false

variable {α : Type}

/-- `y` stands right behind `x`. -/
def Adjacent (next prev : α → α) (x y : α) : Prop :=
  next x = y ∧ prev y = x

def Ring (next prev : α → α) (head : α) (l : List α) : Prop :=
  (head :: (l ++ [head])).IsChain (Adjacent next prev)

variable {next prev next' prev' : α → α} {head : α} {l : List α}

/-- A chain reads `next` of all its nodes but the last and `prev` of all but the
first. -/
theorem isChain_congr {l : List α} (chain : l.IsChain (Adjacent next prev))
    (sameNext : ∀ a ∈ l.dropLast, next' a = next a) (samePrev : ∀ a ∈ l.tail, prev' a = prev a) :
    l.IsChain (Adjacent next' prev') := by
  induction l with
  | nil => exact .nil
  | cons a l ih =>
      cases l with
      | nil => exact .singleton a
      | cons b l =>
          obtain ⟨⟨forth, back⟩, rest⟩ := List.isChain_cons_cons.mp chain
          refine List.isChain_cons_cons.mpr ⟨⟨?_, ?_⟩, ih rest ?_ ?_⟩
          · rw [sameNext a (by simp), forth]
          · rw [samePrev b (by simp), back]
          · exact fun c inside => sameNext c (by simp [List.dropLast_cons_of_ne_nil, inside])
          · exact fun c inside => samePrev c (List.mem_of_mem_tail inside)

theorem ring_nil (isNext : next head = head) (isPrev : prev head = head) :
    Ring next prev head [] :=
  .cons_cons ⟨isNext, isPrev⟩ (.singleton head)

theorem Ring.next_head (ring : Ring next prev head l) : next head = l.headD head := by
  cases l with
  | nil => exact (List.isChain_cons_cons.mp ring).1.1
  | cons a l => exact (List.isChain_cons_cons.mp ring).1.1

theorem Ring.prev_head (ring : Ring next prev head l) : prev head = l.getLastD head := by
  rcases List.eq_nil_or_concat l with rfl | ⟨init, last, rfl⟩
  · exact (List.isChain_cons_cons.mp ring).1.2
  · rw [Ring, List.concat_eq_append, List.append_assoc, ← List.cons_append] at ring
    have end_ := (List.isChain_append_cons_cons.mp ring).2.1.2
    simpa using end_

/-! ## What the head leads to -/

theorem isChain_forth {l : List α} (chain : l.IsChain (Adjacent next prev)) {a : α}
    (inside : a ∈ l.dropLast) : prev (next a) = a ∧ next a ∈ l.tail := by
  induction l with
  | nil => simp at inside
  | cons b l ih =>
      cases l with
      | nil => simp at inside
      | cons c l =>
          obtain ⟨⟨forth, back⟩, rest⟩ := List.isChain_cons_cons.mp chain
          rw [List.dropLast_cons_of_ne_nil (by simp)] at inside
          rcases List.mem_cons.mp inside with rfl | later
          · exact ⟨by rw [forth, back], by simp [forth]⟩
          · obtain ⟨same, on⟩ := ih rest later
            exact ⟨same, List.mem_of_mem_tail on⟩

theorem isChain_back {l : List α} (chain : l.IsChain (Adjacent next prev)) {a : α}
    (inside : a ∈ l.tail) : next (prev a) = a := by
  induction l with
  | nil => simp at inside
  | cons b l ih =>
      cases l with
      | nil => simp at inside
      | cons c l =>
          obtain ⟨⟨forth, back⟩, rest⟩ := List.isChain_cons_cons.mp chain
          rcases List.mem_cons.mp inside with rfl | later
          · rw [back, forth]
          · exact ih rest later

theorem dropLast_ring (head : α) (l : List α) : (head :: (l ++ [head])).dropLast = head :: l := by
  rw [← List.cons_append, List.dropLast_concat]

/-- `next` and `prev` are inverse to each other on a ring. -/
theorem Ring.inverse (ring : Ring next prev head l) {a : α} (inside : a ∈ head :: l) :
    prev (next a) = a ∧ next (prev a) = a := by
  refine ⟨(isChain_forth ring (by rwa [dropLast_ring])).1, isChain_back ring ?_⟩
  simp only [List.tail_cons, List.mem_append, List.mem_cons] at inside ⊢
  tauto

theorem exists_iterate_of_isChain {a : α} {l : List α}
    (chain : (a :: l).IsChain (Adjacent next prev)) {b : α} (inside : b ∈ a :: l) :
    ∃ n, next^[n] a = b := by
  induction l generalizing a with
  | nil => exact ⟨0, (List.mem_singleton.mp inside).symm⟩
  | cons c l ih =>
      rcases List.mem_cons.mp inside with rfl | later
      · exact ⟨0, rfl⟩
      · obtain ⟨⟨forth, -⟩, rest⟩ := List.isChain_cons_cons.mp chain
        obtain ⟨n, reached⟩ := ih rest later
        exact ⟨n + 1, by rw [Function.iterate_succ_apply, forth, reached]⟩

/-- The nodes of a ring are those that `next` reaches from the head. -/
theorem Ring.mem_iff (ring : Ring next prev head l) {a : α} :
    a ∈ head :: l ↔ ∃ n, next^[n] head = a := by
  constructor
  · intro inside
    apply exists_iterate_of_isChain ring
    simp only [List.mem_cons, List.mem_append] at inside ⊢
    tauto
  · rintro ⟨n, rfl⟩
    induction n with
    | zero => simp
    | succ n ih =>
        rw [Function.iterate_succ_apply']
        have on := (isChain_forth ring (by rwa [dropLast_ring])).2
        simp only [List.tail_cons, List.mem_append, List.mem_cons] at on ⊢
        tauto

/-- A node of the ring is not its own successor. -/
theorem Ring.next_ne {n : α} {before after : List α}
    (ring : Ring next prev head (before ++ n :: after))
    (nodup : (head :: (before ++ n :: after)).Nodup) : next n ≠ n := by
  have behind : (n :: (after ++ [head])).IsChain (Adjacent next prev) := by
    rw [Ring, List.append_assoc, ← List.cons_append] at ring
    exact ring.right_of_append
  have on : next n ∈ after ++ [head] := by
    refine (isChain_forth behind ?_).2
    rw [← List.cons_append, List.dropLast_concat]
    exact List.mem_cons_self
  intro same
  rw [same] at on
  rcases List.mem_append.mp on with later | isHead
  · have tail := (List.nodup_append.mp (List.nodup_cons.mp nodup).2).2.1
    exact (List.nodup_cons.mp tail).1 later
  · exact (List.nodup_cons.mp nodup).1 (by simp [← List.mem_singleton.mp isHead])

/-! ## The two edits -/

section Edits

variable [DecidableEq α] {n : α}

/-- A node comes in between the head and its successor. -/
theorem Ring.link (ring : Ring next prev head l) (nodup : (head :: l).Nodup)
    (off : n ∉ head :: l) :
    Ring (Function.update (Function.update next n (next head)) head n)
      (Function.update (Function.update prev (next head) n) n head) head (n :: l) := by
  obtain ⟨s, rest, shape⟩ : ∃ s rest, l ++ [head] = s :: rest :=
    List.exists_cons_of_ne_nil (by simp)
  have nodup' : (s :: rest).Nodup := by
    rw [← shape]
    exact (List.perm_append_singleton head l).nodup_iff.mpr nodup
  have notHead : n ≠ head := fun same => off (by simp [same])
  have offRest : n ∉ s :: rest := by
    rw [← shape]
    simpa [or_comm] using off
  rw [Ring, shape] at ring
  obtain ⟨⟨forth, -⟩, tail⟩ := List.isChain_cons_cons.mp ring
  rw [Ring, List.cons_append, shape, forth]
  refine .cons_cons ⟨by simp, by simp⟩ (.cons_cons ⟨?_, ?_⟩ (isChain_congr tail ?_ ?_))
  · simp [Function.update_of_ne notHead]
  · have ne : s ≠ n := fun same => offRest (by simp [same])
    simp [Function.update_of_ne ne]
  · intro a inside
    rw [← shape, List.dropLast_concat] at inside
    have ne : a ≠ n := fun same => off (by simp [← same, inside])
    have ne' : a ≠ head := fun same => (List.nodup_cons.mp nodup).1 (same ▸ inside)
    simp [Function.update_of_ne ne, Function.update_of_ne ne']
  · intro a inside
    have ne : a ≠ n := fun same => offRest (List.mem_cons_of_mem _ (same ▸ inside))
    have ne' : a ≠ s := fun same => (List.nodup_cons.mp nodup').1 (same ▸ inside)
    simp [Function.update_of_ne ne, Function.update_of_ne ne']

/-- A node of a chain is bypassed: `next` of its predecessor and `prev` of its
successor are written, and no other link reads them. -/
theorem isChain_bypass {front rest : List α} {p s : α}
    (chain : (front ++ p :: n :: s :: rest).IsChain (Adjacent next prev))
    (nextOnce : p ∉ front ∧ p ∉ (s :: rest).dropLast)
    (prevOnce : s ∉ (front ++ [p]).tail ∧ s ∉ rest) :
    (front ++ p :: s :: rest).IsChain
      (Adjacent (Function.update next (prev n) (next n))
        (Function.update prev (next n) (prev n))) := by
  obtain ⟨left, ⟨-, isPrev⟩, right⟩ := List.isChain_append_cons_cons.mp chain
  obtain ⟨⟨isNext, -⟩, right⟩ := List.isChain_cons_cons.mp right
  rw [isPrev, isNext]
  refine List.isChain_append_cons_cons.mpr
    ⟨isChain_congr left ?_ ?_, ⟨by simp, by simp⟩, isChain_congr right ?_ ?_⟩
  · intro a inside
    rw [List.dropLast_concat] at inside
    exact Function.update_of_ne (ne_of_mem_of_not_mem inside nextOnce.1) _ _
  · intro a inside
    exact Function.update_of_ne (ne_of_mem_of_not_mem inside prevOnce.1) _ _
  · intro a inside
    exact Function.update_of_ne (ne_of_mem_of_not_mem inside nextOnce.2) _ _
  · intro a inside
    exact Function.update_of_ne (ne_of_mem_of_not_mem inside prevOnce.2) _ _

/-- The neighbours of a node are linked with each other. -/
theorem Ring.unlink {before after : List α} (ring : Ring next prev head (before ++ n :: after))
    (nodup : (head :: (before ++ n :: after)).Nodup) :
    Ring (Function.update next (prev n) (next n)) (Function.update prev (next n) (prev n)) head
      (before ++ after) := by
  obtain ⟨front, p, shapeP⟩ : ∃ front p, head :: before = front ++ [p] := by
    rcases List.eq_nil_or_concat (head :: before) with empty | ⟨front, p, shape⟩
    · cases empty
    · exact ⟨front, p, by rw [shape, List.concat_eq_append]⟩
  obtain ⟨s, rest, shapeS⟩ : ∃ s rest, after ++ [head] = s :: rest :=
    List.exists_cons_of_ne_nil (by simp)
  have whole : head :: ((before ++ n :: after) ++ [head]) = front ++ p :: n :: s :: rest := by
    rw [List.append_assoc, ← List.cons_append, shapeP, List.cons_append, shapeS]
    simp
  have rejoined : head :: ((before ++ after) ++ [head]) = front ++ p :: s :: rest := by
    rw [List.append_assoc, ← List.cons_append, shapeP, shapeS]
    simp
  rw [← List.cons_append, List.nodup_append] at nodup
  obtain ⟨nodupBefore, nodupAfter, apart⟩ := nodup
  have pBefore : p ∈ head :: before := by simp [shapeP]
  have sAfter : s ∈ after ++ [head] := by simp [shapeS]
  rw [Ring, whole] at ring
  rw [Ring, rejoined]
  apply isChain_bypass ring
  · constructor
    · rw [shapeP, List.nodup_append] at nodupBefore
      exact fun again => nodupBefore.2.2 p again p (by simp) rfl
    · rw [← shapeS, List.dropLast_concat]
      exact fun again => apart p pBefore p (List.mem_cons_of_mem _ again) rfl
  · constructor
    · rw [← shapeP, List.tail_cons]
      intro again
      rcases List.mem_append.mp sAfter with later | isHead
      · exact apart s (List.mem_cons_of_mem _ again) s (List.mem_cons_of_mem _ later) rfl
      · rw [List.mem_singleton.mp isHead] at again
        exact (List.nodup_cons.mp nodupBefore).1 again
    · have nodupS : (after ++ [head]).Nodup := by
        rw [(List.perm_append_singleton head after).nodup_iff]
        refine List.nodup_cons.mpr ⟨?_, (List.nodup_cons.mp nodupAfter).2⟩
        exact fun later => apart head (by simp) head (List.mem_cons_of_mem _ later) rfl
      rw [shapeS] at nodupS
      exact (List.nodup_cons.mp nodupS).1

end Edits

end RecommEngine.Theory.LinkRing
