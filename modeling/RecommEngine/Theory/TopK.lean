/-
# Theory.TopK -- the best `k` of a pool

`TopK score k pool chosen` says that `chosen` is a correct ranking answer: `k`
distinct members of the pool (all of them if there are fewer), best first, and
none of the others scores higher than a chosen one.  Ties are free.

Sorting the pool's entries and keeping the first `k` is such an answer
(`TopK.of_sorted`).  The entries may coincide for different members; the members
behind the kept entries can still be told apart.

`perm_erase_of_mem_iff` compares two pools that differ in one element at most.
-/
import Mathlib

namespace RecommEngine.Theory

set_option autoImplicit false

variable {α β γ : Type} [Preorder γ]

structure TopK (score : α → γ) (k : Nat) (pool chosen : List α) : Prop where
  nodup : chosen.Nodup
  subset : ∀ a ∈ chosen, a ∈ pool
  length : chosen.length = min pool.length k
  ordered : chosen.Pairwise fun a b => score b ≤ score a
  best : ∀ a ∈ pool, a ∉ chosen → ∀ b ∈ chosen, score a ≤ score b

/-- Sort, then truncate. -/
theorem TopK.of_sorted (score : α → γ) (rank : β → γ) (entry : α → β) {pool : List α}
    {sorted : List β} (nodup : pool.Nodup) (same : ∀ a, rank (entry a) = score a)
    (entries : sorted.Perm (pool.map entry))
    (ordered : sorted.Pairwise fun a b => rank b ≤ rank a) (k : Nat) :
    ∃ chosen, TopK score k pool chosen ∧ chosen.map entry = sorted.take k := by
  -- The permutation of the entries comes from one of the members.
  obtain ⟨members, rfl, perm⟩ :
      ∃ members : List α, sorted = members.map entry ∧ members.Perm pool := by
    have := congrFun (congrFun (List.eq_map_comp_perm entry) sorted) pool
    exact this.mpr entries
  rw [List.pairwise_map] at ordered
  simp only [same] at ordered
  refine ⟨members.take k, ⟨?_, ?_, ?_, ?_, ?_⟩, by simp⟩
  · exact (perm.nodup_iff.mpr nodup).sublist (List.take_sublist k members)
  · intro a ha
    exact perm.subset (List.mem_of_mem_take ha)
  · rw [List.length_take, perm.length_eq, min_comm]
  · exact ordered.sublist (List.take_sublist k members)
  · intro a ha left b hb
    have inside : a ∈ members.take k ++ members.drop k := by
      rw [List.take_append_drop]
      exact perm.symm.subset ha
    rw [← List.take_append_drop k members, List.pairwise_append] at ordered
    exact ordered.2.2 b hb a ((List.mem_append.mp inside).resolve_left left)

/-- A pool in which only `d` can have come or gone is, up to order, the rest of the
old one and `d`, if it is there. -/
theorem perm_erase_of_mem_iff {α : Type} [DecidableEq α] {old new : List α} {d : α}
    (nodup : old.Nodup) (nodup' : new.Nodup) (same : ∀ a, a ≠ d → (a ∈ new ↔ a ∈ old)) :
    new.Perm ((if d ∈ new then [d] else []) ++ old.erase d) := by
  have rest : (new.erase d).Perm (old.erase d) := by
    rw [List.perm_ext_iff_of_nodup (nodup'.erase d) (nodup.erase d)]
    intro a
    rw [nodup'.mem_erase_iff, nodup.mem_erase_iff]
    exact and_congr_right fun other => same a other
  by_cases inside : d ∈ new
  · rw [if_pos inside]
    exact (List.perm_cons_erase inside).trans (rest.cons d)
  · rw [if_neg inside]
    rw [List.erase_of_not_mem inside] at rest
    exact rest

end RecommEngine.Theory
