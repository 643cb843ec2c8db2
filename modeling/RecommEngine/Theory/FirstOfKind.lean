/-
# Theory.FirstOfKind -- a filter that keeps the first element of each kind

A loop walks a list, loads a value for each element, drops the element if
nothing loads or a kept value is of the same kind, and keeps the value
otherwise.  The loop carries the set of kinds it has kept (`pick`).

`Kept i` says without the loop which positions survive: the element at `i` loads
and no position kept before it loads a value of the same kind.  An element that
was dropped blocks nothing behind it.  `foldl_pick` proves that the loop returns
exactly the values at the kept positions, in their order.
-/
import Mathlib

namespace RecommEngine.Theory.FirstOfKind

set_option autoImplicit false

variable {α β κ : Type} (load : α → Option β) (kind : β → κ)

/-- One round of the loop, over the kinds and the values kept so far. -/
def pick [DecidableEq κ] (s : Finset κ × List β) (x : α) : Finset κ × List β :=
  match load x with
  | none => s
  | some b => if kind b ∈ s.1 then s else (insert (kind b) s.1, s.2 ++ [b])

/-- The value at a position of the list. -/
def valueAt (xs : List α) (i : Nat) : Option β := xs[i]?.bind load

/-- Position `i` survives. -/
def Kept (xs : List α) (i : Nat) : Prop :=
  ∃ b, valueAt load xs i = some b ∧
    ∀ j, j < i → Kept xs j → ∀ c, valueAt load xs j = some c → kind c ≠ kind b
termination_by i

open Classical in
/-- The values at the kept positions below `n`, in order. -/
noncomputable def keptValues (xs : List α) (n : Nat) : List β :=
  ((List.range n).filter fun i => Kept load kind xs i).filterMap (valueAt load xs)

variable {load kind} {xs : List α}

theorem kept_iff {i : Nat} : Kept load kind xs i ↔ ∃ b, valueAt load xs i = some b ∧
    ∀ j, j < i → Kept load kind xs j → ∀ c, valueAt load xs j = some c → kind c ≠ kind b := by
  rw [Kept]

theorem mem_keptValues {n : Nat} {b : β} : b ∈ keptValues load kind xs n ↔
    ∃ i < n, Kept load kind xs i ∧ valueAt load xs i = some b := by
  simp [keptValues, and_assoc]

/-- A position survives if it loads a value of a kind not kept before. -/
theorem kept_iff_fresh {i : Nat} : Kept load kind xs i ↔ ∃ b, valueAt load xs i = some b ∧
    kind b ∉ (keptValues load kind xs i).map kind := by
  rw [kept_iff]
  refine exists_congr fun b => and_congr_right fun _ => ?_
  constructor
  · intro fresh old
    obtain ⟨c, inside, same⟩ := List.mem_map.mp old
    obtain ⟨j, less, kept, loads⟩ := mem_keptValues.mp inside
    exact fresh j less kept c loads same
  · intro fresh j less kept c loads same
    exact fresh (List.mem_map.mpr ⟨c, mem_keptValues.mpr ⟨j, less, kept, loads⟩, same⟩)

theorem keptValues_succ_of_kept {n : Nat} {b : β} (kept : Kept load kind xs n)
    (loads : valueAt load xs n = some b) :
    keptValues load kind xs (n + 1) = keptValues load kind xs n ++ [b] := by
  simp [keptValues, List.range_succ, List.filter_append, kept, loads]

theorem keptValues_succ_of_not_kept {n : Nat} (dropped : ¬ Kept load kind xs n) :
    keptValues load kind xs (n + 1) = keptValues load kind xs n := by
  simp [keptValues, List.range_succ, List.filter_append, dropped]

theorem nodup_keptValues (n : Nat) : ((keptValues load kind xs n).map kind).Nodup := by
  induction n with
  | zero => simp [keptValues]
  | succ n ih =>
      by_cases kept : Kept load kind xs n
      · obtain ⟨b, loads, fresh⟩ := kept_iff_fresh.mp kept
        rw [keptValues_succ_of_kept kept loads, List.map_append, List.nodup_append]
        refine ⟨ih, by simp, ?_⟩
        intro k old k' new
        obtain rfl : k' = kind b := by simpa using new
        intro same
        exact fresh (same ▸ old)
      · rw [keptValues_succ_of_not_kept kept]
        exact ih

/-- Nothing is kept exactly if nothing loads: the first value that loads is kept. -/
theorem keptValues_eq_nil_iff :
    keptValues load kind xs xs.length = [] ↔ ∀ x ∈ xs, load x = none := by
  constructor
  · intro empty
    have nothing : ∀ i, i < xs.length → valueAt load xs i = none := by
      intro i
      induction i using Nat.strong_induction_on with
      | h i ih =>
          intro within
          by_contra loads
          obtain ⟨b, value⟩ := Option.ne_none_iff_exists'.mp loads
          have kept : Kept load kind xs i := by
            refine kept_iff.mpr ⟨b, value, ?_⟩
            intro j less _ c earlier
            rw [ih j less (by omega)] at earlier
            cases earlier
          have inside := mem_keptValues.mpr ⟨i, within, kept, value⟩
          rw [empty] at inside
          cases inside
    intro x inside
    obtain ⟨i, within, rfl⟩ := List.mem_iff_getElem.mp inside
    simpa [valueAt, List.getElem?_eq_getElem within] using nothing i within
  · intro nothing
    rw [List.eq_nil_iff_forall_not_mem]
    intro b inside
    obtain ⟨i, -, -, value⟩ := mem_keptValues.mp inside
    obtain ⟨x, here, loads⟩ := Option.bind_eq_some_iff.mp value
    rw [nothing x (List.mem_of_getElem? here)] at loads
    cases loads

/-- Of every kind that loads, one is kept. -/
theorem exists_kept_of_kind {x : α} {b : β} (inside : x ∈ xs) (loads : load x = some b) :
    ∃ c ∈ keptValues load kind xs xs.length, kind c = kind b := by
  obtain ⟨i, within, rfl⟩ := List.mem_iff_getElem.mp inside
  have value : valueAt load xs i = some b := by
    rw [valueAt, List.getElem?_eq_getElem within]
    exact loads
  by_cases kept : Kept load kind xs i
  · exact ⟨b, mem_keptValues.mpr ⟨i, within, kept, value⟩, rfl⟩
  · rw [kept_iff_fresh] at kept
    have old : kind b ∈ (keptValues load kind xs i).map kind := by
      by_contra fresh
      exact kept ⟨b, value, fresh⟩
    obtain ⟨c, earlier, same⟩ := List.mem_map.mp old
    obtain ⟨j, less, keptAt, loadsAt⟩ := mem_keptValues.mp earlier
    exact ⟨c, mem_keptValues.mpr ⟨j, less.trans within, keptAt, loadsAt⟩, same⟩

variable [DecidableEq κ]

/-- The loop after `n` rounds. -/
theorem foldl_pick_take (load : α → Option β) (kind : β → κ) (n : Nat) (within : n ≤ xs.length) :
    (xs.take n).foldl (pick load kind) (∅, []) =
      (((keptValues load kind xs n).map kind).toFinset, keptValues load kind xs n) := by
  induction n with
  | zero => simp [keptValues]
  | succ n ih =>
      have here : xs[n]? = some xs[n] := List.getElem?_eq_getElem (by omega)
      rw [List.take_succ_eq_append_getElem (by omega), List.foldl_append, ih (by omega),
        List.foldl_cons, List.foldl_nil, pick]
      have value : valueAt load xs n = load xs[n] := by simp [valueAt, here]
      cases loads : load xs[n] with
      | none =>
          have dropped : ¬ Kept load kind xs n := by
            rw [kept_iff_fresh, value, loads]
            simp
          rw [keptValues_succ_of_not_kept dropped]
      | some b =>
          simp only [List.mem_toFinset]
          split
          · rename_i old
            have dropped : ¬ Kept load kind xs n := by
              rw [kept_iff_fresh, value, loads]
              rintro ⟨c, same, fresh⟩
              cases same
              exact fresh old
            rw [keptValues_succ_of_not_kept dropped]
          · rename_i fresh
            have kept : Kept load kind xs n := by
              rw [kept_iff_fresh, value, loads]
              exact ⟨b, rfl, fresh⟩
            rw [keptValues_succ_of_kept kept (value.trans loads)]
            rw [List.map_append, List.toFinset_append, Finset.union_comm]
            rfl

/-- **The loop returns the values at the kept positions**, in their order. -/
theorem foldl_pick (load : α → Option β) (kind : β → κ) (xs : List α) :
    (xs.foldl (pick load kind) (∅, [])).2 = keptValues load kind xs xs.length := by
  have whole := foldl_pick_take load kind xs.length le_rfl
  rw [List.take_length] at whole
  rw [whole]

end RecommEngine.Theory.FirstOfKind
