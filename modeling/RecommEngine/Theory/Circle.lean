/-
# Theory.Circle -- the next point on a circle

The values of a linear order, taken as positions on a circle that is walked
upwards and starts again at the least value after the greatest.  `Clockwise h a b`
says that a walk from `h` meets `a` no later than `b`; `IsNext s h k`, that `k`
is the first point of `s` on that walk.  There is at most one such point
(`IsNext.unique`), and a point that is next among more points is next among
fewer (`IsNext.mono`).

`next` finds it in an ordered list of entries: the first entry at or behind `h`,
or the first of all if there is none.
-/
import Mathlib

namespace RecommEngine.Theory.Circle

set_option autoImplicit false

variable {α β : Type} [LE α] [LT α] [DecidableLE α] [Std.IsLinearOrder α] [Std.LawfulOrderLT α]

/-- Walking upwards from `h`, and on from the least value, `a` is met no later
than `b`. -/
def Clockwise (h a b : α) : Prop :=
  (h ≤ a ∧ b < h) ∨ ((h ≤ a ↔ h ≤ b) ∧ a ≤ b)

omit [DecidableLE α] in
theorem Clockwise.antisymm {h a b : α} (ab : Clockwise h a b) (ba : Clockwise h b a) : a = b := by
  rcases ab with ⟨ha, bh⟩ | ⟨side, le⟩
  · rcases ba with ⟨hb, -⟩ | ⟨side', -⟩
    · exact absurd hb (Std.not_le.mpr bh)
    · exact absurd (side'.mpr ha) (Std.not_le.mpr bh)
  · rcases ba with ⟨hb, ah⟩ | ⟨-, ge⟩
    · exact absurd (side.mpr hb) (Std.not_le.mpr ah)
    · exact Std.le_antisymm le ge

/-- `k` is the first point of `s` on the walk from `h`. -/
structure IsNext (s : Set α) (h k : α) : Prop where
  mem : k ∈ s
  first : ∀ other ∈ s, Clockwise h k other

omit [DecidableLE α] in
theorem IsNext.unique {s : Set α} {h k k' : α} (next : IsNext s h k) (next' : IsNext s h k') :
    k = k' :=
  (next.first k' next'.mem).antisymm (next'.first k next.mem)

omit [DecidableLE α] [Std.IsLinearOrder α] [Std.LawfulOrderLT α] in
theorem IsNext.mono {s t : Set α} {h k : α} (next : IsNext t h k) (fewer : s ⊆ t) (mem : k ∈ s) :
    IsNext s h k :=
  ⟨mem, fun other inside => next.first other (fewer inside)⟩

omit [DecidableLE α] in
/-- A walk that starts on a point meets it first. -/
theorem isNext_self {s : Set α} {k : α} (mem : k ∈ s) : IsNext s k k := by
  refine ⟨mem, ?_⟩
  intro other _
  by_cases behind : k ≤ other
  · exact Or.inr ⟨iff_of_true (Std.le_refl k) behind, behind⟩
  · exact Or.inl ⟨Std.le_refl k, Std.not_le.mp behind⟩

/-- The entry of the next point in a list of entries ordered by their points. -/
def next (entries : List (α × β)) (h : α) : Option (α × β) :=
  (entries.find? fun e => h ≤ e.1).or entries.head?

omit [Std.IsLinearOrder α] [LT α] [Std.LawfulOrderLT α] in
theorem next_eq_none {entries : List (α × β)} {h : α} : next entries h = none ↔ entries = [] := by
  constructor
  · intro missing
    exact List.head?_eq_none_iff.mp (Option.or_eq_none_iff.mp missing).2
  · rintro rfl
    rfl

/-- In an ordered list, `next` is the entry of the next point. -/
theorem isNext_of_next {entries : List (α × β)} {h : α} {e : α × β}
    (ordered : entries.Pairwise fun a b => a.1 < b.1) (found : next entries h = some e) :
    e ∈ entries ∧ IsNext {k | ∃ v, (k, v) ∈ entries} h e.1 := by
  rcases behind : entries.find? (fun e => decide (h ≤ e.1)) with _ | e'
  · -- every point is before `h`: the walk wraps around to the least one
    have wrapped : entries.head? = some e := by simpa [next, behind] using found
    have before : ∀ other ∈ entries, other.1 < h := by
      intro other inside
      have := List.find?_eq_none.mp behind other inside
      exact Std.not_le.mp (by simpa using this)
    obtain ⟨rest, rfl⟩ : ∃ rest, entries = e :: rest := by
      cases entries with
      | nil => simp at wrapped
      | cons x rest => exact ⟨rest, by simpa using wrapped⟩
    refine ⟨by simp, ⟨e.2, by simp⟩, ?_⟩
    rintro k ⟨v, inside⟩
    refine Or.inr ⟨iff_of_false ?_ ?_, ?_⟩
    · exact Std.not_le.mpr (before e (by simp))
    · exact Std.not_le.mpr (before _ inside)
    · rcases List.mem_cons.mp inside with same | later
      · rw [← same]
        exact Std.le_refl _
      · exact Std.le_of_lt (List.rel_of_pairwise_cons ordered later)
  · have here : e' = e := by simpa [next, behind] using found
    subst here
    obtain ⟨atOrBehind, front, rest, rfl, before⟩ := List.find?_eq_some_iff_append.mp behind
    have atOrBehind : h ≤ e'.1 := by simpa using atOrBehind
    refine ⟨by simp, ⟨e'.2, by simp⟩, ?_⟩
    rintro k ⟨v, inside⟩
    rcases List.mem_append.mp inside with earlier | later
    · refine Or.inl ⟨atOrBehind, ?_⟩
      have := before (k, v) earlier
      exact Std.not_le.mp (by simpa using this)
    · have le : e'.1 ≤ k := by
        rcases List.mem_cons.mp later with same | later
        · rw [← same]
          exact Std.le_refl _
        · exact Std.le_of_lt (List.rel_of_pairwise_cons (List.pairwise_append.mp ordered).2.1 later)
      exact Or.inr ⟨iff_of_true atOrBehind (Std.le_trans atOrBehind le), le⟩

end RecommEngine.Theory.Circle
