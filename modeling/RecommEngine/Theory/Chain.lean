/-
# Theory.Chain -- null-terminated chains in a heap

A singly linked list is a successor function `next : α → Option α` and a start
node.  `Links next a l` says that following `next` from `a` visits exactly the
nodes of `l` and then stops at a null link.  The list `l` is a function of the
start (`Links.unique`), and the two writes a front-insert/back-cut list makes
have exact effects on it: splicing a node in behind the start (`Links.splice`)
and cutting a link (`Links.cut`).

A chain can also start at a link (`Leads`), as the part behind a cut does; over the same
nodes two chains start alike (`Leads.same_start`).

`follow` and `advance` are the two loops over such a chain, with an explicit
step bound so that they are total on every heap.  On a chain no longer than the
bound they compute the chain itself (`follow_eq`) and the last node of the
longest prefix that satisfies a predicate (`advance_eq`).  Where every node links to
another of a set, no bound is large enough (`length_follow_of_closed`).
-/
import Mathlib

namespace RecommEngine.Theory.Chain

set_option autoImplicit false

variable {α : Type}

/-- Following `next` from `a` visits the nodes of `l` in order and then ends. -/
def Links (next : α → Option α) : α → List α → Prop
  | a, [] => next a = none
  | a, b :: l => next a = some b ∧ Links next b l

theorem Links.unique {next : α → Option α} {a : α} {l l' : List α}
    (links : Links next a l) (links' : Links next a l') : l = l' := by
  induction l generalizing a l' with
  | nil =>
      cases l' with
      | nil => rfl
      | cons b l' => simp [Links] at links links'; simp [links] at links'
  | cons b l ih =>
      cases l' with
      | nil => simp [Links] at links links'; simp [links'] at links
      | cons b' l' =>
          obtain ⟨head, tail⟩ := links
          obtain ⟨head', tail'⟩ := links'
          rw [head, Option.some.injEq] at head'
          subst head'
          rw [ih tail tail']

theorem Links.congr {next next' : α → Option α} {a : α} {l : List α}
    (same : ∀ b ∈ a :: l, next' b = next b) (links : Links next a l) : Links next' a l := by
  induction l generalizing a with
  | nil => simpa [Links, same a (by simp)] using links
  | cons b l ih =>
      obtain ⟨head, tail⟩ := links
      refine ⟨by rw [same a (by simp), head], ih (fun c hc => same c ?_) tail⟩
      exact List.mem_cons_of_mem _ hc

theorem Links.suffix {next : α → Option α} {a b : α} {l₁ l₂ : List α}
    (links : Links next a (l₁ ++ b :: l₂)) : Links next b l₂ := by
  induction l₁ generalizing a with
  | nil => exact links.2
  | cons c l₁ ih => exact ih links.2

section Writes

variable [DecidableEq α]

theorem Links.update {next : α → Option α} {a b : α} {l : List α} {x : Option α}
    (links : Links next a l) (outside : b ∉ a :: l) :
    Links (Function.update next b x) a l := by
  refine links.congr fun c hc => Function.update_of_ne ?_ _ _
  rintro rfl
  exact outside hc

/-- Splicing `n` in behind the start: the new node takes the start's link, and
the start links to the new node. -/
theorem Links.splice {next : α → Option α} {a n : α} {l : List α}
    (links : Links next a l) (nodup : (a :: l).Nodup) (fresh : n ∉ a :: l) :
    Links (Function.update (Function.update next n (next a)) a (some n)) a (n :: l) := by
  have ne : n ≠ a := fun h => fresh (by simp [h])
  refine ⟨by simp, ?_⟩
  have behind : Links (Function.update next n (next a)) n l := by
    cases l with
    | nil => simpa [Links] using links
    | cons b l =>
        obtain ⟨head, tail⟩ := links
        refine ⟨by simpa using head, tail.update fun hn => fresh ?_⟩
        exact List.mem_cons_of_mem _ hn
  apply behind.update
  simp only [List.mem_cons, not_or]
  exact ⟨ne.symm, (List.nodup_cons.mp nodup).1⟩

theorem Links.cut_front (next : α → Option α) (a : α) :
    Links (Function.update next a none) a [] := by
  simp [Links]

/-- Cutting the link behind a node of the chain leaves the prefix that ends at it. -/
theorem Links.cut_mem {next : α → Option α} {a b : α} {l₁ l₂ : List α}
    (links : Links next a (l₁ ++ b :: l₂)) (nodup : (a :: (l₁ ++ b :: l₂)).Nodup) :
    Links (Function.update next b none) a (l₁ ++ [b]) := by
  induction l₁ generalizing a with
  | nil =>
      have ne : a ≠ b := by
        rintro rfl
        simp at nodup
      exact ⟨by simpa [Function.update_of_ne ne] using links.1, Links.cut_front next b⟩
  | cons c l₁ ih =>
      have ne : a ≠ b := by
        rintro rfl
        simp at nodup
      refine ⟨by simpa [Function.update_of_ne ne] using links.1, ih links.2 ?_⟩
      exact (List.nodup_cons.mp nodup).2

end Writes

/-! ## Chains behind a link -/

/-- Following `next` from the link `p` visits the nodes of `l` and then ends. -/
def Leads (next : α → Option α) (p : Option α) : List α → Prop
  | [] => p = none
  | a :: l => p = some a ∧ Links next a l

theorem links_iff_leads {next : α → Option α} {a : α} {l : List α} :
    Links next a l ↔ Leads next (next a) l := by
  cases l <;> rfl

theorem Leads.unique {next : α → Option α} {p : Option α} {l l' : List α}
    (leads : Leads next p l) (leads' : Leads next p l') : l = l' := by
  cases l with
  | nil =>
      cases l' with
      | nil => rfl
      | cons b l' => exact absurd (leads.symm.trans leads'.1) (by simp)
  | cons a l =>
      cases l' with
      | nil => exact absurd (leads.1.symm.trans leads') (by simp)
      | cons b l' =>
          obtain rfl := Option.some.inj (leads.1.symm.trans leads'.1)
          rw [leads.2.unique leads'.2]

theorem Leads.congr {next next' : α → Option α} {p : Option α} {l : List α}
    (same : ∀ b ∈ l, next' b = next b) (leads : Leads next p l) : Leads next' p l := by
  cases l with
  | nil => exact leads
  | cons a l => exact ⟨leads.1, leads.2.congr same⟩

theorem Leads.update [DecidableEq α] {next : α → Option α} {b : α} {p x : Option α} {l : List α}
    (leads : Leads next p l) (outside : b ∉ l) : Leads (Function.update next b x) p l := by
  refine leads.congr fun c inside => Function.update_of_ne ?_ _ _
  rintro rfl
  exact outside inside

/-- A chain as long as another and inside it starts where that starts. -/
theorem Leads.same_start {next : α → Option α} {p q : Option α} {l l' : List α}
    (leads : Leads next p l) (leads' : Leads next q l') (length : l'.length = l.length)
    (inside : ∀ a ∈ l', a ∈ l) : q = p := by
  cases l' with
  | nil =>
      obtain rfl : l = [] := List.length_eq_zero_iff.mp length.symm
      exact leads'.trans leads.symm
  | cons x rest =>
      obtain ⟨before, after, rfl⟩ := List.append_of_mem (inside x List.mem_cons_self)
      have tail : Links next x after := by
        cases before with
        | nil => exact leads.2
        | cons b before => exact leads.2.suffix
      obtain rfl := leads'.2.unique tail
      have none_ : before = [] := by
        rw [List.length_append] at length
        exact List.length_eq_zero_iff.mp (by omega)
      subst none_
      exact leads'.1.trans leads.1.symm

/-- A cut behind `kept`: its last node, or the start, links to the rest and is not in it,
and after the cut the chain is `kept`. -/
theorem Links.cut [DecidableEq α] {next : α → Option α} {a node : α} {kept freed : List α}
    (links : Links next a (kept ++ freed)) (nodup : (a :: (kept ++ freed)).Nodup)
    (at_ : node = kept.getLastD a) :
    Leads next (next node) freed ∧ Links (Function.update next node none) a kept ∧
      node ∉ freed := by
  rcases List.eq_nil_or_concat kept with rfl | ⟨init, last, rfl⟩
  · rw [List.getLastD_nil] at at_
    subst at_
    exact ⟨links_iff_leads.mp links, Links.cut_front _ _, (List.nodup_cons.mp nodup).1⟩
  · rw [List.concat_eq_append, List.getLastD_concat] at at_
    subst at_
    simp only [List.concat_eq_append, List.append_assoc, List.singleton_append] at links nodup ⊢
    have tail := (List.nodup_append.mp (List.nodup_cons.mp nodup).2).2.1
    exact ⟨links_iff_leads.mp links.suffix, links.cut_mem nodup, (List.nodup_cons.mp tail).1⟩

/-- Every node of a chain but its last links to one of the chain. -/
theorem Links.exists_next {next : α → Option α} {a x : α} {l : List α}
    (links : Links next a (l ++ [x])) {b : α} (inside : b ∈ a :: l) : ∃ c ∈ l ++ [x], next b = some c := by
  induction l generalizing a with
  | nil =>
      obtain rfl := List.mem_singleton.mp inside
      exact ⟨x, List.mem_singleton_self x, links.1⟩
  | cons d l ih =>
      rcases List.mem_cons.mp inside with rfl | later
      · exact ⟨d, List.mem_cons_self, links.1⟩
      · obtain ⟨c, member, link⟩ := ih links.2 later
        exact ⟨c, List.mem_cons_of_mem _ member, link⟩

/-! ## The loops -/

/-- `while (p) { visit p; p = p->next }`, at most `fuel` times. -/
def follow (next : α → Option α) : Nat → Option α → List α
  | 0, _ => []
  | _ + 1, none => []
  | fuel + 1, some a => a :: follow next fuel (next a)

theorem follow_eq {next : α → Option α} {a : α} {l : List α} {fuel : Nat}
    (links : Links next a l) (enough : l.length ≤ fuel) : follow next fuel (next a) = l := by
  induction l generalizing a fuel with
  | nil =>
      rw [show next a = none from links]
      cases fuel <;> rfl
  | cons b l ih =>
      obtain ⟨head, tail⟩ := links
      cases fuel with
      | zero => simp at enough
      | succ fuel =>
          rw [head, follow, ih tail (by simpa using enough)]

/-- A loop over nodes that all link on has no end. -/
theorem length_follow_of_closed {next : α → Option α} {ring : List α}
    (closed : ∀ a ∈ ring, ∃ b ∈ ring, next a = some b) (fuel : Nat) {a : α} (start : a ∈ ring) :
    (follow next fuel (some a)).length = fuel := by
  induction fuel generalizing a with
  | zero => rfl
  | succ fuel ih =>
      obtain ⟨b, inside, link⟩ := closed a start
      rw [follow, List.length_cons, link, ih inside]

theorem follow_of_leads {next : α → Option α} {p : Option α} {l : List α} {fuel : Nat}
    (leads : Leads next p l) (enough : l.length ≤ fuel) : follow next fuel p = l := by
  cases l with
  | nil =>
      rw [show p = none from leads]
      cases fuel <;> rfl
  | cons a l =>
      cases fuel with
      | zero => simp at enough
      | succ fuel =>
          rw [leads.1, follow, follow_eq leads.2 (Nat.le_of_succ_le_succ enough)]

/-- `while (cur->next && stay cur->next) cur = cur->next`, at most `fuel` times. -/
def advance (next : α → Option α) (stay : α → Bool) : Nat → α → α
  | 0, cur => cur
  | fuel + 1, cur =>
      match next cur with
      | none => cur
      | some b => if stay b then advance next stay fuel b else cur

theorem advance_eq {next : α → Option α} {stay : α → Bool} {a : α} {l : List α} {fuel : Nat}
    (links : Links next a l) (enough : l.length ≤ fuel) :
    advance next stay fuel a = (l.takeWhile stay).getLastD a := by
  induction l generalizing a fuel with
  | nil =>
      have ends : next a = none := links
      cases fuel <;> simp [advance, ends]
  | cons b l ih =>
      obtain ⟨head, tail⟩ := links
      cases fuel with
      | zero => simp at enough
      | succ fuel =>
          rw [advance, head]
          by_cases hb : stay b
          · simp only [hb, if_true, List.takeWhile_cons_of_pos, List.getLastD_cons]
            exact ih tail (by simpa using enough)
          · simp [hb]

end RecommEngine.Theory.Chain
