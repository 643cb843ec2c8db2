/-
# Util.LocklessCuts -- where the cleaner may cut beside a builder

Two sides of `Util.LocklessRace`.  As long as the cleaner cuts behind nodes of the list
the two threads write different links, and no interleaving harms it
(`cuts_behind_front_sound`): the list is what the operations make of it in the order of
their swaps.

A cut at the fake front, where all postings of a token have expired, writes the cell that
a push reads and swaps.  If it falls between the two, the push puts a node in front of
nodes that are recycled, and when the pool hands the first of them out again the list
becomes a ring (`stale_push_loops`): no reader's loop over it ends.
-/
import RecommEngine.Util.LocklessRace

namespace RecommEngine.Util

set_option autoImplicit false

open Theory.Chain Theory.Run

namespace ListRace

variable {α : Type} [Inhabited α]

/-! ## Cuts behind the front -/

omit [Inhabited α] in
/-- The cleaner erases behind a node of the list, not behind the fake front. -/
def BehindFront (s : ListRace α) : RaceEvent α → Prop
  | .eraseAfter (some node) => node ∈ s.list.nodes
  | _ => True

omit [Inhabited α] in
instance (s : ListRace α) : DecidablePred s.BehindFront
  | .eraseAfter (some node) => inferInstanceAs (Decidable (node ∈ s.list.nodes))
  | .eraseAfter none | .pushFront _ | .builder | .cleaner => .isTrue trivial

omit [Inhabited α] in
theorem BehindFront.allowed {s : ListRace α} {e : RaceEvent α} (behind : s.BehindFront e) :
    s.Allowed e := by
  cases e with
  | eraseAfter node =>
      cases node with
      | none => trivial
      | some node => exact List.mem_cons_of_mem _ behind
  | _ => trivial

/-- What was read is still there, and no mark is the fake front. -/
structure Unraced (s : ListRace α) : Prop where
  swap : ∀ node seen, s.push = .swap node seen → s.list.next s.list.front = seen
  cut : ∀ node p, s.erase = .cut node p → node ≠ s.list.front ∧ s.list.next node = p

omit [Inhabited α] in
theorem Unraced.fresh {s : ListRace α} (unraced : s.Unraced) (e : RaceEvent α) :
    s.FreshLinks e := by
  cases e with
  | builder =>
      show PushPc.FreshSwap s.list s.push
      cases here : s.push with
      | swap node seen => exact unraced.swap node seen here
      | _ => trivial
  | cleaner =>
      show ErasePc.FreshCut s.list s.erase
      cases here : s.erase with
      | cut node p => exact (unraced.cut node p here).2
      | _ => trivial
  | _ => trivial

/-- `Allocate` hands out no node of the list. -/
theorem next_allocate {s : ListRace α} {chain freed : List Addr} (placed : s.Placed chain freed)
    {a : Addr} (inside : a ∈ s.list.front :: chain) : s.list.allocate.2.next a = s.list.next a := by
  apply s.list.allocate_cells.next
  rintro rfl
  rcases s.list.allocate_frame.origin with new | pooled
  · exact (placed.mem_iff.mp (List.mem_append_left _ inside)).ne new
  · exact placed.off_chain (List.mem_append_left _ pooled) inside

omit [Inhabited α] in
theorem Unraced.builder {s : ListRace α} {chain freed : List Addr} (unraced : s.Unraced)
    (placed : s.Placed chain freed) : s.builder.Unraced := by
  cases here : s.push with
  | link node =>
      have held : node ∈ s.push.hand := by simp [here, PushPc.hand]
      have off := placed.hand_off_chain held
      have other : ∀ a ∈ s.list.front :: chain,
          Function.update s.list.next node (s.list.next s.list.front) a = s.list.next a := by
        intro a inside
        apply Function.update_of_ne
        rintro rfl
        exact off inside
      rw [ListRace.builder, here]
      refine ⟨?_, ?_⟩
      · intro node' seen same
        obtain ⟨-, rfl⟩ := PushPc.swap.inj same
        exact other _ List.mem_cons_self
      · intro m p same
        obtain ⟨behind, read⟩ := unraced.cut m p same
        exact ⟨behind, (other m (placed.inside m p same)).trans read⟩
  | swap node seen =>
      rw [ListRace.builder, here]
      refine ⟨(fun _ _ same => by cases same), ?_⟩
      intro m p same
      obtain ⟨behind, read⟩ := unraced.cut m p same
      exact ⟨behind, (Function.update_of_ne behind _ _).trans read⟩
  | idle =>
      rw [ListRace.builder, here]
      exact unraced
  | _ =>
      rw [ListRace.builder, here]
      exact ⟨(fun _ _ same => by cases same), unraced.cut⟩

omit [Inhabited α] in
theorem Unraced.cleaner {s : ListRace α} (unraced : s.Unraced) : s.cleaner.Unraced := by
  cases here : s.erase with
  | cut node p =>
      obtain ⟨behind, -⟩ := unraced.cut node p here
      rw [ListRace.cleaner, here]
      refine ⟨?_, (fun _ _ same => by cases same)⟩
      intro node' seen same
      exact (Function.update_of_ne behind.symm _ _).trans (unraced.swap node' seen same)
  | idle =>
      rw [ListRace.cleaner, here]
      exact unraced
  | _ =>
      rw [ListRace.cleaner, here]
      exact ⟨unraced.swap, (fun _ _ same => by cases same)⟩

theorem Unraced.step {s : ListRace α} {chain freed : List Addr} (unraced : s.Unraced)
    (placed : s.Placed chain freed) {e : RaceEvent α} (behind : s.BehindFront e) :
    (s.step e).Unraced := by
  cases e with
  | pushFront value =>
      show (s.pushFront value).Unraced
      unfold ListRace.pushFront
      split
      · refine ⟨(fun _ _ same => by cases same), ?_⟩
        intro m p same
        obtain ⟨off, read⟩ := unraced.cut m p same
        rw [← s.list.allocate_cells.front] at off
        exact ⟨off, (next_allocate placed (placed.inside m p same)).trans read⟩
      · exact unraced
  | builder => exact unraced.builder placed
  | eraseAfter node =>
      cases node with
      | none => exact unraced
      | some node =>
          show (s.eraseAfter node).Unraced
          unfold ListRace.eraseAfter
          split
          · refine ⟨unraced.swap, ?_⟩
            intro m p same
            obtain ⟨rfl, rfl⟩ := ErasePc.cut.inj same
            refine ⟨?_, rfl⟩
            intro atFront
            have same' : node = s.list.front := atFront
            rw [BehindFront, placed.nodes_eq, same'] at behind
            exact (List.nodup_cons.mp placed.chain_nodup).1 behind
          · exact unraced
  | cleaner => exact unraced.cleaner

/-- **Cuts behind the front never race.**  In every interleaving in which the cleaner erases
behind nodes of the list, all nodes are in their places, and the list is what the swaps
and cuts make of it, in their order. -/
theorem cuts_behind_front_sound (es : List (RaceEvent α))
    (behind : Along step BehindFront start es) :
    Along step FreshLinks start es ∧
      (∀ pre, pre <+: es → (run step start pre).IsPlaced) ∧
      (run step start es).list.nodes = start.listRun [] es := by
  have always : ∀ pre, pre <+: es →
      (run step start pre).IsPlaced ∧ (run step start pre).Unraced := by
    apply run_history (I := fun (_ : List (RaceEvent α)) (s : ListRace α) => s.IsPlaced ∧ s.Unraced)
      ⟨⟨[], [], placed_start⟩, (fun _ _ same => by cases same), (fun _ _ same => by cases same)⟩
    rintro pre e inside ⟨⟨chain, freed, placed⟩, unraced⟩
    have here := behind.at inside
    obtain ⟨freed', placed', -⟩ := (placed.step here.allowed).2 (unraced.fresh e)
    exact ⟨⟨_, freed', placed'⟩, unraced.step placed here⟩
  have fresh : Along step FreshLinks start es := by
    rw [along_iff]
    intro pre e inside
    exact (always pre ((List.prefix_append pre [e]).trans inside)).2.fresh e
  have allowed : Along step Allowed start es := by
    rw [along_iff]
    exact fun pre e inside => (behind.at inside).allowed
  refine ⟨fresh, fun pre inside => (always pre inside).1, ?_⟩
  obtain ⟨freed, placed⟩ := placed_run placed_start allowed fresh
  exact placed.nodes_eq

/-! ## After a stale push -/

omit [Inhabited α] in
/-- No bound is enough for a reader's walk over the list. -/
def Loops (l : LocklessList α) : Prop :=
  ∀ fuel, (follow l.next fuel (l.next l.front)).length = fuel

omit [Inhabited α] in
/-- The list leads to a node of the pool, in which `ahead` come before it. -/
structure Relinked (l : LocklessList α) (x : Addr) (pre ahead : List Addr) : Prop where
  path : Links (Function.update l.next x none) l.front (pre ++ [x])
  nodup : (l.front :: (pre ++ [x])).Nodup
  apart : ∀ y ∈ ahead, y ∉ l.front :: (pre ++ [x])
  once : ahead.Nodup
  pool : ∃ rest, l.objPool = ahead ++ x :: rest
  buffer : l.bufferNum = 0

theorem pushed_of_pool {l : LocklessList α} (buffer : l.bufferNum = 0) {y : Addr} {rest : List Addr}
    (pool : l.objPool = y :: rest) (value : α) :
    (pushed l value).front = l.front ∧ (pushed l value).bufferNum = 0 ∧
      (pushed l value).objPool = rest ∧
      (pushed l value).next = Function.update
        (Function.update (Function.update l.next y none) y (Function.update l.next y none l.front))
        l.front (some y) := by
  have allocated : l.allocate =
      (y, { l with next := Function.update l.next y none, objPool := rest }) := by
    rw [LocklessList.allocate, if_neg (by simp [pool, buffer])]
    split
    · rename_i none_
      rw [pool] at none_
      cases none_
    · rename_i node more split
      rw [pool] at split
      obtain ⟨rfl, rfl⟩ := List.cons.inj split
      rfl
  rw [pushed, allocated]
  exact ⟨rfl, buffer, rfl, rfl⟩

/-- A push of another node leaves the way to it. -/
theorem Relinked.push {l : LocklessList α} {x y : Addr} {pre ahead : List Addr}
    (relinked : Relinked l x pre (y :: ahead)) (value : α) :
    Relinked (pushed l value) x (y :: pre) ahead := by
  obtain ⟨rest, pool⟩ := relinked.pool
  obtain ⟨front, buffer, pool', next⟩ := pushed_of_pool relinked.buffer pool value
  have off := relinked.apart y List.mem_cons_self
  have notFront : x ≠ l.front := by
    rintro rfl
    exact (List.nodup_cons.mp relinked.nodup).1 (by simp)
  have other : x ≠ y := by
    rintro rfl
    exact off (by simp)
  have yFront : y ≠ l.front := by
    rintro rfl
    exact off List.mem_cons_self
  have spliced := relinked.path.splice relinked.nodup off
  refine ⟨?_, ?_, ?_, (List.nodup_cons.mp relinked.once).2, ⟨rest, pool'⟩, buffer⟩
  · rw [front, next]
    refine spliced.congr fun b _ => ?_
    simp only [Function.update_apply]
    grind
  · rw [front, List.cons_append]
    refine List.nodup_cons.mpr ⟨?_, List.nodup_cons.mpr ⟨?_, (List.nodup_cons.mp relinked.nodup).2⟩⟩
    · intro inside
      rcases List.mem_cons.mp inside with same | later
      · exact yFront same.symm
      · exact (List.nodup_cons.mp relinked.nodup).1 later
    · exact fun inside => off (List.mem_cons_of_mem _ inside)
  · intro z inside
    have zOff := relinked.apart z (List.mem_cons_of_mem _ inside)
    have zy : z ≠ y := by
      rintro rfl
      exact (List.nodup_cons.mp relinked.once).1 inside
    rw [front]
    simp only [List.cons_append, List.mem_cons, not_or] at zOff ⊢
    exact ⟨zOff.1, zy, zOff.2⟩

/-- The push of the node itself closes the ring. -/
theorem Relinked.loops {l : LocklessList α} {x : Addr} {pre : List Addr}
    (relinked : Relinked l x pre []) (value : α) : Loops (pushed l value) := by
  obtain ⟨rest, pool⟩ := relinked.pool
  obtain ⟨front, -, -, next⟩ := pushed_of_pool relinked.buffer pool value
  have frontOff := (List.nodup_cons.mp relinked.nodup).1
  have xOff : x ∉ pre := by
    intro inside
    have nodup := (List.nodup_cons.mp relinked.nodup).2
    exact (List.nodup_append.mp nodup).2.2 x inside x (List.mem_singleton_self x) rfl
  have closed : ∀ a ∈ pre ++ [x], ∃ b ∈ pre ++ [x], (pushed l value).next a = some b := by
    intro a inside
    have notFront : a ≠ l.front := by
      rintro rfl
      exact frontOff inside
    rw [next, Function.update_of_ne notFront]
    rcases List.mem_append.mp inside with before | last
    · have other : a ≠ x := by
        rintro rfl
        exact xOff before
      obtain ⟨b, member, link⟩ := relinked.path.exists_next (List.mem_cons_of_mem _ before)
      exact ⟨b, member, (Function.update_of_ne other _ _).trans link⟩
    · obtain rfl := List.mem_singleton.mp last
      obtain ⟨b, member, link⟩ := relinked.path.exists_next List.mem_cons_self
      exact ⟨b, member, (Function.update_self _ _ _).trans link⟩
  intro fuel
  rw [front, next, Function.update_self, ← next]
  exact length_follow_of_closed closed fuel (List.mem_append_right _ (List.mem_singleton_self x))

theorem loops_of_relinked {s : ListRace α} (idle : s.push = .idle) {x : Addr}
    {pre ahead : List Addr} (relinked : Relinked s.list x pre ahead) {values : List α}
    (enough : values.length = ahead.length + 1) :
    Loops (run step s (values.flatMap wholePush)).list := by
  induction ahead generalizing s pre values with
  | nil =>
      obtain ⟨value, rfl⟩ := List.length_eq_one_iff.mp enough
      rw [List.flatMap_singleton, run_wholePush idle]
      exact relinked.loops value
  | cons y ahead ih =>
      obtain ⟨value, values, rfl⟩ := List.exists_cons_of_length_pos (l := values) (by omega)
      rw [List.flatMap_cons, run_append, run_wholePush idle]
      exact ih (s := { s with list := pushed s.list value }) idle (relinked.push value)
        (by simpa using enough)

omit [Inhabited α] in
/-- What the builder has read is still in front, or it was taken off the list since. -/
def Traced (s : ListRace α) (chain : List Addr) : Prop :=
  ∀ node seen, s.push = .swap node seen → s.list.next s.list.front = seen ∨
    ∃ x, seen = some x ∧ x < s.list.fresh ∧ x ∉ s.list.front :: chain ∧ x ≠ node

omit [Inhabited α] in
theorem Traced.builder {s : ListRace α} {chain freed : List Addr} (traced : s.Traced chain)
    (placed : s.Placed chain freed) : s.builder.Traced (s.listAfter chain .builder) := by
  rw [listAfter]
  cases here : s.push with
  | idle =>
      rw [ListRace.builder, here]
      exact traced
  | link node =>
      have held : node ∈ s.push.hand := by simp [here, PushPc.hand]
      have frontOther : s.list.front ≠ node := by
        rintro rfl
        exact placed.hand_off_chain held List.mem_cons_self
      rw [ListRace.builder, here]
      intro node' seen same
      obtain ⟨-, rfl⟩ := PushPc.swap.inj same
      exact Or.inl (Function.update_of_ne frontOther _ _)
  | _ =>
      rw [ListRace.builder, here]
      exact fun _ _ same => by cases same

omit [Inhabited α] in
theorem Traced.cleaner {s : ListRace α} {chain freed : List Addr} (traced : s.Traced chain)
    (placed : s.Placed chain freed) : s.cleaner.Traced (s.listAfter chain .cleaner) := by
  rw [listAfter]
  cases here : s.erase with
  | idle =>
      rw [ListRace.cleaner, here]
      exact traced
  | cut m p =>
      rw [ListRace.cleaner, here]
      obtain ⟨off, split⟩ := exists_keepTo s.list.front m chain
      intro node seen same
      have swapping : s.push = .swap node seen := same
      rcases traced node seen swapping with there | ⟨x, rfl, known, gone, other⟩
      · by_cases atFront : m = s.list.front
        · -- The whole list is cut off, with what the builder has read.
          cases seen with
          | none =>
              refine Or.inl ?_
              rw [atFront]
              exact Function.update_self _ _ _
          | some x =>
              have member : x ∈ chain := by
                have links := links_iff_leads.mp placed.links
                rw [there] at links
                cases chain with
                | nil => cases links
                | cons y chain =>
                    obtain rfl := Option.some.inj links.1
                    exact List.mem_cons_self
              have held : node ∈ s.push.hand := by simp [swapping, PushPc.hand]
              refine Or.inr ⟨x, rfl, ?_, ?_, ?_⟩
              · exact placed.mem_iff.mp (List.mem_append_left _ (List.mem_cons_of_mem _ member))
              · show x ∉ s.list.front :: keepTo s.list.front m chain
                rw [keepTo, if_pos atFront, List.mem_singleton]
                rintro rfl
                exact (List.nodup_cons.mp placed.chain_nodup).1 member
              · rintro rfl
                exact placed.hand_off_chain held (List.mem_cons_of_mem _ member)
        · exact Or.inl ((Function.update_of_ne (Ne.symm atFront) _ _).trans there)
      · refine Or.inr ⟨x, rfl, known, ?_, other⟩
        intro inside
        apply gone
        rcases List.mem_cons.mp inside with rfl | kept
        · exact List.mem_cons_self
        · rw [split]
          exact List.mem_cons_of_mem _ (List.mem_append_left _ kept)
  | recycle p =>
      rw [ListRace.cleaner, here]
      exact traced
  | load count =>
      rw [ListRace.cleaner, here]
      exact traced
  | store count num =>
      rw [ListRace.cleaner, here]
      exact traced

theorem Traced.step {s : ListRace α} {chain freed : List Addr} (traced : s.Traced chain)
    (placed : s.Placed chain freed) (e : RaceEvent α) :
    (s.step e).Traced (s.listAfter chain e) := by
  cases e with
  | pushFront value =>
      show (s.pushFront value).Traced chain
      unfold ListRace.pushFront
      split
      · exact fun _ _ same => by cases same
      · exact traced
  | builder => exact traced.builder placed
  | eraseAfter node =>
      cases node with
      | none => exact traced
      | some node =>
          show (s.eraseAfter node).Traced chain
          unfold ListRace.eraseAfter
          split
          · exact traced
          · exact traced
  | cleaner => exact traced.cleaner placed

theorem bufferNum_step (s : ListRace α) (e : RaceEvent α) :
    (s.step e).list.bufferNum = s.list.bufferNum := by
  cases e with
  | pushFront value =>
      show (s.pushFront value).list.bufferNum = _
      unfold ListRace.pushFront
      split
      · exact s.list.allocate_cells.buffer
      · rfl
  | builder =>
      show s.builder.list.bufferNum = _
      unfold ListRace.builder
      split <;> rfl
  | eraseAfter node =>
      cases node with
      | none => rfl
      | some node =>
          show (s.eraseAfter node).list.bufferNum = _
          unfold ListRace.eraseAfter
          split <;> rfl
  | cleaner =>
      show s.cleaner.list.bufferNum = _
      unfold ListRace.cleaner
      split <;> rfl

omit [Inhabited α] in
/-- The swap of a stale push leads from the front to a node of the pool. -/
theorem Placed.relinked {s : ListRace α} {chain : List Addr} (placed : s.Placed chain [])
    {node x : Addr} (here : s.push = .swap node (some x)) (known : x < s.list.fresh)
    (gone : x ∉ s.list.front :: chain) (other : x ≠ node) (buffer : s.list.bufferNum = 0) :
    ∃ ahead, Relinked { s.list with
      next := Function.update s.list.next s.list.front (some node)
      nodeNum := s.list.nodeNum + 1 } x [node] ahead := by
  -- What was read is in no other place than the pool.
  have pooled : x ∈ s.list.objPool := by
    have inside := placed.mem_iff.mpr known
    rw [places, here] at inside
    simp only [PushPc.hand, List.mem_append, List.mem_cons, List.not_mem_nil,
      or_false] at inside gone
    tauto
  obtain ⟨ahead, rest, pool⟩ := List.append_of_mem pooled
  have held : node ∈ s.push.hand := by simp [here, PushPc.hand]
  have nodeOff := placed.hand_off_chain held
  have nodup := placed.rest_nodup
  rw [pool, List.nodup_append] at nodup
  have front_ne : s.list.front ≠ node ∧ s.list.front ≠ x :=
    ⟨fun same => nodeOff (same ▸ List.mem_cons_self), fun same => gone (same ▸ List.mem_cons_self)⟩
  refine ⟨ahead, ⟨?_, ?_, Function.update_self _ _ _⟩, ?_, ?_, ?_, ⟨rest, pool⟩, buffer⟩
  · show Function.update (Function.update s.list.next s.list.front (some node)) x none
      s.list.front = _
    rw [Function.update_of_ne front_ne.2, Function.update_self]
  · show Function.update (Function.update s.list.next s.list.front (some node)) x none node = _
    rw [Function.update_of_ne other.symm, Function.update_of_ne front_ne.1.symm]
    exact placed.linked node (some x) here
  · show [s.list.front, node, x].Nodup
    simp [front_ne, other.symm]
  · intro y inside
    have inPool : y ∈ ahead ++ x :: rest := List.mem_append_left _ inside
    have offFront : y ≠ s.list.front := by
      rintro rfl
      rw [← pool] at inPool
      exact placed.off_chain (List.mem_append_left _ inPool) List.mem_cons_self
    have offNode : y ≠ node := nodup.2.2 y inPool node (List.mem_append_left _ held)
    have offX : y ≠ x := (List.nodup_append.mp nodup.1).2.2 y inside x List.mem_cons_self
    show y ∉ [s.list.front, node, x]
    simp [offFront, offNode, offX]
  · exact (List.nodup_append.mp nodup.1).1

/-- **A stale push closes a ring.**  All accesses have been fresh so far, a push is about to
swap, a cut at the front has taken off what it has read, and the cleaner has recycled
that.  Then the push puts a node of the pool back on the list, and whole pushes, one
more than there are nodes before that one in the pool, make the list loop. -/
theorem stale_push_loops (es : List (RaceEvent α)) (allowed : Along step Allowed start es)
    (fresh : Along step FreshLinks start es) (node : Addr) (seen : Option Addr)
    (here : (run step start es).push = .swap node seen)
    (stale : (run step start es).list.next (run step start es).list.front ≠ seen)
    (recycled : (run step start es).erase.cutOff = none) :
    ∃ x ahead, seen = some x ∧
      Relinked (run step start (es ++ List.replicate 3 .builder)).list x [node] ahead ∧
      ∀ values : List α, values.length = ahead.length + 1 →
        Loops (run step start
          (es ++ (List.replicate 3 .builder ++ values.flatMap wholePush))).list := by
  have reached : ∃ chain freed, (run step start es).Placed chain freed ∧
      (run step start es).Traced chain ∧ (run step start es).list.bufferNum = 0 := by
    refine run_history (I := fun (_ : List (RaceEvent α)) (s : ListRace α) => ∃ chain freed,
      s.Placed chain freed ∧ s.Traced chain ∧ s.list.bufferNum = 0)
      ⟨[], [], placed_start, (fun _ _ same => by cases same), rfl⟩ ?_ es (List.prefix_refl es)
    rintro pre e inside ⟨chain, freed, placed, traced, buffer⟩
    obtain ⟨freed', placed', -⟩ := (placed.step (allowed.at inside)).2 (fresh.at inside)
    exact ⟨_, freed', placed', traced.step placed e, (bufferNum_step _ e).trans buffer⟩
  simp only [run_append]
  generalize run step start es = s at here stale recycled reached
  obtain ⟨chain, freed, placed, traced, buffer⟩ := reached
  obtain ⟨x, rfl, known, gone, other⟩ := (traced node seen here).resolve_left stale
  obtain rfl := placed.freed_nil recycled
  obtain ⟨ahead, relinked⟩ := placed.relinked here known gone other buffer
  have swapped : run step s (List.replicate 3 .builder) = { s with
      list := { s.list with
        next := Function.update s.list.next s.list.front (some node)
        nodeNum := s.list.nodeNum + 1 }
      push := .idle } := by
    obtain ⟨list, push, erase⟩ := s
    obtain rfl : push = .swap node (some x) := here
    rfl
  rw [swapped]
  exact ⟨x, ahead, rfl, relinked, fun values enough => loops_of_relinked rfl relinked enough⟩

end ListRace

/-! ## A cut beside a push, and one at the front -/

namespace EmptiedList

open ListRace

/-- The cleaner cuts behind a node while the builder pushes another. -/
def behind : List (RaceEvent Nat) :=
  wholePush 1 ++ wholePush 2 ++
    [.eraseAfter (some 2), .pushFront 3, .builder, .builder, .cleaner, .builder, .cleaner]

theorem cuts_behind_front_sound_behind :
    (run step (start : ListRace Nat) behind).IsPlaced ∧
      (run step (start : ListRace Nat) behind).list.nodes = [3, 2] := by
  obtain ⟨-, placed, nodes⟩ := cuts_behind_front_sound behind (by decide +kernel)
  exact ⟨placed behind (List.prefix_refl _), nodes.trans (by decide +kernel)⟩

theorem stale_push_loops_events :
    ∃ x ahead, some 1 = some x ∧
      Relinked (run step (start : ListRace Nat) (events ++ List.replicate 3 .builder)).list x [2] ahead ∧
      ∀ values : List Nat, values.length = ahead.length + 1 → Loops (run step start
        (events ++ (List.replicate 3 .builder ++ values.flatMap wholePush))).list :=
  stale_push_loops events (by decide +kernel) (by decide +kernel) 2 (some 1) (by rfl)
    (by decide +kernel) (by rfl)

end EmptiedList

end RecommEngine.Util
