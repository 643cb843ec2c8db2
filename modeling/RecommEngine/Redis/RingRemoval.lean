/-
# Redis.RingRemoval -- what calls of AddNode and RemoveNode leave on the ring

`RemoveNode` looks up how many replicas a node has at its first point, and
erases that many points.  The count stored there is the one of the last
`AddNode` that placed points, so the removal is complete exactly if that count
was the largest (`Removable`); `only_added_served` then holds over every run:
all points belong to added nodes, and no key is routed anywhere else.  For nodes
that share no point, a removal leaves the ring of the other nodes
(`removeNode_undoes_addition`).

Poles (`LeftOver`): a node that was added again with fewer replicas keeps points
after its removal, and the removal of an unknown node creates a point under the
empty name.
-/
import RecommEngine.Redis.HashRing

namespace RecommEngine.Redis

set_option autoImplicit false

open Std (ExtTreeMap)
open Theory Theory.Run Util

namespace HashRing

variable (hash : String → UInt32)

/-! ## Runs of calls -/

inductive RingCall where
  | addNode (nodeName : String) (replicas : UInt32)
  | removeNode (nodeName : String)
  deriving DecidableEq

def step (ring : NodeMap) : RingCall → NodeMap
  | .addNode nodeName replicas => (addNode hash ring nodeName replicas).2
  | .removeNode nodeName => removeNode hash ring nodeName

/-- The replica counts a node has been added with since it was removed last.
The node is added if there are any. -/
def additions (nodeName : String) (past : List RingCall) : List UInt32 :=
  past.foldl (fun counts call =>
    match call with
    | .addNode name replicas => if name = nodeName then counts ++ [replicas] else counts
    | .removeNode name => if name = nodeName then [] else counts) []

/-- The node has points, and the last count that gave it some was its largest. -/
def Removable (past : List RingCall) (nodeName : String) : Prop :=
  ∃ last, ((additions nodeName past).filter (0 < ·)).getLast? = some last ∧
    ∀ count ∈ additions nodeName past, count ≤ last

def RingCall.nodeName : RingCall → String
  | .addNode nodeName _ => nodeName
  | .removeNode nodeName => nodeName

def RingCall.replicas : RingCall → Nat
  | .addNode _ replicas => replicas.toNat
  | .removeNode _ => 0

/-- The indices up to the largest replica count of `calls`; `RemoveNode` looks at
index 0 in any case. -/
def indexBound (calls : List RingCall) : Nat :=
  (calls.map RingCall.replicas).foldr max 1

/-- Different pairs of a name of `calls` and an index have different points. -/
def DistinctPoints (calls : List RingCall) : Prop :=
  ∀ a ∈ calls, ∀ b ∈ calls, ∀ i < indexBound calls, ∀ j < indexBound calls,
    (a.nodeName, i) ≠ (b.nodeName, j) → point hash a.nodeName i ≠ point hash b.nodeName j

instance (calls : List RingCall) : Decidable (DistinctPoints hash calls) := by
  unfold DistinctPoints
  infer_instance

theorem indexBound_pos (calls : List RingCall) : 0 < indexBound calls := by
  unfold indexBound
  induction calls with
  | nil => simp
  | cons call calls ih => exact lt_max_of_lt_right ih

theorem replicas_le_indexBound {calls : List RingCall} {call : RingCall} (inside : call ∈ calls) :
    call.replicas ≤ indexBound calls := by
  unfold indexBound
  induction calls with
  | nil => simp at inside
  | cons other calls ih =>
      rcases List.mem_cons.mp inside with rfl | later
      · exact le_max_left _ _
      · exact le_max_of_le_right (ih later)

/-- The first point of a node is no point of another one. -/
theorem DistinctPoints.apart {calls : List RingCall} (distinct : DistinctPoints hash calls)
    {a b : RingCall} (ofA : a ∈ calls) (ofB : b ∈ calls) (differ : a.nodeName ≠ b.nodeName)
    {count : UInt32} (small : count.toNat ≤ indexBound calls) :
    point hash a.nodeName 0 ∉ points hash b.nodeName count := by
  intro own
  obtain ⟨i, less, collide⟩ := (mem_points hash).mp own
  exact distinct a ofA b ofB 0 (indexBound_pos calls) i (less.trans_le small)
    (fun pair => differ (Prod.mk.inj pair).1) collide.symm

@[simp] theorem additions_addNode (nodeName name : String) (replicas : UInt32) (past : List RingCall) :
    additions nodeName (past ++ [.addNode name replicas]) =
      if name = nodeName then additions nodeName past ++ [replicas] else additions nodeName past := by
  simp [additions]

@[simp] theorem additions_removeNode (nodeName name : String) (past : List RingCall) :
    additions nodeName (past ++ [.removeNode name]) =
      if name = nodeName then [] else additions nodeName past := by
  simp [additions]

/-- What holds of the ring between calls: points lie within the counts of their
node, and the first point of a node carries its last positive count. -/
structure Owned (past : List RingCall) (ring : NodeMap) : Prop where
  within : ∀ k node, ring[k]? = some node →
    ∃ i, k = point hash node.nodeName i ∧ ∃ count ∈ additions node.nodeName past, i < count.toNat
  last : ∀ nodeName count, ((additions nodeName past).filter (0 < ·)).getLast? = some count →
    ring[point hash nodeName 0]? = some ⟨nodeName, count⟩

/-- A count that is among the additions of a node was asked for by a call. -/
theorem exists_call_of_mem_additions {nodeName : String} {count : UInt32} {past : List RingCall}
    (inside : count ∈ additions nodeName past) : RingCall.addNode nodeName count ∈ past := by
  induction past using List.reverseRecOn with
  | nil => simp [additions] at inside
  | append_singleton past call ih =>
      cases call with
      | addNode name replicas =>
          rw [additions_addNode] at inside
          split at inside
          · rcases List.mem_append.mp inside with old | new
            · exact List.mem_append_left _ (ih old)
            · subst_vars
              simp [List.mem_singleton.mp new]
          · exact List.mem_append_left _ (ih inside)
      | removeNode name =>
          rw [additions_removeNode] at inside
          split at inside
          · simp at inside
          · exact List.mem_append_left _ (ih inside)

theorem Owned.add {past : List RingCall} {ring : NodeMap} (owned : Owned hash past ring)
    {name : String} {replicas : UInt32}
    (apart : ∀ other count, count ∈ additions other past → other ≠ name →
      point hash other 0 ∉ points hash name replicas) :
    Owned hash (past ++ [.addNode name replicas]) (addNode hash ring name replicas).2 := by
  constructor
  · intro k node here
    rw [getElem?_addNode] at here
    split at here
    · rename_i own
      obtain ⟨i, less, rfl⟩ := (mem_points hash).mp own
      obtain rfl := Option.some.inj here
      exact ⟨i, rfl, replicas, by simp, less⟩
    · obtain ⟨i, place, count, inside, less⟩ := owned.within k node here
      refine ⟨i, place, count, ?_, less⟩
      rw [additions_addNode]
      split
      · exact List.mem_append_left _ inside
      · exact inside
  · intro other count final
    rw [additions_addNode] at final
    rw [getElem?_addNode]
    by_cases same : name = other
    · subst same
      by_cases positive : 0 < replicas
      · have first : point hash name 0 ∈ points hash name replicas :=
          (mem_points hash).mpr ⟨0, UInt32.lt_iff_toNat_lt.mp positive, rfl⟩
        simp only [if_true, List.filter_append, List.filter_cons, positive, decide_true,
          List.filter_nil, List.getLast?_append, List.getLast?_singleton, Option.some_or,
          Option.some.injEq] at final
        rw [if_pos first, final]
      · have none : point hash name 0 ∉ points hash name replicas := by
          have zero : replicas.toNat = 0 := by
            have := UInt32.lt_iff_toNat_lt.not.mp positive
            simpa using this
          simp [points, zero]
        simp only [if_true, List.filter_append, List.filter_cons, positive, decide_false,
          Bool.false_eq_true, if_false, List.filter_nil, List.append_nil] at final
        rw [if_neg none]
        exact owned.last name count final
    · rw [if_neg same] at final
      have inside : count ∈ additions other past :=
        (List.mem_filter.mp (List.mem_of_getLast? final)).1
      rw [if_neg (apart other count inside (Ne.symm same))]
      exact owned.last other count final

theorem Owned.remove {past : List RingCall} {ring : NodeMap} (owned : Owned hash past ring)
    {name : String} (removable : Removable past name)
    (apart : ∀ other count last, count ∈ additions other past → last ∈ additions name past →
      other ≠ name → point hash other 0 ∉ points hash name last) :
    Owned hash (past ++ [.removeNode name]) (removeNode hash ring name) := by
  obtain ⟨last, final, largest⟩ := removable
  have first := owned.last name last final
  have left : ∀ k, (removeNode hash ring name)[k]? =
      if k ∈ points hash name last then none else ring[k]? := by
    intro k
    rw [getElem?_removeNode, getOrCreate, first]
  constructor
  · intro k node here
    rw [left] at here
    split at here
    · simp at here
    · rename_i kept
      obtain ⟨i, rfl, count, inside, less⟩ := owned.within k node here
      -- a point under the removed name would be among the erased ones
      have other : node.nodeName ≠ name := by
        rintro rfl
        apply kept
        have := UInt32.le_iff_toNat_le.mp (largest count inside)
        exact (mem_points hash).mpr ⟨i, by omega, rfl⟩
      refine ⟨i, rfl, count, ?_, less⟩
      rwa [additions_removeNode, if_neg (Ne.symm other)]
  · intro other count final'
    rw [additions_removeNode] at final'
    split at final'
    · simp at final'
    · rename_i differ
      have inside : count ∈ additions other past :=
        (List.mem_filter.mp (List.mem_of_getLast? final')).1
      have lastInside : last ∈ additions name past :=
        (List.mem_filter.mp (List.mem_of_getLast? final)).1
      rw [left, if_neg (apart other count last inside lastInside (Ne.symm differ))]
      exact owned.last other count final'

/-- **Only added nodes are served.**  In every run of calls whose removals are of
nodes that have points and got their largest count last, every point belongs to
an added node, and every key is routed to one. -/
theorem only_added_served (calls : List RingCall) (distinct : DistinctPoints hash calls)
    (removable : ∀ past name, past ++ [.removeNode name] <+: calls → Removable past name) :
    ∀ past, past <+: calls →
      (∀ (k : UInt32) (node : Node), (run (step hash) ∅ past)[k]? = some node →
        additions node.nodeName past ≠ []) ∧
      (run (step hash) ∅ past ≠ ∅ → ∀ key, ∃ name,
        getNode hash (run (step hash) ∅ past) key = some name ∧ additions name past ≠ []) := by
  have owned : ∀ past, past <+: calls → Owned hash past (run (step hash) ∅ past) := by
    apply run_history
    · exact ⟨by simp, by simp [additions]⟩
    · intro past call inside owned
      have called : ∀ {other count}, count ∈ additions other past →
          RingCall.addNode other count ∈ calls := fun mem =>
        ((List.prefix_append past [call]).trans inside).subset (exists_call_of_mem_additions mem)
      have self : call ∈ calls := inside.subset (by simp)
      cases call with
      | addNode name replicas =>
          apply owned.add
          intro other count mem differ
          exact distinct.apart hash (called mem) self differ (replicas_le_indexBound self)
      | removeNode name =>
          apply owned.remove hash (removable past name inside)
          intro other count last mem lastMem differ
          exact distinct.apart hash (called mem) self differ (replicas_le_indexBound (called lastMem))
  intro past inside
  have belongs : ∀ (k : UInt32) (node : Node), (run (step hash) ∅ past)[k]? = some node →
      additions node.nodeName past ≠ [] := by
    intro k node here
    obtain ⟨-, -, count, mem, -⟩ := (owned past inside).within k node here
    exact List.ne_nil_of_mem mem
  refine ⟨belongs, ?_⟩
  intro filled key
  obtain ⟨name, answer⟩ := getNode_isSome hash filled key
  obtain ⟨k, node, -, here, rfl⟩ := (getNode_eq_some_iff hash).mp answer
  exact ⟨node.nodeName, answer, belongs k node here⟩

/-! ## A removal undoes an addition

For nodes that share no point, a ring is the table of its points. -/

/-- The points of a list of nodes. -/
def allPoints (nodes : List (String × UInt32)) : List UInt32 :=
  nodes.flatMap fun node => points hash node.1 node.2

theorem getElem?_build_iff {nodes : List (String × UInt32)} (apart : (allPoints hash nodes).Nodup)
    (k : UInt32) (node : Node) :
    (build hash nodes)[k]? = some node ↔
      (node.nodeName, node.replicas) ∈ nodes ∧ k ∈ points hash node.nodeName node.replicas := by
  induction nodes using List.reverseRecOn with
  | nil => simp [build]
  | append_singleton nodes last ih =>
      rw [allPoints, List.flatMap_append, List.nodup_append] at apart
      obtain ⟨front, -, fresh⟩ := apart
      have built : (build hash (nodes ++ [last]))[k]? =
          if k ∈ points hash last.1 last.2 then some ⟨last.1, last.2⟩
          else (build hash nodes)[k]? := by
        rw [build, List.foldl_concat, getElem?_addNode]
        rfl
      rw [built]
      by_cases own : k ∈ points hash last.1 last.2
      · -- a point of the last node is no point of an earlier one
        have only : ∀ other ∈ nodes, k ∉ points hash other.1 other.2 := by
          intro other inside there
          exact fresh k (List.mem_flatMap.mpr ⟨other, inside, there⟩) k (by simpa using own) rfl
        rw [if_pos own, Option.some.injEq]
        constructor
        · rintro rfl
          exact ⟨by simp, own⟩
        · rintro ⟨inside, there⟩
          rcases List.mem_append.mp inside with earlier | same
          · exact absurd there (only (node.nodeName, node.replicas) earlier)
          · rw [← List.mem_singleton.mp same]
      · rw [if_neg own, ih front]
        constructor
        · rintro ⟨inside, there⟩
          exact ⟨List.mem_append_left _ inside, there⟩
        · rintro ⟨inside, there⟩
          rcases List.mem_append.mp inside with earlier | same
          · exact ⟨earlier, there⟩
          · rw [← List.mem_singleton.mp same] at own
            exact absurd there own

variable {nodes order order' : List (String × UInt32)} {n : String × UInt32}

/-- The first point of `n` carries its count, so all its points are erased. -/
theorem getElem?_remove_build (apart : (allPoints hash order).Nodup) (listed : n ∈ order)
    (replicated : 1 ≤ n.2) (k : UInt32) :
    (removeNode hash (build hash order) n.1)[k]? =
      if k ∈ points hash n.1 n.2 then none else (build hash order)[k]? := by
  have positive : 0 < n.2.toNat := UInt32.le_iff_toNat_le.mp replicated
  have first : (build hash order)[point hash n.1 0]? = some ⟨n.1, n.2⟩ :=
    (getElem?_build_iff hash apart _ _).mpr ⟨listed, (mem_points hash).mpr ⟨0, positive, rfl⟩⟩
  rw [getElem?_removeNode, getOrCreate, first]

theorem removeNode_build (distinct : (nodes.map Prod.fst).Nodup)
    (apart : (allPoints hash nodes).Nodup) (replicated : 1 ≤ n.2) (listed : n ∈ nodes)
    (perm : order.Perm nodes) (perm' : order'.Perm (nodes.erase n)) :
    removeNode hash (build hash order) n.1 = build hash order' := by
  have apartOrder : (allPoints hash order).Nodup := (perm.flatMap_right _).nodup_iff.mpr apart
  have apartRest : (allPoints hash order').Nodup :=
    (perm'.flatMap_right _).nodup_iff.mpr (apart.sublist (List.erase_sublist.flatMap _))
  have rest : ∀ other, other ∈ order' ↔ other ≠ n ∧ other ∈ nodes := fun other =>
    perm'.mem_iff.trans (List.Nodup.mem_erase_iff distinct.of_map)
  apply ExtTreeMap.ext_getElem?
  intro k
  rw [getElem?_remove_build hash apartOrder (perm.mem_iff.mpr listed) replicated]
  refine Option.ext fun node => ?_
  rw [getElem?_build_iff hash apartRest, rest]
  by_cases own : k ∈ points hash n.1 n.2
  · -- only `n` has this point, and `n` is not in the rest
    have owner : (build hash order)[k]? = some ⟨n.1, n.2⟩ :=
      (getElem?_build_iff hash apartOrder k _).mpr ⟨perm.mem_iff.mpr listed, own⟩
    simp only [own, if_true, reduceCtorEq, false_iff, not_and]
    rintro ⟨other, inside⟩ there
    have also := (getElem?_build_iff hash apartOrder k node).mpr ⟨perm.mem_iff.mpr inside, there⟩
    rw [owner] at also
    exact other (by rw [← Option.some.inj also])
  · rw [if_neg own, getElem?_build_iff hash apartOrder, perm.mem_iff]
    constructor
    · rintro ⟨inside, there⟩
      exact ⟨⟨fun same => own (by rw [← same]; exact there), inside⟩, there⟩
    · rintro ⟨⟨-, inside⟩, there⟩
      exact ⟨inside, there⟩

/-- **A removal undoes an addition.**  For nodes with distinct names and points,
added in any order, the ring without `n` is the ring of the other nodes, added in
any order; keys of other nodes stay where they are and no key is left with `n`. -/
theorem removeNode_undoes_addition (nodes : List (String × UInt32))
    (distinct : (nodes.map Prod.fst).Nodup) (replicated : ∀ node ∈ nodes, 1 ≤ node.2)
    (apart : (allPoints hash nodes).Nodup) (n : String × UInt32) (listed : n ∈ nodes)
    (order order' : List (String × UInt32)) (perm : order.Perm nodes)
    (perm' : order'.Perm (nodes.erase n)) :
    removeNode hash (build hash order) n.1 = build hash order' ∧
      (∀ key name, getNode hash (build hash order) key = some name → name ≠ n.1 →
        getNode hash (removeNode hash (build hash order) n.1) key = some name) ∧
      ∀ key, getNode hash (removeNode hash (build hash order) n.1) key ≠ some n.1 := by
  have apartOrder : (allPoints hash order).Nodup := (perm.flatMap_right _).nodup_iff.mpr apart
  have left := getElem?_remove_build hash apartOrder (perm.mem_iff.mpr listed)
    (replicated n listed)
  refine ⟨removeNode_build hash distinct apart (replicated n listed) listed perm perm', ?_, ?_⟩
  · intro key name routed other
    obtain ⟨k, node, isNext, here, rfl⟩ := (getNode_eq_some_iff hash).mp routed
    have foreign : k ∉ points hash n.1 n.2 := by
      intro own
      rw [(getElem?_build_iff hash apartOrder k ⟨n.1, n.2⟩).mpr
        ⟨perm.mem_iff.mpr listed, own⟩] at here
      exact other (by rw [← Option.some.inj here])
    have kept : (removeNode hash (build hash order) n.1)[k]? = some node := by
      rw [left, if_neg foreign, here]
    have fewer : ∀ {point}, point ∈ removeNode hash (build hash order) n.1 →
        point ∈ build hash order := by
      intro point inside
      rw [ExtTreeMap.mem_iff_isSome_getElem?, left] at inside
      split at inside
      · simp at inside
      · exact ExtTreeMap.mem_iff_isSome_getElem?.mpr inside
    have stays : k ∈ removeNode hash (build hash order) n.1 :=
      ExtTreeMap.mem_iff_isSome_getElem?.mpr (by rw [kept]; rfl)
    exact (getNode_eq_some_iff hash).mpr
      ⟨k, node, isNext.mono (fun _ => fewer) stays, kept, rfl⟩
  · intro key routed
    obtain ⟨k, node, -, here, same⟩ := (getNode_eq_some_iff hash).mp routed
    rw [left] at here
    split at here
    · cases here
    · rename_i foreign
      obtain ⟨inside, there⟩ := (getElem?_build_iff hash apartOrder k node).mp here
      -- names are distinct, so a node of this name is `n` itself
      have itself : (node.nodeName, node.replicas) = n :=
        List.inj_on_of_nodup_map distinct (perm.mem_iff.mp inside) listed same
      rw [← itself] at foreign
      exact foreign there

end HashRing

/-! ## Poles -/

namespace LeftOver

open HashRing

/-- Added with two replicas and again with one: the removal erases one point. -/
def shrunk : List RingCall := [.addNode "a" 2, .addNode "a" 1, .removeNode "a"]

/-- The removal of a node that was never added. -/
def unknown : List RingCall := [.addNode "a" 1, .removeNode "b"]

/-- After `shrunk` the removed node is still served; after `unknown` the empty
name is, which was never added. -/
theorem removed_node_served :
    DistinctPoints packed shrunk ∧ additions "a" shrunk = [] ∧
      getNode packed (run (step packed) ∅ shrunk) "a1" = some "a" ∧
      DistinctPoints packed unknown ∧ additions "" unknown = [] ∧
      getNode packed (run (step packed) ∅ unknown) "b0" = some "" := by
  refine ⟨by decide, by decide, ?_, by decide, by decide, ?_⟩
  · decide
  · decide

def regular : List RingCall :=
  [.addNode "a" 1, .addNode "b" 1, .addNode "a" 2, .removeNode "a"]

theorem removable_regular :
    ∀ past name, past ++ [.removeNode name] <+: regular → Removable past name := by
  intro past name inside
  rcases past with _ | ⟨c, _ | ⟨d, _ | ⟨e, _ | ⟨f, past⟩⟩⟩⟩ <;>
    simp only [regular, List.nil_append, List.cons_append, List.cons_prefix_cons, reduceCtorEq,
      and_false, RingCall.removeNode.injEq, List.prefix_nil, List.append_eq_nil_iff,
      List.nil_prefix, and_true, List.cons_ne_self] at inside
  obtain ⟨rfl, rfl, rfl, rfl⟩ := inside
  exact ⟨2, by decide, by simp [additions]⟩

theorem regular_removal_serves_added :
    DistinctPoints packed regular ∧
      (∀ (k : UInt32) (node : Node), (run (step packed) ∅ regular)[k]? = some node →
        additions node.nodeName regular ≠ []) ∧
      (run (step packed) ∅ regular ≠ ∅ → ∀ key, ∃ name,
        getNode packed (run (step packed) ∅ regular) key = some name ∧
          additions name regular ≠ []) := by
  have distinct : DistinctPoints packed regular := by decide
  exact ⟨distinct,
    only_added_served packed regular distinct removable_regular regular (List.prefix_refl _)⟩

/-- Two servers without a common point: the ring without one is that of the other. -/
theorem removal_undoes_addition :
    removeNode packed (build packed [("a", 2), ("b", 1)]) "a" = build packed [("b", 1)] ∧
      getNode packed (removeNode packed (build packed [("a", 2), ("b", 1)]) "a") "b0" =
        some "b" := by
  have undone := removeNode_undoes_addition packed [("a", 2), ("b", 1)] (by decide) (by decide)
    (by decide) ("a", 2) (by decide) [("a", 2), ("b", 1)] [("b", 1)] (List.Perm.refl _)
    (by decide)
  exact ⟨undone.1, undone.2.1 "b0" "b" (by decide) (by decide)⟩

end LeftOver

end RecommEngine.Redis
