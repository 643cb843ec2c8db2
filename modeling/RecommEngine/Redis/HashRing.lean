/-
# Redis.HashRing -- consistent hashing of users onto redis nodes

`HashRing` places `replicas` points of every node on the circle of 32-bit
values, at the hashes of the node's name followed by `0`, `1`, ..., and routes a
key to the node of the next point behind the key's hash.

`getNode_eq_some_iff` turns `GetNode` into the next point of `Theory.Circle`;
`getElem?_addNode` and `getElem?_removeNode` say what the two updates leave at a
point.  On them rest the results:

* `addNode_moves_to_new`: an added node takes keys over, and no key moves
  between other nodes;
* `order_irrelevant_iff`: the order in which nodes are added does not matter
  exactly if no two of them share a point string.  Names and indices are glued
  together without a separator, so `a` and `a1` may share one (`SharedPoint`).

What removals leave behind is the subject of `RingRemoval`.
-/
import RecommEngine.Theory.Circle
import RecommEngine.Theory.Run
import RecommEngine.Util.StrUtil

namespace RecommEngine.Redis

set_option autoImplicit false

open Std (ExtTreeMap)
open Theory Theory.Run Util

structure Node where
  nodeName : String
  replicas : UInt32
  deriving DecidableEq

/-- The value `map::operator[]` creates for a new key. -/
def Node.blank : Node := ⟨"", 0⟩

abbrev NodeMap := ExtTreeMap UInt32 Node

namespace HashRing

variable (hash : String → UInt32)

/-! ## The ring -/

/-- `snprintf` into a buffer of ten bytes: at most nine digits. -/
protected def toString (r : UInt32) : String :=
  String.ofList ((Nat.toDigits 10 r.toNat).take 9)

/-- The strings whose hashes are the points of a node. -/
def pointString (nodeName : String) (r : Nat) : String :=
  nodeName ++ HashRing.toString (UInt32.ofNat r)

def point (nodeName : String) (r : Nat) : UInt32 :=
  hash (cStr (pointString nodeName r))

/-- The result is the last point, uninitialised (`none`) without replicas. -/
def addNode (ring : NodeMap) (nodeName : String) (replicas : UInt32) : Option UInt32 × NodeMap :=
  (List.range replicas.toNat).foldl
    (fun s r => (some (point hash nodeName r), s.2.insert (point hash nodeName r) ⟨nodeName, replicas⟩))
    (none, ring)

/-- `map::operator[]`: a missing entry is created. -/
def getOrCreate (ring : NodeMap) (h : UInt32) : Node × NodeMap :=
  match ring[h]? with
  | some node => (node, ring)
  | none => (.blank, ring.insert h .blank)

def removeNode (ring : NodeMap) (nodeName : String) : NodeMap :=
  let (node, ring) := getOrCreate ring (point hash nodeName 0)
  (List.range node.replicas.toNat).foldl (fun ring r => ring.erase (point hash nodeName r)) ring

/-- `lower_bound`, or `begin` past the last point.  `none` is a read through the
end iterator of an empty ring. -/
def getNode (ring : NodeMap) (key : String) : Option String :=
  (Circle.next ring.toList (hash (cStr key))).map fun it => it.2.nodeName

/-! ## What the updates leave at a point -/

/-- The points of a node with `replicas` replicas. -/
def points (nodeName : String) (replicas : UInt32) : List UInt32 :=
  (List.range replicas.toNat).map (point hash nodeName)

theorem mem_points {nodeName : String} {replicas k : UInt32} :
    k ∈ points hash nodeName replicas ↔ ∃ r < replicas.toNat, point hash nodeName r = k := by
  simp [points]

theorem getElem?_addNode (ring : NodeMap) (nodeName : String) (replicas k : UInt32) :
    (addNode hash ring nodeName replicas).2[k]? =
      if k ∈ points hash nodeName replicas then some ⟨nodeName, replicas⟩ else ring[k]? := by
  have loop : ∀ (rs : List Nat) (s : Option UInt32 × NodeMap),
      (rs.foldl (fun s r => (some (point hash nodeName r),
        s.2.insert (point hash nodeName r) ⟨nodeName, replicas⟩)) s).2[k]? =
      if k ∈ rs.map (point hash nodeName) then some ⟨nodeName, replicas⟩ else s.2[k]? := by
    intro rs
    induction rs with
    | nil => simp
    | cons r rs ih =>
        intro s
        rw [List.foldl_cons, ih]
        by_cases later : k ∈ rs.map (point hash nodeName)
        · simp [later]
        · by_cases here : point hash nodeName r = k
          · simp [later, here]
          · simp [later, here, Ne.symm here, ExtTreeMap.getElem?_insert]
  exact loop _ _

theorem getElem?_removeNode (ring : NodeMap) (nodeName : String) (k : UInt32) :
    (removeNode hash ring nodeName)[k]? =
      if k ∈ points hash nodeName (getOrCreate ring (point hash nodeName 0)).1.replicas then none
      else (getOrCreate ring (point hash nodeName 0)).2[k]? := by
  have loop : ∀ (rs : List Nat) (ring : NodeMap),
      (rs.foldl (fun ring r => ring.erase (point hash nodeName r)) ring)[k]? =
      if k ∈ rs.map (point hash nodeName) then none else ring[k]? := by
    intro rs
    induction rs with
    | nil => simp
    | cons r rs ih =>
        intro ring
        rw [List.foldl_cons, ih]
        by_cases later : k ∈ rs.map (point hash nodeName)
        · simp [later]
        · by_cases here : point hash nodeName r = k
          · simp [later, here]
          · simp [later, here, Ne.symm here, ExtTreeMap.getElem?_erase]
  exact loop _ _

/-! ## Routing -/

theorem ordered_toList (ring : NodeMap) : ring.toList.Pairwise fun a b => a.1 < b.1 :=
  ExtTreeMap.ordered_keys_toList.imp Std.compare_eq_lt.mp

theorem exists_mem_toList {ring : NodeMap} {k : UInt32} :
    (∃ node, (k, node) ∈ ring.toList) ↔ k ∈ ring := by
  simp only [ExtTreeMap.mem_toList_iff_getElem?_eq_some, ExtTreeMap.mem_iff_isSome_getElem?,
    Option.isSome_iff_exists]

/-- `GetNode` answers with the node of the next point behind the key. -/
theorem getNode_eq_some_iff {ring : NodeMap} {key name : String} :
    getNode hash ring key = some name ↔ ∃ k node,
      Circle.IsNext {k | k ∈ ring} (hash (cStr key)) k ∧ ring[k]? = some node ∧
        node.nodeName = name := by
  have spec : ∀ it, Circle.next ring.toList (hash (cStr key)) = some it →
      ring[it.1]? = some it.2 ∧ Circle.IsNext {k | k ∈ ring} (hash (cStr key)) it.1 := by
    intro it found
    obtain ⟨inside, isNext⟩ := Circle.isNext_of_next (ordered_toList ring) found
    simp only [exists_mem_toList] at isNext
    exact ⟨ExtTreeMap.mem_toList_iff_getElem?_eq_some.mp inside, isNext⟩
  constructor
  · intro answer
    obtain ⟨it, found, rfl⟩ := Option.map_eq_some_iff.mp answer
    exact ⟨it.1, it.2, (spec it found).2, (spec it found).1, rfl⟩
  · rintro ⟨k, node, isNext, here, rfl⟩
    rcases found : Circle.next ring.toList (hash (cStr key)) with _ | it
    · have empty := Circle.next_eq_none.mp found
      have inside := ExtTreeMap.mem_toList_iff_getElem?_eq_some.mpr here
      simp [empty] at inside
    · obtain ⟨there, isNext'⟩ := spec it found
      obtain rfl := isNext.unique isNext'
      rw [getNode, found, Option.map_some, ← Option.some.inj (here.symm.trans there)]

/-- A ring with a point routes every key. -/
theorem getNode_isSome {ring : NodeMap} (filled : ring ≠ ∅) (key : String) :
    ∃ name, getNode hash ring key = some name := by
  rcases found : Circle.next ring.toList (hash (cStr key)) with _ | it
  · exfalso
    apply filled
    have empty := Circle.next_eq_none.mp found
    rw [← ExtTreeMap.isEmpty_iff, ← ExtTreeMap.isEmpty_toList, empty, List.isEmpty_nil]
  · exact ⟨it.2.nodeName, by rw [getNode, found, Option.map_some]⟩

/-- **Adding a node moves keys only onto it**, whatever points it overwrites. -/
theorem addNode_moves_to_new (ring : NodeMap) (filled : ring ≠ ∅) (nodeName : String)
    (replicas : UInt32) (key : String) :
    ∃ before after, getNode hash ring key = some before ∧
      getNode hash (addNode hash ring nodeName replicas).2 key = some after ∧
      (after = nodeName ∨ after = before) := by
  obtain ⟨before, old⟩ := getNode_isSome hash filled key
  have grown : ∀ {k}, k ∈ ring → k ∈ (addNode hash ring nodeName replicas).2 := by
    intro k inside
    rw [ExtTreeMap.mem_iff_isSome_getElem?, getElem?_addNode]
    split
    · rfl
    · exact ExtTreeMap.mem_iff_isSome_getElem?.mp inside
  have filled' : (addNode hash ring nodeName replicas).2 ≠ ∅ := by
    obtain ⟨k, node, -, here, -⟩ := (getNode_eq_some_iff hash).mp old
    intro empty
    have := grown (ExtTreeMap.mem_iff_isSome_getElem?.mpr (by rw [here]; rfl))
    simp [empty] at this
  obtain ⟨after, new⟩ := getNode_isSome hash filled' key
  refine ⟨before, after, old, new, ?_⟩
  obtain ⟨k, node, isNext, here, rfl⟩ := (getNode_eq_some_iff hash).mp new
  rw [getElem?_addNode] at here
  split at here
  · obtain rfl := Option.some.inj here
    exact Or.inl rfl
  · -- the next point is an old one that was not overwritten, so it was next before
    have stood : k ∈ ring := ExtTreeMap.mem_iff_isSome_getElem?.mpr (by rw [here]; rfl)
    have same : getNode hash ring key = some node.nodeName :=
      (getNode_eq_some_iff hash).mpr ⟨k, node, isNext.mono (fun _ => grown) stood, here, rfl⟩
    exact Or.inr (Option.some.inj (same.symm.trans old))

/-! ## The order of additions -/

/-- The ring after the nodes of a list have been added in its order. -/
def build (nodes : List (String × UInt32)) : NodeMap :=
  nodes.foldl (fun ring node => (addNode hash ring node.1 node.2).2) ∅

def pointStrings (node : String × UInt32) : List String :=
  (List.range node.2.toNat).map (pointString node.1)

theorem mem_points_iff_pointStrings {node : String × UInt32} {k : UInt32} :
    k ∈ points hash node.1 node.2 ↔ ∃ s ∈ pointStrings node, hash (cStr s) = k := by
  simp [points, pointStrings, point]

/-- Nodes without a common point can be added in either order. -/
theorem addNode_comm (ring : NodeMap) {a b : String × UInt32}
    (apart : ∀ k, k ∈ points hash a.1 a.2 → k ∉ points hash b.1 b.2) :
    (addNode hash (addNode hash ring a.1 a.2).2 b.1 b.2).2 =
      (addNode hash (addNode hash ring b.1 b.2).2 a.1 a.2).2 := by
  apply ExtTreeMap.ext_getElem?
  intro k
  simp only [getElem?_addNode]
  by_cases ofA : k ∈ points hash a.1 a.2
  · simp [ofA, apart k ofA]
  · simp [ofA]

/-- A key on a point of the node added last is routed to that node. -/
theorem getNode_last (nodes : List (String × UInt32)) (node : String × UInt32) {s : String}
    (own : s ∈ pointStrings node) : getNode hash (build hash (nodes ++ [node])) s = some node.1 := by
  have here : (build hash (nodes ++ [node]))[hash (cStr s)]? = some ⟨node.1, node.2⟩ := by
    rw [build, List.foldl_append, List.foldl_cons, List.foldl_nil, getElem?_addNode,
      if_pos ((mem_points_iff_pointStrings hash).mpr ⟨s, own, rfl⟩)]
  refine (getNode_eq_some_iff hash).mpr ⟨hash (cStr s), _, Circle.isNext_self ?_, here, rfl⟩
  exact ExtTreeMap.mem_iff_isSome_getElem?.mpr (by rw [here]; rfl)

/-- **The order of the servers does not matter exactly if no two of them share a
point string**, for hashes without collisions among the point strings. -/
theorem order_irrelevant_iff (nodes : List (String × UInt32)) (distinct : (nodes.map Prod.fst).Nodup)
    (noCollision : ∀ s ∈ nodes.flatMap pointStrings, ∀ t ∈ nodes.flatMap pointStrings,
      s ≠ t → hash (cStr s) ≠ hash (cStr t)) :
    (∀ order order', order.Perm nodes → order'.Perm nodes → ∀ key,
      getNode hash (build hash order) key = getNode hash (build hash order') key) ↔
    ∀ a ∈ nodes, ∀ b ∈ nodes, a ≠ b → ∀ s ∈ pointStrings a, s ∉ pointStrings b := by
  constructor
  · intro same a ofA b ofB differ s inA inB
    -- two orders that end with `a`, `b` and with `b`, `a`
    have ofB' : b ∈ nodes.erase a := (List.mem_erase_of_ne (Ne.symm differ)).mpr ofB
    have split : nodes.Perm (a :: b :: (nodes.erase a).erase b) :=
      (List.perm_cons_erase ofA).trans ((List.perm_cons_erase ofB').cons a)
    have rotate : ∀ x y, (x :: y :: (nodes.erase a).erase b).Perm
        ((nodes.erase a).erase b ++ [y] ++ [x]) := by
      intro x y
      rw [List.append_assoc]
      exact (@List.perm_append_comm _ [x, y] _).trans
        (List.Perm.append_left _ (List.Perm.swap y x []))
    have endsA := (split.trans (rotate a b)).symm
    have endsB := (split.trans ((List.Perm.swap b a _).trans (rotate b a))).symm
    have routed := same _ _ endsA endsB s
    rw [getNode_last hash _ a inA, getNode_last hash _ b inB] at routed
    exact differ (List.inj_on_of_nodup_map distinct ofA ofB (Option.some.inj routed))
  · intro unshared order order' perm perm' key
    have apart : ∀ a ∈ nodes, ∀ b ∈ nodes, a ≠ b →
        ∀ k, k ∈ points hash a.1 a.2 → k ∉ points hash b.1 b.2 := by
      intro a ofA b ofB differ k inA inB
      obtain ⟨s, sOfA, rfl⟩ := (mem_points_iff_pointStrings hash).mp inA
      obtain ⟨t, tOfB, collide⟩ := (mem_points_iff_pointStrings hash).mp inB
      have equal : t = s := by
        by_contra other
        exact noCollision t (List.mem_flatMap.mpr ⟨b, ofB, tOfB⟩) s
          (List.mem_flatMap.mpr ⟨a, ofA, sOfA⟩) other collide
      exact unshared a ofA b ofB differ s sOfA (equal ▸ tOfB)
    have rings : build hash order = build hash order' := by
      apply (perm.trans perm'.symm).foldl_eq'
      intro a ofA b ofB ring
      by_cases same : a = b
      · rw [same]
      · exact addNode_comm hash ring (apart a (perm.subset ofA) b (perm.subset ofB) same)
    rw [rings]

end HashRing

/-! ## Poles

The hash of the examples reads the bytes of a short string as one number. -/

def packed (s : String) : UInt32 :=
  s.toList.foldl (fun h c => h * 256 + UInt32.ofNat c.toNat) 0

namespace SharedPoint

open HashRing

def one : NodeMap := build packed [("a", 1)]

/-- A second server takes over the keys in front of its point. -/
theorem second_server_takes_key : one ≠ ∅ ∧ ∃ before after,
    getNode packed one "b" = some before ∧
      getNode packed (addNode packed one "b" 1).2 "b" = some after ∧
      (after = "b" ∨ after = before) := by
  have filled : one ≠ ∅ := by
    intro empty
    have here : one[packed "a0"]? = some ⟨"a", 1⟩ := by decide
    simp [empty] at here
  exact ⟨filled, addNode_moves_to_new packed one filled "b" 1 "b"⟩

/-- The point string `a10` belongs to `a` as index 10 and to `a1` as index 0. -/
def nodes : List (String × UInt32) := [("a", 11), ("a1", 1)]

/-- All hypotheses hold, and the two orders route the key `a10` differently. -/
theorem shared_point_reroutes :
    (nodes.map Prod.fst).Nodup ∧
      (∀ s ∈ nodes.flatMap pointStrings, ∀ t ∈ nodes.flatMap pointStrings,
        s ≠ t → packed (cStr s) ≠ packed (cStr t)) ∧
      nodes.reverse.Perm nodes ∧
      getNode packed (build packed nodes) "a10" = some "a1" ∧
      getNode packed (build packed nodes.reverse) "a10" = some "a" := by
  refine ⟨by decide, by decide, List.reverse_perm nodes, ?_, ?_⟩
  · exact getNode_last packed [("a", 11)] ("a1", 1) (by decide)
  · exact getNode_last packed [("a1", 1)] ("a", 11) (by decide)

/-- Names that are not followed by digits share no point strings. -/
theorem separate_names_any_order :
    ([("a", 3), ("b", 2)] : List (String × UInt32)).Perm [("b", 2), ("a", 3)] ∧
      ∀ key, getNode packed (build packed [("a", 3), ("b", 2)]) key =
        getNode packed (build packed [("b", 2), ("a", 3)]) key := by
  have swapped : ([("a", 3), ("b", 2)] : List (String × UInt32)).Perm [("b", 2), ("a", 3)] :=
    List.Perm.swap _ _ []
  refine ⟨swapped, ?_⟩
  exact (order_irrelevant_iff packed [("a", 3), ("b", 2)] (by decide) (by decide)).mpr (by decide)
    _ _ (List.Perm.refl _) swapped.symm

end SharedPoint

end RecommEngine.Redis
