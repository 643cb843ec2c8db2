/-
# UserProfileStorage -- increments of a stored profile

`PutUserProfile` with `is_increment` reads the stored profile with GET, adds the
caller's keyword weights to it and writes the sum back with SETEX.  Redis runs
each command atomically, but the mutex of the node is held for the GET only, so
any number of calls for one user interleave command by command: a run is a list
of call, get and set steps over one stored value.

Each step also says how the node fares: a node that is not found, a GET or a
SETEX that fails.  No key expires within a run.

A SETEX that finds another value than the one its call has read overwrites the
increment that came in between.  `no_increment_lost` proves that the stored map
is the initial one plus all increments in every run where each SETEX still finds
the value its call has read (`Unchanged`).
-/
import RecommEngine.Idl
import RecommEngine.Theory.Run
import RecommEngine.Theory.ByteStream

namespace RecommEngine

set_option autoImplicit false

open Std (ExtTreeMap)
open Theory.Run Theory.ByteStream Idl

/-! ## IncrementUserProfile -/

/-- One round of the loop of `IncrementUserProfile`. -/
def incrementKeyword (keywords : Keywords) (entry : Int64 × Int32) : Keywords :=
  match keywords[entry.1]? with
  | some weight => keywords.insert entry.1 (weight + entry.2)
  | none => keywords.insert entry.1 entry.2

def incrementUserProfile (orgProfile addProfile : UserProfile) : UserProfile :=
  { orgProfile with
    keywords := addProfile.keywords.toList.foldl incrementKeyword orgProfile.keywords }

/-- Two weights of one keyword added up, where an absent one adds nothing. -/
def addWeights : Option Int32 → Option Int32 → Option Int32 :=
  Option.merge (· + ·)

/-- The weight of `k` in the sum of some keyword maps. -/
def weightAt (maps : List Keywords) (k : Int64) : Option Int32 :=
  (maps.map (·[k]?)).foldl addWeights none

theorem weightAt_append (maps : List Keywords) (m : Keywords) (k : Int64) :
    weightAt (maps ++ [m]) k = addWeights (weightAt maps k) m[k]? := by
  simp [weightAt]

theorem weightAt_singleton (m : Keywords) (k : Int64) : weightAt [m] k = m[k]? := by
  simp [weightAt, addWeights]

/-- The order in which maps are added up does not matter. -/
theorem weightAt_perm {maps maps' : List Keywords} (perm : maps.Perm maps') (k : Int64) :
    weightAt maps k = weightAt maps' k := by
  have : RightCommutative addWeights :=
    inferInstanceAs (RightCommutative (Option.merge fun a b : Int32 => a + b))
  exact (perm.map _).foldl_eq none

theorem getElem?_incrementKeyword (keywords : Keywords) (entry : Int64 × Int32) (k : Int64) :
    (incrementKeyword keywords entry)[k]? =
      if entry.1 = k then addWeights keywords[k]? (some entry.2) else keywords[k]? := by
  rw [incrementKeyword]
  by_cases here : entry.1 = k
  · subst here
    cases found : keywords[entry.1]? <;> simp [addWeights]
  · cases found : keywords[entry.1]? <;> simp [ExtTreeMap.getElem?_insert, here]

theorem getElem?_foldl_incrementKeyword (entries : List (Int64 × Int32))
    (distinct : (entries.map Prod.fst).Nodup) (keywords : Keywords) (k : Int64) :
    (entries.foldl incrementKeyword keywords)[k]? =
      addWeights keywords[k]? ((entries.find? fun entry => entry.1 = k).map Prod.snd) := by
  induction entries generalizing keywords with
  | nil => simp [addWeights]
  | cons entry entries ih =>
      simp only [List.map_cons, List.nodup_cons] at distinct
      rw [List.foldl_cons, ih distinct.2, getElem?_incrementKeyword, List.find?_cons]
      by_cases here : entry.1 = k
      · have gone := find?_tail_of_nodup distinct.1 here
        simp [gone, here, addWeights]
      · simp [here]

/-- **The sum of two profiles**, keyword by keyword. -/
theorem getElem?_incrementUserProfile (orgProfile addProfile : UserProfile) (k : Int64) :
    (incrementUserProfile orgProfile addProfile).keywords[k]? =
      addWeights orgProfile.keywords[k]? addProfile.keywords[k]? := by
  have entry : (addProfile.keywords.toList.find? fun entry => entry.1 = k).map Prod.snd =
      addProfile.keywords[k]? := by
    cases found : addProfile.keywords.toList.find? fun entry => entry.1 = k with
    | none =>
        rw [List.find?_eq_none] at found
        symm
        rw [Option.map_none, Option.eq_none_iff_forall_ne_some]
        intro weight there
        exact found _ (ExtTreeMap.mem_toList_iff_getElem?_eq_some.mpr there) (by simp)
    | some entry =>
        have here : entry.1 = k := by simpa using List.find?_some found
        symm
        rw [Option.map_some, ← here, ← ExtTreeMap.mem_toList_iff_getElem?_eq_some]
        exact List.mem_of_find?_eq_some found
  rw [incrementUserProfile, getElem?_foldl_incrementKeyword, entry]
  rw [ExtTreeMap.map_fst_toList_eq_keys]
  exact ExtTreeMap.nodup_keys

/-! ## The calls -/

/-- A default-constructed `UserProfile`. -/
def blankProfile : UserProfile := ⟨"", ∅, none, none⟩

/-- `GetUserProfile`: 0 with the stored profile, 1 when there is none, 2 on a
failure.  `reply` is what redis answers: `none` for no node or an error, else the
value, if there is one. -/
def getUserProfile (T : Thrift UserProfile) (reply : Option (Option Bytes))
    (profile : UserProfile) : Nat × UserProfile :=
  match reply with
  | none => (2, profile)
  | some none => (1, profile)
  | some (some value) =>
      let (parsed, profile) := T.stringToThrift value profile
      (if parsed then 0 else 2, profile)

theorem getUserProfile_of_readsBack {T : Thrift UserProfile} {profile : UserProfile}
    (reads : T.ReadsBack blankProfile profile) :
    getUserProfile T (some (some (T.thriftToString profile))) blankProfile = (0, profile) := by
  rw [getUserProfile, reads]
  rfl

/-- Where a `PutUserProfile` call stands.  `read` records what its GET found. -/
inductive PutPc where
  | atGet
  | atSet (read : Option Bytes) (profile : UserProfile)
  | returned (code : Nat)

structure PutCall where
  profile : UserProfile
  pc : PutPc

/-- The increment of a call that has answered 0. -/
def PutCall.increment (c : PutCall) : Option Keywords :=
  match c.pc with
  | .returned 0 => some c.profile.keywords
  | _ => none

/-- The value of one user on one redis node, and the calls for that user. -/
structure UserProfileStorage where
  stored : Option Bytes
  calls : List PutCall := []

inductive StorageEvent where
  /-- A call up to its first command; `node` says whether `GetRedisNode` found one. -/
  | call (profile : UserProfile) (isIncrement node : Bool)
  | get (i : Nat) (answered : Bool)
  | set (i : Nat) (accepted : Bool)

namespace UserProfileStorage

variable (T : Thrift UserProfile)

def putUserProfile (s : UserProfileStorage) (profile : UserProfile) (isIncrement node : Bool) :
    UserProfileStorage :=
  let pc := if !node then .returned 2 else if isIncrement then .atGet else .atSet none profile
  { s with calls := s.calls ++ [⟨profile, pc⟩] }

/-- The GET of call `i` and the increment.  A user that is not stored gets the
profile that `GetUserProfile` left untouched. -/
def get (s : UserProfileStorage) (i : Nat) (answered : Bool) : UserProfileStorage :=
  match s.calls[i]? with
  | some ⟨profile, .atGet⟩ =>
      let (ret, orgProfile) :=
        getUserProfile T (if answered then some s.stored else none) blankProfile
      let pc :=
        if ret = 2 then .returned 2
        else .atSet s.stored
          (if ret = 0 then incrementUserProfile orgProfile profile else orgProfile)
      { s with calls := s.calls.set i ⟨profile, pc⟩ }
  | _ => s

/-- `SetToRedis` and the answer of call `i`. -/
def setToRedis (s : UserProfileStorage) (i : Nat) (accepted : Bool) : UserProfileStorage :=
  match s.calls[i]? with
  | some ⟨profile, .atSet _ value⟩ =>
      if accepted then
        { stored := some (T.thriftToString value), calls := s.calls.set i ⟨profile, .returned 0⟩ }
      else
        { s with calls := s.calls.set i ⟨profile, .returned 2⟩ }
  | _ => s

def step (s : UserProfileStorage) : StorageEvent → UserProfileStorage
  | .call profile isIncrement node => s.putUserProfile profile isIncrement node
  | .get i answered => s.get T i answered
  | .set i accepted => s.setToRedis T i accepted

/-- The storage of a user with a stored profile, before any call. -/
def holding (profile : UserProfile) : UserProfileStorage where
  stored := some (T.thriftToString profile)

/-! ## The property and its condition -/

/-- The condition on a SETEX: the stored value is the one the call has read. -/
def Unchanged (s : UserProfileStorage) : StorageEvent → Prop
  | .set i true => ∀ profile read value,
      s.calls[i]? = some ⟨profile, .atSet read value⟩ → s.stored = read
  | _ => True

/-- What is relied on of thrift: a profile that is written is read back. -/
def Readable (s : UserProfileStorage) : StorageEvent → Prop
  | .set i true => ∀ profile read value,
      s.calls[i]? = some ⟨profile, .atSet read value⟩ → T.ReadsBack blankProfile value
  | _ => True

theorem Unchanged.of_call {s : UserProfileStorage} {i : Nat} {profile value : UserProfile}
    {read : Option Bytes} (found : s.calls[i]? = some ⟨profile, .atSet read value⟩)
    (same : s.stored = read) : Unchanged s (.set i true) := by
  intro profile' read' value' found'
  simp only [found, Option.some.injEq, PutCall.mk.injEq, PutPc.atSet.injEq] at found'
  rw [same, found'.2.1]

theorem Readable.of_call {T : Thrift UserProfile} {s : UserProfileStorage} {i : Nat}
    {profile value : UserProfile} {read : Option Bytes}
    (found : s.calls[i]? = some ⟨profile, .atSet read value⟩)
    (inverts : T.ReadsBack blankProfile value) :
    Readable T s (.set i true) := by
  intro profile' read' value' found'
  simp only [found, Option.some.injEq, PutCall.mk.injEq, PutPc.atSet.injEq] at found'
  rwa [← found'.2.2]

def increments (s : UserProfileStorage) : List Keywords :=
  s.calls.filterMap PutCall.increment

/-! ## The invariant -/

/-- The stored profile is the initial one plus the increments answered so far,
and a call about to write has added its increment to the profile it read. -/
structure Accounted (initial : Keywords) (s : UserProfileStorage) : Prop where
  stored : ∃ profile, s.stored = some (T.thriftToString profile) ∧
    T.ReadsBack blankProfile profile ∧ ∀ k, profile.keywords[k]? = weightAt (initial :: s.increments) k
  pending : ∀ (i : Nat) profile read value, s.calls[i]? = some ⟨profile, .atSet read value⟩ →
    ∃ org, read = some (T.thriftToString org) ∧ T.ReadsBack blankProfile org ∧
      value = incrementUserProfile org profile

variable {T} {initial : Keywords} {s : UserProfileStorage}

theorem accounted_holding {profile : UserProfile} (inverts : T.ReadsBack blankProfile profile) :
    Accounted T profile.keywords (holding T profile) := by
  refine ⟨⟨profile, rfl, inverts, ?_⟩, by simp [holding]⟩
  intro k
  exact (weightAt_singleton profile.keywords k).symm

/-- Replacing a call that has not answered 0 adds at most its own increment. -/
theorem increments_set {calls : List PutCall} {i : Nat} {c : PutCall} (c' : PutCall)
    (found : calls[i]? = some c) (unanswered : c.increment = none) :
    ((calls.set i c').filterMap PutCall.increment).Perm
      (calls.filterMap PutCall.increment ++ c'.increment.toList) := by
  obtain ⟨inside, rfl⟩ := List.getElem?_eq_some_iff.mp found
  have shape : calls = calls.take i ++ calls[i] :: calls.drop (i + 1) := by simp
  have before : calls.filterMap PutCall.increment =
      (calls.take i).filterMap PutCall.increment ++
        (calls.drop (i + 1)).filterMap PutCall.increment := by
    conv_lhs => rw [shape]
    rw [List.filterMap_append, List.filterMap_cons_none unanswered]
  rw [List.set_eq_take_append_cons_drop, if_pos inside, before, List.filterMap_append,
    List.append_assoc]
  apply List.Perm.append_left _
  cases new : c'.increment with
  | none => simp [List.filterMap_cons_none new]
  | some keywords =>
      rw [List.filterMap_cons_some new]
      exact (List.perm_append_singleton _ _).symm

/-- A step of call `i` that stores nothing and does not answer 0. -/
theorem Accounted.set_call {i : Nat} {c c' : PutCall} (accounted : Accounted T initial s)
    (found : s.calls[i]? = some c) (unanswered : c.increment = none) (still : c'.increment = none)
    (pending : ∀ profile read value, c' = ⟨profile, .atSet read value⟩ →
      ∃ org, read = some (T.thriftToString org) ∧ T.ReadsBack blankProfile org ∧
        value = incrementUserProfile org profile) :
    Accounted T initial { s with calls := s.calls.set i c' } := by
  obtain ⟨profile, stored, inverts, sum⟩ := accounted.stored
  refine ⟨⟨profile, stored, inverts, ?_⟩, ?_⟩
  · intro k
    rw [sum k]
    refine (weightAt_perm (.cons _ ?_) k).symm
    simpa [still, increments] using increments_set c' found unanswered
  · intro j p read value there
    rw [List.getElem?_set] at there
    split at there
    · split at there
      · exact pending p read value (Option.some.inj there)
      · simp at there
    · exact accounted.pending j p read value there

theorem Accounted.call {profile : UserProfile} {node : Bool} (accounted : Accounted T initial s) :
    Accounted T initial (s.putUserProfile profile true node) := by
  obtain ⟨org, stored, inverts, sum⟩ := accounted.stored
  refine ⟨⟨org, stored, inverts, ?_⟩, ?_⟩
  · intro k
    have same : (s.putUserProfile profile true node).increments = s.increments := by
      rw [increments, increments, putUserProfile, List.filterMap_append, List.append_right_eq_self]
      cases node <;> rfl
    rw [sum k, same]
  · intro j p read value there
    rw [putUserProfile, List.getElem?_append] at there
    split at there
    · exact accounted.pending j p read value there
    · rw [List.getElem?_singleton] at there
      cases node <;> simp at there

theorem Accounted.get {i : Nat} {answered : Bool} (accounted : Accounted T initial s) :
    Accounted T initial (s.get T i answered) := by
  unfold UserProfileStorage.get
  split
  · rename_i profile found
    obtain ⟨org, stored, inverts, -⟩ := accounted.stored
    cases answered with
    | false => exact accounted.set_call found rfl rfl (by simp)
    | true =>
        have reply : getUserProfile T (some s.stored) blankProfile = (0, org) := by
          rw [stored, getUserProfile_of_readsBack inverts]
        simp only [if_true, reply]
        apply accounted.set_call found rfl rfl
        intro p read value same
        obtain ⟨rfl, pc⟩ := PutCall.mk.inj same
        obtain ⟨rfl, rfl⟩ := PutPc.atSet.inj pc
        exact ⟨org, stored, inverts, rfl⟩
  · exact accounted

/-- A SETEX that finds what its call has read adds exactly the call's increment. -/
theorem Accounted.set {i : Nat} {accepted : Bool} (accounted : Accounted T initial s)
    (readable : Readable T s (.set i accepted)) (unchanged : Unchanged s (.set i accepted)) :
    Accounted T initial (s.setToRedis T i accepted) := by
  unfold UserProfileStorage.setToRedis
  split
  · rename_i profile read value found
    cases accepted with
    | false => exact accounted.set_call found rfl rfl (by simp)
    | true =>
        obtain ⟨org, stored, inverts, sum⟩ := accounted.stored
        obtain ⟨org', same, inverts', rfl⟩ := accounted.pending i profile read value found
        rw [← unchanged profile read _ found, stored, Option.some.injEq] at same
        obtain rfl := inverts.inj inverts' same
        refine ⟨⟨_, rfl, readable profile read _ found, ?_⟩, ?_⟩
        · intro k
          have perm := increments_set ⟨profile, .returned 0⟩ found rfl
          rw [getElem?_incrementUserProfile, sum k, ← weightAt_append]
          exact (weightAt_perm (perm.cons _) k).symm
        · intro j p r v there
          simp only [if_true, List.getElem?_set] at there
          split at there
          · split at there <;> simp at there
          · exact accounted.pending j p r v there
  · exact accounted

/-- **No increment is lost** in a run where every SETEX still finds the value its
call has read: whenever all calls have answered 0, a GET yields a profile whose
keyword map is the initial one plus the increment of every call. -/
theorem no_increment_lost (T : Thrift UserProfile) (profile : UserProfile)
    (inverts : T.ReadsBack blankProfile profile) (es : List StorageEvent)
    (onlyIncrements : ∀ p node, .call p false node ∉ es)
    (readable : Along (step T) (Readable T) (holding T profile) es)
    (unchanged : Along (step T) Unchanged (holding T profile) es) :
    ∀ past, past <+: es →
      (∀ c ∈ (run (step T) (holding T profile) past).calls, c.pc = .returned 0) →
      ∃ result,
        getUserProfile T (some (run (step T) (holding T profile) past).stored) blankProfile =
          (0, result) ∧
        ∀ k, result.keywords[k]? = weightAt (profile.keywords ::
          (run (step T) (holding T profile) past).calls.map (·.profile.keywords)) k := by
  intro past inside done
  have accounted : ∀ pre, pre <+: es →
      Accounted T profile.keywords (run (step T) (holding T profile) pre) := by
    refine run_history (I := fun _ s => Accounted T profile.keywords s)
      (accounted_holding inverts) ?_
    intro pre e within before
    cases e with
    | call p isIncrement node =>
        cases isIncrement with
        | true => exact before.call
        | false => exact absurd (within.subset (by simp)) (onlyIncrements p node)
    | get i answered => exact before.get
    | set i accepted => exact before.set (readable.at within) (unchanged.at within)
  obtain ⟨result, stored, inverts', sum⟩ := (accounted past inside).stored
  refine ⟨result, by rw [stored, getUserProfile_of_readsBack inverts'], ?_⟩
  intro k
  rw [sum k, increments, List.filterMap_congr (g := fun c => some c.profile.keywords),
    List.filterMap_eq_map']
  intro c mem
  rw [PutCall.increment, done c mem]
  rfl

end UserProfileStorage

/-! ## Two clicks at once -/

namespace LostClick

/-- An integer in thrift's binary protocol, which is big-endian. -/
def int (width value : Nat) : Bytes := (encode width value).reverse

def stringField (field : UInt8) (text : String) : Bytes :=
  [0x0b, 0, field] ++ int 4 text.length ++ text.toList.map fun c => UInt8.ofNat c.toNat

def keywordsField (field : UInt8) (keywords : Keywords) : Bytes :=
  [0x0d, 0, field, 0x0a, 8] ++ int 4 keywords.size ++
    keywords.toList.flatMap fun e => int 8 e.1.toUInt64.toNat ++ int 4 e.2.toUInt32.toNat

/-- A user profile in the protocol. -/
def binaryProtocol (p : UserProfile) : Bytes :=
  stringField 1 p.uid ++ keywordsField 2 p.keywords ++
    (match p.topics with
      | none => []
      | some topics => [0x0f, 0, 3, 8] ++ int 4 topics.length ++
          topics.flatMap fun t => int 4 t.toUInt32.toNat) ++
    (match p.history with
      | none => []
      | some history => [0x0f, 0, 4, 0x0a] ++ int 4 history.length ++
          history.flatMap fun h => int 8 h.toUInt64.toNat) ++ [0]

def user (keywords : List (Int64 × Int32)) : UserProfile :=
  ⟨"u", keywords.foldl (fun m e => m.insert e.1 e.2) ∅, none, none⟩

/-- The profiles of the runs below. -/
def profiles : List UserProfile :=
  [user [(5, 1)], user [(5, 3)], user [(5, 4)], user [(5, 6)]]

/-- Thrift on some profiles.  Fields that are not set in the bytes stay as they are. -/
def thriftOn (profiles : List UserProfile) : Thrift UserProfile where
  thriftToString := binaryProtocol
  stringToThrift bytes target :=
    match profiles.find? (binaryProtocol · = bytes) with
    | some profile =>
        (true, { profile with
          topics := profile.topics.or target.topics
          history := profile.history.or target.history })
    | none => (false, target)

def thrift : Thrift UserProfile := thriftOn profiles

theorem inverts : ∀ p ∈ profiles, thrift.ReadsBack blankProfile p := by
  simp only [profiles, List.mem_cons, List.not_mem_nil, or_false]
  rintro p (rfl | rfl | rfl | rfl) <;> rfl

def storage (es : List StorageEvent) : UserProfileStorage :=
  run (UserProfileStorage.step thrift) (UserProfileStorage.holding thrift (user [(5, 1)])) es

def clicks : List StorageEvent :=
  [.call (user [(5, 2)]) true true, .call (user [(5, 3)]) true true]

/-- Both calls read the profile before either writes. -/
def overlapping : List StorageEvent :=
  clicks ++ [.get 0 true, .get 1 true, .set 0 true, .set 1 true]

/-- Both calls answer 0, and the first increment is gone. -/
theorem overlapping_click_lost :
    (∀ p ∈ profiles, thrift.ReadsBack blankProfile p) ∧
      (∀ c ∈ (storage overlapping).calls, c.pc = .returned 0) ∧
      getUserProfile thrift (some (storage overlapping).stored) blankProfile =
        (0, user [(5, 4)]) ∧
      (user [(5, 4)]).keywords[(5 : Int64)]? = some 4 ∧
      weightAt ((user [(5, 1)]).keywords ::
        (storage overlapping).calls.map (·.profile.keywords)) 5 = some 6 := by
  have calls : (storage overlapping).calls =
      [⟨user [(5, 2)], .returned 0⟩, ⟨user [(5, 3)], .returned 0⟩] := rfl
  refine ⟨inverts, by simp [calls], rfl, by decide, ?_⟩
  rw [calls]
  decide +kernel

/-- The second call reads what the first has written. -/
def inTurn : List StorageEvent :=
  clicks ++ [.get 0 true, .set 0 true, .get 1 true, .set 1 true]

theorem inTurn_clicks_kept :
    ∃ result, getUserProfile thrift (some (storage inTurn).stored) blankProfile = (0, result) ∧
      result.keywords[(5 : Int64)]? = some 6 := by
  have calls : (storage inTurn).calls =
      [⟨user [(5, 2)], .returned 0⟩, ⟨user [(5, 3)], .returned 0⟩] := rfl
  have first : (storage (inTurn.take 3)).calls[0]? = some ⟨user [(5, 2)],
      .atSet (some (binaryProtocol (user [(5, 1)]))) (user [(5, 3)])⟩ := rfl
  have second : (storage (inTurn.take 5)).calls[1]? = some ⟨user [(5, 3)],
      .atSet (some (binaryProtocol (user [(5, 3)]))) (user [(5, 6)])⟩ := rfl
  have readable : Along (UserProfileStorage.step thrift) (UserProfileStorage.Readable thrift)
      (UserProfileStorage.holding thrift (user [(5, 1)])) inTurn :=
    ⟨trivial, trivial, trivial, .of_call first (inverts _ (by simp [profiles])),
      trivial, .of_call second (inverts _ (by simp [profiles])), trivial⟩
  have unchanged : Along (UserProfileStorage.step thrift) UserProfileStorage.Unchanged
      (UserProfileStorage.holding thrift (user [(5, 1)])) inTurn :=
    ⟨trivial, trivial, trivial, .of_call first rfl, trivial, .of_call second rfl, trivial⟩
  obtain ⟨result, reply, sum⟩ := UserProfileStorage.no_increment_lost thrift (user [(5, 1)])
    (inverts _ (by simp [profiles])) inTurn (by simp [inTurn, clicks]) readable unchanged
    inTurn (List.prefix_refl _) (by show ∀ c ∈ (storage inTurn).calls, _; simp [calls])
  refine ⟨result, reply, ?_⟩
  rw [sum 5]
  show weightAt (_ :: (storage inTurn).calls.map _) 5 = _
  rw [calls]
  decide +kernel

end LostClick

end RecommEngine
