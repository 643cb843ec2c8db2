/-
# UserProfileIncrement -- one increment from beginning to end

`PutUserProfile` with `is_increment`, with redis up and nobody else calling: the
three steps of `UserProfileStorage` in a row.  `incrementCall_eq` says what they
leave: the profile written back is the stored one plus the caller's keywords if
the user is stored, and the blank profile that `GetUserProfile` left untouched
if not.  The increment of a new user is lost, so a get afterwards adds up
exactly if the user was stored or there was nothing to add
(`increment_adds_up_iff`).  Increments of a stored user may come in any order
(`increments_in_any_order`).
-/
import RecommEngine.UserProfileStorage

namespace RecommEngine

set_option autoImplicit false

open Std (ExtTreeMap)
open Theory.Run Theory.ByteStream Idl

namespace UserProfileStorage

variable (T : Thrift UserProfile) (stored : Option Bytes) (profile : UserProfile)

/-- The call of a user with the value `stored`. -/
def incrementCall : UserProfileStorage :=
  run (step T) ⟨stored, []⟩ [.call profile true true, .get 0 true, .set 0 true]

/-- What the call answers. -/
def answer : Option PutPc := (incrementCall T stored profile).calls[0]?.map PutCall.pc

/-- The profile the call writes back. -/
def writtenBack : UserProfile :=
  let (ret, orgProfile) := getUserProfile T (some stored) blankProfile
  if ret = 0 then incrementUserProfile orgProfile profile else orgProfile

/-- The keywords `GetUserProfile` finds, none for a user that is not stored. -/
def storedKeywords : Keywords :=
  let (ret, orgProfile) := getUserProfile T (some stored) blankProfile
  if ret = 0 then orgProfile.keywords else ∅

theorem incrementCall_eq :
    ((getUserProfile T (some stored) blankProfile).1 = 2 ∧
      answer T stored profile = some (.returned 2)) ∨
    ((getUserProfile T (some stored) blankProfile).1 ≠ 2 ∧
      answer T stored profile = some (.returned 0) ∧
      (incrementCall T stored profile).stored =
        some (T.thriftToString (writtenBack T stored profile))) := by
  have called : (⟨stored, []⟩ : UserProfileStorage).putUserProfile profile true true =
      ⟨stored, [⟨profile, .atGet⟩]⟩ := rfl
  simp only [answer, incrementCall, run_cons, run_nil, step, called, writtenBack]
  by_cases failed : (getUserProfile T (some stored) blankProfile).1 = 2
  · exact Or.inl ⟨failed, by simp [get, setToRedis, failed]⟩
  · refine Or.inr ⟨failed, ?_, ?_⟩ <;> simp [get, setToRedis, failed]

/-! ## The law of increments -/

end UserProfileStorage

/-- The value of a keyword; an absent one counts as 0. -/
def weightOf (keywords : Keywords) (k : Int64) : Int := (keywords[k]?.getD 0).toInt

/-- The values are added as `int32_t`. -/
theorem weightOf_increment_bmod (orgProfile addProfile : UserProfile) (k : Int64) :
    weightOf (incrementUserProfile orgProfile addProfile).keywords k =
      (weightOf orgProfile.keywords k + weightOf addProfile.keywords k).bmod (2 ^ 32) := by
  rw [weightOf, getElem?_incrementUserProfile]
  unfold weightOf
  generalize orgProfile.keywords[k]? = old
  generalize addProfile.keywords[k]? = new
  cases old with
  | none => cases new <;> simp [addWeights]
  | some old =>
      cases new with
      | none => simp [addWeights]
      | some new => simp [addWeights, Int32.toInt_add]

theorem weightOf_incrementUserProfile {orgProfile addProfile : UserProfile} {k : Int64}
    (least : -2 ^ 31 ≤ weightOf orgProfile.keywords k + weightOf addProfile.keywords k)
    (most : weightOf orgProfile.keywords k + weightOf addProfile.keywords k < 2 ^ 31) :
    weightOf (incrementUserProfile orgProfile addProfile).keywords k =
      weightOf orgProfile.keywords k + weightOf addProfile.keywords k := by
  rw [weightOf_increment_bmod]
  exact Int.bmod_eq_of_le (by omega) (by omega)

theorem mem_incrementUserProfile {orgProfile addProfile : UserProfile} {k : Int64} :
    k ∈ (incrementUserProfile orgProfile addProfile).keywords ↔
      k ∈ orgProfile.keywords ∨ k ∈ addProfile.keywords := by
  simp only [ExtTreeMap.mem_iff_isSome_getElem?, getElem?_incrementUserProfile]
  cases orgProfile.keywords[k]? <;> cases addProfile.keywords[k]? <;> simp [addWeights]

/-! ## Increments in any order -/

/-- A list of increments, one keyword at a time. -/
theorem getElem?_increments (adds : List UserProfile) (stored : UserProfile) (k : Int64) :
    (adds.foldl incrementUserProfile stored).keywords[k]? =
      weightAt (stored.keywords :: adds.map UserProfile.keywords) k := by
  induction adds using List.reverseRecOn with
  | nil => exact (weightAt_singleton stored.keywords k).symm
  | append_singleton adds add ih =>
      rw [List.foldl_concat, getElem?_incrementUserProfile, ih, ← weightAt_append]
      simp

theorem mem_increments (adds : List UserProfile) (stored : UserProfile) (k : Int64) :
    k ∈ (adds.foldl incrementUserProfile stored).keywords ↔
      k ∈ stored.keywords ∨ ∃ add ∈ adds, k ∈ add.keywords := by
  induction adds generalizing stored with
  | nil => simp
  | cons add adds ih => simp [ih, mem_incrementUserProfile, or_assoc]

/-- The rounds wrap around one by one, the sum as a whole. -/
theorem weightOf_increments (adds : List UserProfile) (stored : UserProfile) (k : Int64) :
    weightOf (adds.foldl incrementUserProfile stored).keywords k =
      (weightOf stored.keywords k + (adds.map (weightOf ·.keywords k)).sum).bmod (2 ^ 32) := by
  induction adds generalizing stored with
  | nil =>
      rw [List.foldl_nil, List.map_nil, List.sum_nil, Int.add_zero]
      exact (Int.bmod_eq_of_le (Int32.le_toInt _) (Int32.toInt_lt _)).symm
  | cons add adds ih =>
      rw [List.foldl_cons, ih, weightOf_increment_bmod, Int.bmod_add_bmod, List.map_cons,
        List.sum_cons, Int.add_assoc]

/-- Only the keywords are written. -/
theorem increments_frame (adds : List UserProfile) (stored : UserProfile) :
    (adds.foldl incrementUserProfile stored).uid = stored.uid ∧
      (adds.foldl incrementUserProfile stored).topics = stored.topics ∧
      (adds.foldl incrementUserProfile stored).history = stored.history := by
  induction adds generalizing stored with
  | nil => exact ⟨rfl, rfl, rfl⟩
  | cons add adds ih => exact ih (incrementUserProfile stored add)

theorem increments_perm {order adds : List UserProfile} (perm : order.Perm adds)
    (stored : UserProfile) :
    order.foldl incrementUserProfile stored = adds.foldl incrementUserProfile stored := by
  have keywords : (order.foldl incrementUserProfile stored).keywords =
      (adds.foldl incrementUserProfile stored).keywords := by
    refine ExtTreeMap.ext_getElem? fun k => ?_
    rw [getElem?_increments, getElem?_increments]
    exact weightAt_perm ((perm.map _).cons _) k
  obtain ⟨uid, topics, history⟩ := increments_frame order stored
  obtain ⟨uid', topics', history'⟩ := increments_frame adds stored
  generalize order.foldl incrementUserProfile stored = left at *
  generalize adds.foldl incrementUserProfile stored = right at *
  cases left
  cases right
  simp_all

/-- **Increments commute**: in any order they leave one profile, with the union
of the keywords and the sums of the values, and nothing else changed. -/
theorem increments_in_any_order (stored : UserProfile) (adds order : List UserProfile)
    (perm : order.Perm adds) :
    order.foldl incrementUserProfile stored = adds.foldl incrementUserProfile stored ∧
      (∀ k, k ∈ (order.foldl incrementUserProfile stored).keywords ↔
        k ∈ stored.keywords ∨ ∃ add ∈ adds, k ∈ add.keywords) ∧
      (∀ k, weightOf (order.foldl incrementUserProfile stored).keywords k =
        (weightOf stored.keywords k + (adds.map (weightOf ·.keywords k)).sum).bmod (2 ^ 32)) ∧
      (order.foldl incrementUserProfile stored).uid = stored.uid ∧
      (order.foldl incrementUserProfile stored).topics = stored.topics ∧
      (order.foldl incrementUserProfile stored).history = stored.history := by
  rw [increments_perm perm stored]
  exact ⟨rfl, mem_increments adds stored, weightOf_increments adds stored,
    increments_frame adds stored⟩

/-- Two clicks on one keyword wrap around in either order. -/
theorem two_clicks_in_any_order :
    [LostClick.user [(5, 1)], LostClick.user [(5, 2147483647)]].foldl incrementUserProfile
        (LostClick.user [(5, 0)]) =
      [LostClick.user [(5, 2147483647)], LostClick.user [(5, 1)]].foldl incrementUserProfile
        (LostClick.user [(5, 0)]) ∧
      weightOf ([LostClick.user [(5, 1)], LostClick.user [(5, 2147483647)]].foldl
        incrementUserProfile (LostClick.user [(5, 0)])).keywords 5 = -2147483648 := by
  have both := increments_in_any_order (LostClick.user [(5, 0)])
    [LostClick.user [(5, 2147483647)], LostClick.user [(5, 1)]]
    [LostClick.user [(5, 1)], LostClick.user [(5, 2147483647)]] (.swap _ _ _)
  refine ⟨both.1, (both.2.2.1 5).trans ?_⟩
  decide +kernel

namespace UserProfileStorage

variable (T : Thrift UserProfile) (stored : Option Bytes) (profile : UserProfile)

/-- If the call answers 0, a get yields the sums, and no keyword that is in
neither profile. -/
def AddsUp : Prop :=
  answer T stored profile = some (.returned 0) →
    ∃ result, getUserProfile T (some (incrementCall T stored profile).stored) blankProfile =
        (0, result) ∧
      (∀ k, weightOf result.keywords k =
        weightOf (storedKeywords T stored) k + weightOf profile.keywords k) ∧
      ∀ k ∈ result.keywords, k ∈ storedKeywords T stored ∨ k ∈ profile.keywords

/-- If the call answers 0, a get finds every keyword of the two profiles. -/
def KeepsKeywords : Prop :=
  answer T stored profile = some (.returned 0) →
    ∀ result, getUserProfile T (some (incrementCall T stored profile).stored) blankProfile =
        (0, result) →
      ∀ k, k ∈ storedKeywords T stored ∨ k ∈ profile.keywords → k ∈ result.keywords

variable {T stored profile}

/-- What a get finds after a call that has answered 0. -/
theorem get_incrementCall (inverts : T.ReadsBack blankProfile (writtenBack T stored profile))
    (done : answer T stored profile = some (.returned 0)) :
    getUserProfile T (some (incrementCall T stored profile).stored) blankProfile =
      (0, writtenBack T stored profile) := by
  rcases incrementCall_eq T stored profile with ⟨-, failed⟩ | ⟨-, -, written⟩
  · rw [failed] at done
    cases done
  · rw [written, getUserProfile_of_readsBack inverts]

/-- A stored user for whom the call answers 0 has been read and incremented. -/
theorem writtenBack_of_stored (known : stored ≠ none)
    (done : answer T stored profile = some (.returned 0)) :
    ∃ org, storedKeywords T stored = org.keywords ∧
      writtenBack T stored profile = incrementUserProfile org profile := by
  rcases incrementCall_eq T stored profile with ⟨-, failed⟩ | ⟨fine, -, -⟩
  · rw [failed] at done
    cases done
  · have found : (getUserProfile T (some stored) blankProfile).1 = 0 := by
      cases stored with
      | none => exact absurd rfl known
      | some bytes =>
          simp only [getUserProfile] at fine ⊢
          split
          · rfl
          · rename_i unread
            simp [unread] at fine
    exact ⟨(getUserProfile T (some stored) blankProfile).2, by simp [storedKeywords, found],
      by simp [writtenBack, found]⟩

theorem addsUp_of_stored (inverts : T.ReadsBack blankProfile (writtenBack T stored profile))
    (fits : ∀ k, -2 ^ 31 ≤ weightOf (storedKeywords T stored) k + weightOf profile.keywords k ∧
      weightOf (storedKeywords T stored) k + weightOf profile.keywords k < 2 ^ 31)
    (known : stored ≠ none) : AddsUp T stored profile ∧ KeepsKeywords T stored profile := by
  constructor
  · intro done
    obtain ⟨org, before, sum⟩ := writtenBack_of_stored known done
    refine ⟨_, get_incrementCall inverts done, ?_⟩
    rw [sum, before]
    rw [before] at fits
    exact ⟨fun k => weightOf_incrementUserProfile (fits k).1 (fits k).2,
      fun k inside => mem_incrementUserProfile.mp inside⟩
  · intro done result read k inside
    obtain ⟨org, before, sum⟩ := writtenBack_of_stored known done
    rw [get_incrementCall inverts done, sum] at read
    obtain rfl := (Prod.mk.inj read).2
    rw [before] at inside
    exact mem_incrementUserProfile.mpr inside

/-- A user that is not stored is left with the blank profile. -/
theorem get_incrementCall_none (inverts : T.ReadsBack blankProfile blankProfile) :
    getUserProfile T (some (incrementCall T none profile).stored) blankProfile =
      (0, blankProfile) := by
  have written : writtenBack T none profile = blankProfile := rfl
  have read := get_incrementCall (T := T) (written.symm ▸ inverts) rfl
  rw [written] at read
  exact read

theorem addsUp_none_iff (inverts : T.ReadsBack blankProfile blankProfile) :
    AddsUp T none profile ↔ ∀ k, weightOf profile.keywords k = 0 := by
  have blank : ∀ k, weightOf blankProfile.keywords k = 0 := fun k => by
    simp [blankProfile, weightOf]
  have before : storedKeywords T none = blankProfile.keywords := rfl
  constructor
  · intro adds k
    obtain ⟨result, read, sums, -⟩ := adds rfl
    rw [get_incrementCall_none inverts] at read
    obtain rfl := (Prod.mk.inj read).2
    have sum := sums k
    rw [before, blank k] at sum
    omega
  · intro nothing _
    refine ⟨blankProfile, get_incrementCall_none inverts, ?_, ?_⟩
    · intro k
      rw [before, blank k, nothing k]
      rfl
    · exact fun k inside => Or.inl inside

theorem keepsKeywords_none_iff (inverts : T.ReadsBack blankProfile blankProfile) :
    KeepsKeywords T none profile ↔ ∀ k, k ∉ profile.keywords := by
  have none_ : ∀ k, k ∉ blankProfile.keywords := fun k => by simp [blankProfile]
  constructor
  · intro keeps k inside
    exact none_ k (keeps rfl blankProfile (get_incrementCall_none inverts) k (Or.inr inside))
  · intro empty _ result _ k inside
    rcases inside with before | added
    · exact absurd before (none_ k)
    · exact absurd added (empty k)

/-- **An increment adds up** exactly if the user was stored or all its values are
0.  No keyword is missing besides exactly if the user was stored or there were no
keywords to add. -/
theorem increment_adds_up_iff (T : Thrift UserProfile) (stored : Option Bytes)
    (profile : UserProfile) (inverts : T.ReadsBack blankProfile (writtenBack T stored profile))
    (fits : ∀ k, -2 ^ 31 ≤ weightOf (storedKeywords T stored) k + weightOf profile.keywords k ∧
      weightOf (storedKeywords T stored) k + weightOf profile.keywords k < 2 ^ 31) :
    (AddsUp T stored profile ↔ stored ≠ none ∨ ∀ k, weightOf profile.keywords k = 0) ∧
      (AddsUp T stored profile ∧ KeepsKeywords T stored profile ↔
        stored ≠ none ∨ ∀ k, k ∉ profile.keywords) := by
  cases stored with
  | some bytes =>
      have both := addsUp_of_stored inverts fits (by simp)
      exact ⟨iff_of_true both.1 (Or.inl (by simp)), iff_of_true both (Or.inl (by simp))⟩
  | none =>
      have blank : T.ReadsBack blankProfile blankProfile := inverts
      rw [addsUp_none_iff blank, keepsKeywords_none_iff blank]
      simp only [ne_eq, not_true_eq_false, false_or, true_and]
      refine ⟨fun both => both.2, fun empty => ⟨?_, empty⟩⟩
      intro k
      simp [weightOf, ExtTreeMap.getElem?_eq_none (empty k)]

end UserProfileStorage

/-! ## The first click of a user -/

namespace FirstClick

open LostClick (binaryProtocol thriftOn user)
open UserProfileStorage

/-- Thrift on the profiles of the calls below. -/
def thrift : Thrift UserProfile := thriftOn [blankProfile, user [(5, 1)], user [(5, 4)]]

/-- The call answers 0, and a get answers 0 with no keywords at all. -/
theorem first_click_lost :
    thrift.ReadsBack blankProfile (writtenBack thrift none (user [(5, 3)])) ∧
      answer thrift none (user [(5, 3)]) = some (.returned 0) ∧
      getUserProfile thrift (some (incrementCall thrift none (user [(5, 3)])).stored)
        blankProfile = (0, blankProfile) ∧
      ¬ AddsUp thrift none (user [(5, 3)]) := by
  have inverts : thrift.ReadsBack blankProfile blankProfile := rfl
  refine ⟨inverts, rfl, rfl, ?_⟩
  rw [addsUp_none_iff inverts]
  intro nothing
  exact absurd (nothing 5) (by decide)

theorem later_click_adds_up :
    answer thrift (some (binaryProtocol (user [(5, 1)]))) (user [(5, 3)]) =
        some (.returned 0) ∧
      AddsUp thrift (some (binaryProtocol (user [(5, 1)]))) (user [(5, 3)]) := by
  refine ⟨rfl, (increment_adds_up_iff thrift (some (binaryProtocol (user [(5, 1)])))
    (user [(5, 3)]) rfl ?_).1.mpr (Or.inl (by simp))⟩
  intro k
  have before : storedKeywords thrift (some (binaryProtocol (user [(5, 1)]))) =
      (∅ : Keywords).insert 5 1 := rfl
  have added : (user [(5, 3)]).keywords = (∅ : Keywords).insert 5 3 := rfl
  rw [before, added]
  simp only [weightOf, ExtTreeMap.getElem?_insert]
  split
  · decide
  · simp

end FirstClick

end RecommEngine
