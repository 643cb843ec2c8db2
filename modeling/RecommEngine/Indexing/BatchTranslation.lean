/-
# Indexing.BatchTranslation -- local ids to global ids, a list at a time

`TranslateToGlobalIDBatch` fills the caller's map with the translations of a list
and judges success by comparing the size of the list with the size of the map.
The two sizes differ for other reasons too: a repeated id counts once in the map,
an entry the caller left there counts although it is not in the list.  And the
loop runs up to `int size`, which is not the size of a list of 2^31 ids or more.

`batch_agrees_iff` says for which inputs the batch is the single translation on
every id.  `batch_of_nodup` is the case of the one caller in the repository: ids
without repetition and an empty map.
-/
import RecommEngine.Indexing.InstantIndex

namespace RecommEngine.Indexing

set_option autoImplicit false

open Std (ExtTreeMap)
open Idl

/-- `map<LocalDocID, int64_t>`. -/
abbrev Translations := ExtTreeMap LocalDocID Int64

namespace InstantIndex

variable {W : Type}

/-- One round of the loop. -/
def translateInto (m : InstantIndex W) (res : Translations) (localId : LocalDocID) :
    Translations :=
  match m.att[localId]? with
  | some attachment => res.insert localId attachment.globalDocid
  | none => res

/-- The ids the loop reaches: `int size = locals.size()` is a conversion. -/
def reached (locals : List LocalDocID) : List LocalDocID :=
  locals.take (Int32.ofNat locals.length).toInt.toNat

def translateToGlobalIDBatch (m : InstantIndex W) (locals : List LocalDocID)
    (res : Translations) : Bool × Translations :=
  let res := (reached locals).foldl m.translateInto res
  (locals.length == res.size, res)

/-! ## What the loop leaves in the map -/

theorem reached_of_lt {locals : List LocalDocID} (small : locals.length < 2 ^ 31) :
    reached locals = locals := by
  have size : (Int32.ofNat locals.length).toInt = locals.length := Int32.toInt_ofNat_of_lt small
  rw [reached, size, Int.toNat_natCast, List.take_length]

theorem getElem?_translateInto (m : InstantIndex W) (res : Translations)
    (localId k : LocalDocID) :
    (m.translateInto res localId)[k]? =
      if localId = k then (m.translateToGlobalID k).or res[k]? else res[k]? := by
  unfold translateInto translateToGlobalID
  by_cases here : localId = k
  · subst here
    cases m.att[localId]? <;> simp
  · cases m.att[localId]? <;> simp [ExtTreeMap.getElem?_insert, here]

theorem getElem?_foldl_translateInto (m : InstantIndex W) (locals : List LocalDocID)
    (res : Translations) (k : LocalDocID) :
    (locals.foldl m.translateInto res)[k]? =
      if k ∈ locals then (m.translateToGlobalID k).or res[k]? else res[k]? := by
  induction locals generalizing res with
  | nil => simp
  | cons localId locals ih =>
      rw [List.foldl_cons, ih, getElem?_translateInto]
      by_cases here : localId = k
      · cases m.translateToGlobalID k <;> simp [here]
      · simp [here, Ne.symm here]

/-- The ids of the list that the loop reaches and translates. -/
def translated (m : InstantIndex W) (locals : List LocalDocID) : Finset LocalDocID :=
  ((reached locals).filter fun localId => (m.translateToGlobalID localId).isSome).toFinset

theorem mem_translated (m : InstantIndex W) (locals : List LocalDocID) (k : LocalDocID) :
    k ∈ m.translated locals ↔ k ∈ reached locals ∧ (m.translateToGlobalID k).isSome := by
  simp [translated]

theorem keys_translateToGlobalIDBatch (m : InstantIndex W) (locals : List LocalDocID)
    (res : Translations) :
    (m.translateToGlobalIDBatch locals res).2.keys.toFinset =
      (res.keys.toFinset \ m.translated locals) ∪ m.translated locals := by
  ext k
  simp only [List.mem_toFinset, ExtTreeMap.mem_keys, ExtTreeMap.mem_iff_isSome_getElem?,
    Finset.sdiff_union_self_eq_union, Finset.mem_union, mem_translated]
  simp only [translateToGlobalIDBatch, getElem?_foldl_translateInto]
  by_cases inside : k ∈ reached locals
  · simp [inside, or_comm]
  · simp [inside]

/-- The map ends with the caller's entries that were not overwritten and one
entry for each id translated. -/
theorem size_translateToGlobalIDBatch (m : InstantIndex W) (locals : List LocalDocID)
    (res : Translations) :
    (m.translateToGlobalIDBatch locals res).2.size =
      (res.keys.toFinset \ m.translated locals).card + (m.translated locals).card := by
  rw [← card_keys, keys_translateToGlobalIDBatch]
  exact Finset.card_union_of_disjoint Finset.sdiff_disjoint

/-! ## The batch against the single translation -/

/-- The batch does what `TranslateToGlobalID` does, on every id of the list. -/
structure AgreesWithSingle (m : InstantIndex W) (locals : List LocalDocID) (res : Translations) :
    Prop where
  answer : (m.translateToGlobalIDBatch locals res).1 = true ↔
    ∀ localId ∈ locals, (m.translateToGlobalID localId).isSome
  filled : ∀ localId ∈ locals, ∀ globalId, m.translateToGlobalID localId = some globalId →
    (m.translateToGlobalIDBatch locals res).2[localId]? = some globalId
  kept : ∀ localId, (localId ∈ locals → m.translateToGlobalID localId = none) →
    (m.translateToGlobalIDBatch locals res).2[localId]? = res[localId]?

/-- The loop reaches every id it has a translation for, up to those the caller's
map already holds right. -/
def ReachesAll (m : InstantIndex W) (locals : List LocalDocID) (res : Translations) : Prop :=
  ∀ localId ∈ locals, ∀ globalId, m.translateToGlobalID localId = some globalId →
    localId ∈ reached locals ∨ res[localId]? = some globalId

/-- The caller's other entries make up for the repetitions in the list if every id
has a translation, and do not make up for the missing ones otherwise. -/
def SizesTell (m : InstantIndex W) (locals : List LocalDocID) (res : Translations) : Prop :=
  (res.keys.toFinset \ m.translated locals).card + (m.translated locals).card = locals.length ↔
    ∀ localId ∈ locals, (m.translateToGlobalID localId).isSome

variable {m : InstantIndex W} {locals : List LocalDocID} {res : Translations}

/-- Entries of other ids are never touched. -/
theorem batch_kept (localId : LocalDocID)
    (other : localId ∈ locals → m.translateToGlobalID localId = none) :
    (m.translateToGlobalIDBatch locals res).2[localId]? = res[localId]? := by
  simp only [translateToGlobalIDBatch, getElem?_foldl_translateInto]
  by_cases inside : localId ∈ reached locals
  · simp [other (List.mem_of_mem_take inside)]
  · simp [inside]

theorem batch_filled_iff :
    (∀ localId ∈ locals, ∀ globalId, m.translateToGlobalID localId = some globalId →
      (m.translateToGlobalIDBatch locals res).2[localId]? = some globalId) ↔
    ReachesAll m locals res := by
  simp only [translateToGlobalIDBatch, getElem?_foldl_translateInto, ReachesAll]
  refine forall₂_congr fun localId inside => forall₂_congr fun globalId found => ?_
  by_cases there : localId ∈ reached locals
  · simp [there, found]
  · simp [there]

theorem batch_answer_iff :
    ((m.translateToGlobalIDBatch locals res).1 = true ↔
      ∀ localId ∈ locals, (m.translateToGlobalID localId).isSome) ↔
    SizesTell m locals res := by
  have sizes : (m.translateToGlobalIDBatch locals res).1 = true ↔
      (res.keys.toFinset \ m.translated locals).card + (m.translated locals).card =
        locals.length := by
    rw [← size_translateToGlobalIDBatch]
    exact (beq_iff_eq (a := locals.length)).trans eq_comm
  rw [sizes, SizesTell]

/-- **The batch agrees with the single translation** exactly if the loop reaches
what it can translate and the two sizes tell a missing id from a repeated one. -/
theorem batch_agrees_iff (m : InstantIndex W) (locals : List LocalDocID) (res : Translations) :
    AgreesWithSingle m locals res ↔ ReachesAll m locals res ∧ SizesTell m locals res := by
  constructor
  · rintro ⟨answer, filled, -⟩
    exact ⟨batch_filled_iff.mp filled, batch_answer_iff.mp answer⟩
  · rintro ⟨reaches, tell⟩
    exact ⟨batch_answer_iff.mpr tell, batch_filled_iff.mpr reaches, batch_kept⟩

/-- Ids without repetition and an empty map, as the retrieval benchmark of the
repository calls it: the sizes are those of the list and of its translated part. -/
theorem batch_of_nodup (distinct : locals.Nodup) (small : locals.length < 2 ^ 31) :
    AgreesWithSingle m locals ∅ := by
  refine (batch_agrees_iff m locals ∅).mpr ⟨?_, ?_⟩
  · intro localId inside globalId _
    exact Or.inl ((reached_of_lt small).symm ▸ inside)
  · have count : (m.translated locals).card =
        (locals.filter fun localId => (m.translateToGlobalID localId).isSome).length := by
      rw [translated, reached_of_lt small, List.toFinset_card_of_nodup (distinct.filter _)]
    have nothing : (∅ : Translations).keys = [] := rfl
    rw [SizesTell, count, nothing]
    simp [List.length_filter_eq_length_iff]

end InstantIndex

/-! ## A repeated id and a left-over entry -/

namespace TwoSizes

open InstantIndex

/-- One story, with the local id 1. -/
def index : InstantIndex Unit := 
  { att := (∅ : ExtTreeMap LocalDocID IndexingAttachment).insert 1 ⟨70⟩ }

/-- `1, 1` is translated in full and reported as a failure; `1, 2` is reported
as a success because of an entry of some other id, although 2 is not there. -/
theorem sizes_mislead :
    (index.translateToGlobalIDBatch [1, 1] ∅).1 = false ∧
      (∀ localId ∈ [1, 1], (index.translateToGlobalID localId).isSome) ∧
      ¬ AgreesWithSingle index [1, 1] ∅ ∧
      (index.translateToGlobalIDBatch [1, 2] ((∅ : Translations).insert 9 0)).1 = true ∧
      index.translateToGlobalID 2 = none ∧
      ¬ AgreesWithSingle index [1, 2] ((∅ : Translations).insert 9 0) := by
  have repeated : (index.translateToGlobalIDBatch [1, 1] ∅).1 = false := by
    rw [translateToGlobalIDBatch, reached_of_lt (by decide)]
    rfl
  have leftOver : (index.translateToGlobalIDBatch [1, 2] ((∅ : Translations).insert 9 0)).1 =
      true := by
    rw [translateToGlobalIDBatch, reached_of_lt (by decide)]
    rfl
  have all : ∀ localId ∈ [1, 1], (index.translateToGlobalID localId).isSome := by
    simp [index, translateToGlobalID]
  have missing : index.translateToGlobalID 2 = none := by decide
  refine ⟨repeated, all, ?_, leftOver, missing, ?_⟩
  · intro agrees
    have success := agrees.answer.mpr all
    rw [repeated] at success
    cases success
  · intro agrees
    have found := agrees.answer.mp leftOver 2 (by simp)
    rw [missing] at found
    cases found

end TwoSizes

end RecommEngine.Indexing
