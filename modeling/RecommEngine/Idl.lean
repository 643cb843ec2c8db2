/-
# Idl -- the thrift records

The records of `idl/recomm_engine.thrift` that the modelled functions read or
write, with the fields they use.  `map<i64, i32>` is an ordered map with
extensional equality, so two records are equal when their fields hold the same
entries.  How thrift lays a record out in bytes is a parameter.
-/
import Mathlib

namespace RecommEngine.Idl

set_option autoImplicit false

open Std (ExtTreeMap)

/-- A keyword map: keyword id to weight. -/
abbrev Keywords := ExtTreeMap Int64 Int32

/-- Among entries with distinct keys, the key of the first is not found again. -/
theorem find?_tail_of_nodup {ε κ : Type} [DecidableEq κ] {key : ε → κ} {entry : ε} {k : κ}
    {entries : List ε} (distinct : key entry ∉ entries.map key) (here : key entry = k) :
    entries.find? (fun other => key other = k) = none := by
  rw [List.find?_eq_none]
  intro other inside same
  apply distinct
  rw [here, ← of_decide_eq_true same]
  exact List.mem_map_of_mem inside

structure StoryProfile where
  storyId : String
  signature : Int64
  url : String
  title : String
  keywords : Keywords
  deriving DecidableEq

structure StoryAddingRequest where
  story : StoryProfile

/-- Optional fields are `none` when they are not set. -/
structure UserProfile where
  uid : String
  keywords : Keywords
  topics : Option (List Int32)
  history : Option (List Int64)
  deriving DecidableEq

inductive StoryManagementStatus where
  | ok
  | error
  deriving DecidableEq

structure IndexingAttachment where
  globalDocid : Int64
  deriving DecidableEq

structure RetrievalRequestInfo where
  keyword : Int64
  weight : Int32 := 0

structure RetrievalRequest where
  keywords : List RetrievalRequestInfo

/-- Scores are counts scaled by one; `double` is taken as exact. -/
structure RetrievalResult where
  storyId : Int64
  score : ℚ := 0
  deriving DecidableEq

inductive RetrievalResponseCode where
  | ok
  | error
  | keywordNotFound
  deriving DecidableEq

structure RetrievalResponse where
  respCode : RetrievalResponseCode := .ok
  numResults : Int := 0
  results : List RetrievalResult := []
  deriving DecidableEq

structure RecommendationRequest where
  uid : String
  url : String
  topN : Int16

inductive RecommendationResponseCode where
  | ok
  | error
  | uidNotFound
  | noDoc
  | noCandidate
  | noProfile
  | emptyRankResult
  deriving DecidableEq

structure RecommendationResult where
  storyId : String
  score : ℚ := 100
  url : String
  title : String
  debugInfo : Option String := none
  deriving DecidableEq

structure RecommendationResponse where
  responseCode : RecommendationResponseCode := .ok
  results : List RecommendationResult := []
  deriving DecidableEq

/-- `ThriftToString` and `StringToThrift` of `util/base/thrift_util.h`.  The second
reads into an existing record and says whether it succeeded.  Optional fields that were
not written keep what the record held. -/
structure Thrift (ThriftType : Type) where
  thriftToString : ThriftType → List UInt8
  stringToThrift : List UInt8 → ThriftType → Bool × ThriftType

/-- The record is read back from its bytes, whatever the target held: so it is with a
record all of whose fields are required. -/
def Thrift.Inverts {ThriftType : Type} (T : Thrift ThriftType) (t : ThriftType) : Prop :=
  ∀ target, T.stringToThrift (T.thriftToString t) target = (true, t)

/-- The record is read back from its bytes into a blank one. -/
def Thrift.ReadsBack {ThriftType : Type} (T : Thrift ThriftType) (blank t : ThriftType) : Prop :=
  T.stringToThrift (T.thriftToString t) blank = (true, t)

/-- Records that are read back are told apart by their bytes. -/
theorem Thrift.ReadsBack.inj {ThriftType : Type} {T : Thrift ThriftType} {blank t u : ThriftType}
    (reads : T.ReadsBack blank t) (reads' : T.ReadsBack blank u)
    (same : T.thriftToString t = T.thriftToString u) : t = u := by
  rw [Thrift.ReadsBack, same, reads'] at reads
  exact (Prod.mk.inj reads).2.symm

end RecommEngine.Idl
