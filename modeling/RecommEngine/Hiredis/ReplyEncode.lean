/-
# Hiredis.ReplyEncode -- replies as a server writes them

`encode` writes a reply, `nesting` is how many arrays deep it goes.  The reader's stack
has nine places, so the reply that is nested more than eight deep is where it stops.

* `wire_encode`: what is written is in the grammar of `Hiredis.ReplyWire`.
* `encoded_replies_read`: the round trip.  From any replies, written one after another
  and cut into any pieces, a client gets those before the first that is too deep, and
  then the nesting error; it gets all of them, and no error, if none is.
-/
import RecommEngine.Hiredis.ReplyWire
import RecommEngine.Hiredis.Numeral

namespace RecommEngine.Hiredis

set_option autoImplicit false

open Theory
open Theory.ByteStream (Bytes)
open RedisReader

mutual

def encode : RedisReply → Bytes
  | .string str => ascii '$' :: (decimal str.length ++ crlf ++ (str ++ crlf))
  | .array element => ascii '*' :: (decimal element.length ++ crlf ++ encodeAll element)
  | .hollow elements => ascii '*' :: (signedDecimal elements ++ crlf)
  | .integer integer => ascii ':' :: (signedDecimal integer.toInt ++ crlf)
  | .nil => ascii '$' :: (signedDecimal (-1) ++ crlf)
  | .status str => ascii '+' :: (str ++ crlf)
  | .error str => ascii '-' :: (str ++ crlf)

def encodeAll : List RedisReply → Bytes
  | [] => []
  | reply :: replies => encode reply ++ encodeAll replies

end

mutual

/-- What a server can say: a line is one line, and a count fits the client's types. -/
def WellFormed : RedisReply → Prop
  | .string str => str.length < 2 ^ 63
  | .array element => element.length < 2 ^ 31 ∧ AllWellFormed element
  | .hollow elements => -2 ^ 31 ≤ elements ∧ elements < -1
  | .integer _ => True
  | .nil => True
  | .status str => Unbroken str
  | .error str => Unbroken str

def AllWellFormed : List RedisReply → Prop
  | [] => True
  | reply :: replies => WellFormed reply ∧ AllWellFormed replies

end

mutual

/-- How many arrays are opened inside each other. -/
def nesting : RedisReply → Nat
  | .array element => nestingAll element + 1
  | .hollow _ => 1
  | _ => 0

def nestingAll : List RedisReply → Nat
  | [] => 0
  | reply :: replies => max (nesting reply) (nestingAll replies)

end

theorem encodeAll_eq (replies : List RedisReply) : encodeAll replies = (replies.map encode).flatten := by
  induction replies with
  | nil => simp [encodeAll]
  | cons reply replies ih => simp [encodeAll, ih]

theorem allWellFormed_iff (replies : List RedisReply) :
    AllWellFormed replies ↔ ∀ reply ∈ replies, WellFormed reply := by
  induction replies with
  | nil => simp [AllWellFormed]
  | cons reply replies ih => simp [AllWellFormed, ih]

theorem nestingAll_le {replies : List RedisReply} {depth : Nat} :
    nestingAll replies ≤ depth ↔ ∀ reply ∈ replies, nesting reply ≤ depth := by
  induction replies with
  | nil => simp [nestingAll]
  | cons reply replies ih => simp [nestingAll, ih]

/-- Replies go down into the elements of arrays. -/
theorem RedisReply.element_induction {motive : RedisReply → Prop}
    (array : ∀ element, (∀ reply ∈ element, motive reply) → motive (.array element))
    (leaf : ∀ reply, (∀ element, reply ≠ .array element) → motive reply) :
    ∀ reply, motive reply
  | .array element => array element fun reply _ => element_induction array leaf reply
  | .string _ => leaf _ (by simp)
  | .hollow _ => leaf _ (by simp)
  | .integer _ => leaf _ (by simp)
  | .nil => leaf _ (by simp)
  | .status _ => leaf _ (by simp)
  | .error _ => leaf _ (by simp)

/-! ## What is written is in the grammar -/

theorem unbroken_of_no_cr {text : Bytes} (none_ : cr ∉ text) : Unbroken text :=
  fun inside => none_ (inside.subset List.mem_cons_self)

theorem unbroken_decimal (n : Nat) : Unbroken (decimal n) :=
  unbroken_of_no_cr (not_mem_decimal (by decide) n)

theorem unbroken_signedDecimal (n : Int) : Unbroken (signedDecimal n) := by
  refine unbroken_of_no_cr ?_
  have digits : cr ∉ decimal n.natAbs := not_mem_decimal (by decide) _
  have sign : cr ≠ ascii '-' := by decide
  unfold signedDecimal
  split
  · simp [sign, digits]
  · exact digits

theorem readLongLong_decimal_line {n : Nat} (fits : n < 2 ^ 63) :
    (readLongLong (decimal n ++ crlf)).toInt = n := by
  rw [crlf, readLongLong_decimal]
  exact Int64.toInt_ofNat_of_lt fits

theorem readLongLong_signed_line (n : Int) :
    readLongLong (signedDecimal n ++ crlf) = Int64.ofInt n :=
  readLongLong_signedDecimal n [lf]

/-- A count below 2^31 is what the array task holds. -/
theorem count_of_decimal {n : Nat} (fits : n < 2 ^ 31) :
    (readLongLong (decimal n ++ crlf)).toInt32.toInt = n := by
  rw [crlf, readLongLong_decimal, Int64.toInt32_ofNat']
  exact Int32.toInt_ofNat_of_lt fits

theorem above_of_decimal {n : Nat} (positive : 0 < n) (fits : n < 2 ^ 63) :
    0 < readLongLong (decimal n ++ crlf) := by
  rw [Int64.lt_iff_toInt_lt, readLongLong_decimal_line fits]
  simpa using positive

theorem wire_array {depth : Nat} {element : List RedisReply} (shallow : depth < 8)
    (fits : element.length < 2 ^ 31)
    (each : ∀ reply ∈ element, Wire (depth + 1) reply (encode reply)) :
    Wire depth (.array element) (encode (.array element)) := by
  rw [encode, encodeAll_eq]
  have count := count_of_decimal fits
  by_cases empty : element = []
  · subst empty
    simp only [List.map_nil, List.flatten_nil, List.append_nil]
    exact .emptyArray shallow (unbroken_decimal 0) (by decide)
  · obtain ⟨items, items_eq⟩ : ∃ items, items = element.map fun reply => (reply, encode reply) :=
      ⟨_, rfl⟩
    have replies : items.map Prod.fst = element := by simp [items_eq, Function.comp_def]
    have bytes : items.map Prod.snd = element.map encode := by simp [items_eq]
    have wire : Wire depth (.array (items.map Prod.fst))
        (ascii '*' :: (decimal element.length ++ crlf ++ (items.map Prod.snd).flatten)) := by
      refine .array shallow (unbroken_decimal _) (above_of_decimal ?_ (by omega)) ?_ ?_ ?_
      · exact List.length_pos_iff.mpr empty
      · simpa [items_eq] using count
      · simpa [items_eq] using empty
      · simpa [items_eq] using each
    rwa [replies, bytes] at wire

theorem wire_encode {reply : RedisReply} {depth : Nat} (wellFormed : WellFormed reply)
    (shallow : depth + nesting reply ≤ 8) : Wire depth reply (encode reply) := by
  induction reply using RedisReply.element_induction generalizing depth with
  | array element ih =>
      rw [nesting] at shallow
      rw [WellFormed, allWellFormed_iff] at wellFormed
      refine wire_array (by omega) wellFormed.1 ?_
      intro reply inside
      have deeper : nesting reply ≤ nestingAll element := nestingAll_le.mp le_rfl reply inside
      exact ih reply inside (wellFormed.2 reply inside) (by omega)
  | leaf reply noArray =>
      cases reply with
      | array element => exact absurd rfl (noArray element)
      | string str =>
          rw [encode]
          exact .string (unbroken_decimal _) (readLongLong_decimal_line wellFormed) rfl
      | hollow elements =>
          rw [WellFormed] at wellFormed
          rw [nesting] at shallow
          have value := readLongLong_signed_line elements
          have below : readLongLong (signedDecimal elements ++ crlf) < -1 := by
            rw [value, Int64.lt_iff_toInt_lt, Int64.toInt_ofInt_of_le (by omega) (by omega)]
            exact wellFormed.2
          have wire : Wire depth _ (ascii '*' :: (signedDecimal elements ++ crlf)) :=
            .hollow (by omega) (unbroken_signedDecimal elements) below
          rwa [value, Int64.toInt32_ofInt, Int32.toInt_ofInt_of_le (by omega) (by omega)] at wire
      | integer n =>
          have wire : Wire depth _ (ascii ':' :: (signedDecimal n.toInt ++ crlf)) :=
            .integer (unbroken_signedDecimal n.toInt)
          rwa [readLongLong_signed_line, Int64.ofInt_toInt] at wire
      | nil =>
          rw [encode]
          refine .nilString (unbroken_signedDecimal _) ?_
          rw [readLongLong_signed_line]
          decide
      | status str => exact .status wellFormed
      | error str => exact .error wellFormed

/-! ## Arrays that are nested too deep -/

/-- The parser stops inside these bytes: an array would have no place on the stack. -/
def Overflows (depth : Nat) (bytes : Bytes) : Prop :=
  ∀ (cur : ReadTask) (rest : List ReadTask), cur.type = none → rest.length = depth →
    storable rest = true → ∀ more, ∃ left,
      parser.Steps ⟨.ok (cur :: rest), bytes ++ more⟩ [] ⟨.error tooDeep, left⟩

/-- The type byte of an array is one too many. -/
theorem overflows_full (bytes : Bytes) : Overflows 8 (ascii '*' :: bytes) := by
  intro cur rest unknown level _ more
  have isArray : itemType (ascii '*') = some .array := by decide
  have typed := steps_type isArray unknown rest (bytes ++ more)
  have body : itemBody .array { cur with type := some .array } rest (bytes ++ more) =
      some (.error tooDeep, 0) := by
    rw [itemBody, if_pos level]
  exact ⟨_, typed.trans (steps_body rfl body)⟩

/-- Elements up to the one that is too deep. -/
theorem items_overflow {depth : Nat} {items : List RedisReply}
    (each : ∀ reply ∈ items, WellFormed reply)
    (deep : ∀ reply ∈ items, 8 < depth + 1 + nesting reply → Overflows (depth + 1) (encode reply))
    (some_ : 8 < depth + 1 + nestingAll items) (room : depth < 8) (cur prv : ReadTask)
    {rest : List ReadTask} (unknown : cur.type = none) (level : rest.length = depth)
    (at_ : cur.idx = prv.obj.length) (count : prv.elements = prv.obj.length + items.length)
    (more : Bytes) :
    ∃ left, parser.Steps ⟨.ok (cur :: prv :: rest), encodeAll items ++ more⟩ []
      ⟨.error tooDeep, left⟩ := by
  induction items generalizing cur prv with
  | nil =>
      rw [nestingAll] at some_
      omega
  | cons reply items ih =>
      rw [nestingAll] at some_
      rw [encodeAll, List.append_assoc]
      rw [List.length_cons] at count
      by_cases here : 8 < depth + 1 + nesting reply
      · refine deep reply List.mem_cons_self here cur (prv :: rest) unknown (by simp [level]) ?_ _
        simp only [storable, decide_eq_true_eq, count]
        omega
      · have later : 8 < depth + 1 + nestingAll items := by omega
        have some_ : items ≠ [] := by
          rintro rfl
          rw [nestingAll] at later
          omega
        have positive : 0 < items.length := List.length_pos_iff.mpr some_
        have reads := reads_of_wire (wire_encode (each reply List.mem_cons_self) (not_lt.mp here))
        obtain ⟨cur', unknown', at', run⟩ := steps_item reads unknown level at_ (by omega)
          (encodeAll items ++ more)
        obtain ⟨left, run'⟩ := ih (fun reply inside => each reply (List.mem_cons_of_mem _ inside))
          (fun reply inside => deep reply (List.mem_cons_of_mem _ inside)) later cur'
          { prv with obj := prv.obj ++ [reply] } unknown' at' (by simp [count]; omega)
        exact ⟨left, run.trans run'⟩

theorem overflows_encode {reply : RedisReply} {depth : Nat} (wellFormed : WellFormed reply)
    (inStack : depth ≤ 8) (deep : 8 < depth + nesting reply) : Overflows depth (encode reply) := by
  induction reply using RedisReply.element_induction generalizing depth with
  | array element ih =>
      rw [nesting] at deep
      rw [WellFormed, allWellFormed_iff] at wellFormed
      rw [encode]
      by_cases full : depth = 8
      · rw [full]
        exact overflows_full _
      · intro cur rest unknown level room more
        have some_ : element ≠ [] := by
          rintro rfl
          rw [nestingAll] at deep
          omega
        have positive : 0 < element.length := List.length_pos_iff.mpr some_
        have header := steps_header (unbroken_decimal element.length)
          (above_of_decimal positive (by omega)) unknown (by omega) room (encodeAll element ++ more)
        obtain ⟨left, run⟩ := items_overflow wellFormed.2
          (fun reply inside => ih reply inside (wellFormed.2 reply inside) (by omega)) (by omega)
          (by omega) { idx := 0 }
          { cur with
            type := some .array
            elements := (readLongLong (decimal element.length ++ crlf)).toInt32.toInt
            obj := [] }
          rfl level rfl (by simp [count_of_decimal wellFormed.1]) more
        refine ⟨left, ?_⟩
        have both := header.trans run
        rwa [← List.append_assoc] at both
  | leaf reply noArray =>
      cases reply with
      | array element => exact absurd rfl (noArray element)
      | hollow elements =>
          rw [nesting] at deep
          rw [encode, show depth = 8 by omega]
          exact overflows_full _
      | _ =>
          rw [nesting] at deep
          · omega
          all_goals simp

/-! ## The round trip -/

/-- The nesting the stack has room for. -/
def Shallow (reply : RedisReply) : Prop :=
  nesting reply ≤ 8

instance (reply : RedisReply) : Decidable (Shallow reply) := inferInstanceAs (Decidable (_ ≤ _))

theorem wires_of_shallow {replies : List RedisReply} (wellFormed : ∀ reply ∈ replies, WellFormed reply)
    (shallow : ∀ reply ∈ replies, Shallow reply) :
    List.Forall₂ (Wire 0) replies (replies.map encode) := by
  rw [List.forall₂_map_right_iff, List.forall₂_same]
  intro reply inside
  exact wire_encode (wellFormed reply inside) (by rw [Nat.zero_add]; exact shallow reply inside)

/-- Where the parser ends on the bytes of some replies: after all of them, or inside
the first that is too deep. -/
theorem encoded_steps {replies : List RedisReply} (wellFormed : ∀ reply ∈ replies, WellFormed reply) :
    ((∀ reply ∈ replies, Shallow reply) ∧
        parser.Steps ⟨.ok [root], (replies.map encode).flatten⟩ replies ⟨.ok [root], []⟩) ∨
      ((∃ reply ∈ replies, ¬ Shallow reply) ∧ ∃ left,
        parser.Steps ⟨.ok [root], (replies.map encode).flatten⟩
          (replies.takeWhile fun reply => Shallow reply) ⟨.error tooDeep, left⟩) := by
  by_cases all : ∀ reply ∈ replies, Shallow reply
  · have run := root_steps_all (wires_of_shallow wellFormed all) []
    rw [List.append_nil] at run
    exact Or.inl ⟨all, run⟩
  · push Not at all
    refine Or.inr ⟨all, ?_⟩
    have before : ∀ reply ∈ replies.takeWhile (fun reply => Shallow reply),
        WellFormed reply ∧ Shallow reply := by
      intro reply inside
      exact ⟨wellFormed reply ((List.takeWhile_prefix _).subset inside),
        by simpa using List.mem_takeWhile_imp inside⟩
    obtain ⟨deep, after, rest⟩ : ∃ deep after,
        replies.dropWhile (fun reply => Shallow reply) = deep :: after := by
      refine List.exists_cons_of_ne_nil fun none_ => ?_
      obtain ⟨reply, inside, notShallow⟩ := all
      exact notShallow (by simpa using List.dropWhile_eq_nil_iff.mp none_ reply inside)
    have notShallow : ¬ Shallow deep := by
      have head := List.head?_dropWhile_not (fun reply => decide (Shallow reply)) replies
      rw [rest] at head
      simpa using head
    have inside : deep ∈ replies :=
      (List.dropWhile_suffix _).subset (rest ▸ List.mem_cons_self)
    have split : (replies.map encode).flatten =
        ((replies.takeWhile fun reply => Shallow reply).map encode).flatten ++
          (encode deep ++ (after.map encode).flatten) := by
      rw [← List.flatten_cons, ← List.map_cons, ← rest, ← List.flatten_append, ← List.map_append,
        List.takeWhile_append_dropWhile]
    have first := root_steps_all (wires_of_shallow (fun reply inside => (before reply inside).1)
      fun reply inside => (before reply inside).2) (encode deep ++ (after.map encode).flatten)
    obtain ⟨left, stop⟩ := overflows_encode (wellFormed deep inside) (Nat.zero_le 8)
      (by rw [Nat.zero_add]; exact not_le.mp notShallow) root [] rfl rfl rfl (after.map encode).flatten
    refine ⟨left, ?_⟩
    have run := first.trans stop
    rwa [List.append_nil, ← split] at run

/-- **What a server writes is what a client reads.**  Cut into any pieces, the bytes of
some replies give these replies and no error, with nothing left over, if none is
nested more than eight arrays deep; else they give those before the first that is,
and the nesting error. -/
theorem encoded_replies_read (replies : List RedisReply)
    (wellFormed : ∀ reply ∈ replies, WellFormed reply) (pieces : List Bytes)
    (cut : pieces.flatten = (replies.map encode).flatten) :
    (create.readPieces pieces).1 = replies.takeWhile (fun reply => Shallow reply) ∧
      ((∀ reply ∈ replies, Shallow reply) →
        (create.readPieces pieces).2.err = none ∧ (create.readPieces pieces).2.unread = []) ∧
      ((∃ reply ∈ replies, ¬ Shallow reply) → (create.readPieces pieces).2.err = some tooDeep) := by
  obtain ⟨same, follows⟩ := replies_of_pieces pieces
  have start : create.config.more pieces.flatten = ⟨.ok [root], (replies.map encode).flatten⟩ := by
    rw [cut]
    rfl
  rw [Incremental.receive, start] at same follows
  rcases encoded_steps wellFormed with ⟨all, run⟩ | ⟨some_, left, run⟩
  · have waits : parser.Waits ⟨.ok [root], []⟩ := rfl
    rw [run.drain_eq waits] at same follows
    rw [same, List.takeWhile_eq_self_iff.mpr (by simpa using all)]
    rcases follows with ⟨ready, config⟩ | ⟨error, left, stopped, config⟩
    · refine ⟨rfl, fun _ => ⟨ready.clean, congrArg Incremental.Config.buf config⟩, ?_⟩
      rintro ⟨reply, inside, notShallow⟩
      exact absurd (all reply inside) notShallow
    · cases config
  · rw [run.drain_eq (waits_of_error _ _)] at same follows
    rcases follows with ⟨ready, config⟩ | ⟨error, left', stopped, config⟩
    · cases config
    · cases config
      refine ⟨same, ?_, fun _ => stopped⟩
      obtain ⟨reply, inside, notShallow⟩ := some_
      exact fun all => absurd (all reply inside) notShallow

/-- `+OK` and `*2 :-7 $-1`, cut inside a line end and inside a number. -/
theorem encoded_replies_read_three :
    (create.readPieces [[ascii '+', ascii 'O', ascii 'K', cr],
        lf :: ascii '*' :: ascii '2' :: cr :: lf :: [ascii ':', ascii '-'],
        ascii '7' :: cr :: lf :: ascii '$' :: ascii '-' :: ascii '1' :: crlf]).1 =
      [.status [ascii 'O', ascii 'K'], .array [.integer (-7), .nil]] := by
  refine (encoded_replies_read [.status [ascii 'O', ascii 'K'], .array [.integer (-7), .nil]] ?_ _
    (by decide)).1.trans ?_
  · have unbroken : Unbroken [ascii 'O', ascii 'K'] := by decide
    simp [WellFormed, AllWellFormed, unbroken]
  · simp [Shallow, nesting, nestingAll]

end RecommEngine.Hiredis
