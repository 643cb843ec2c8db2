/-
# Hiredis.ReplyWire -- what the reader accepts

`Wire depth reply bytes` says that `bytes` are one reply `depth` arrays deep, as the
reader takes it: it is lenient (a sign before a length, any two bytes after a
string, a line that is no number), and every leniency is a constructor here.

* `reads_of_wire`: the parser reads such bytes and nothing after them.
* `Partial.run`: whatever the parser put out was such bytes, one segment per reply.
* `replies_iff_wire`: so a list of replies comes first from a stream exactly if the
  stream begins with their bytes, whatever pieces it comes in.
-/
import RecommEngine.Hiredis.ReplyParser

namespace RecommEngine.Hiredis

set_option autoImplicit false

open Theory
open Theory.ByteStream (Bytes)
open RedisReader

/-- A text that can be a line. -/
def Unbroken (text : Bytes) : Prop :=
  ¬ crlf <:+: text

instance (text : Bytes) : Decidable (Unbroken text) := inferInstanceAs (Decidable (¬ _))

theorem Unbroken.tail {c : UInt8} {text : Bytes} (unbroken : Unbroken (c :: text)) :
    Unbroken text :=
  fun inside => unbroken (inside.trans (List.suffix_cons c text).isInfix)

/-- The line is where it was put. -/
theorem seekNewline_line {text : Bytes} (unbroken : Unbroken text) (more : Bytes) :
    seekNewline (text ++ (crlf ++ more)) = some text.length := by
  induction text with
  | nil => simp [crlf, seekNewline]
  | cons c text ih =>
      have later := ih unbroken.tail
      cases text with
      | nil =>
          have differ : cr ≠ lf := by decide
          have first : ¬ (c = cr ∧ cr = lf) := fun both => differ both.2
          simp [crlf, seekNewline, first]
      | cons d text =>
          have first : ¬ (c = cr ∧ d = lf) := by
            rintro ⟨rfl, rfl⟩
            exact unbroken ⟨[], text, rfl⟩
          simpa [seekNewline, first] using later

/-- Where a line is found, the bytes begin with it. -/
theorem line_of_seekNewline {s : Bytes} {n : Nat} (found : seekNewline s = some n) :
    ∃ text more, s = text ++ (crlf ++ more) ∧ Unbroken text ∧ text.length = n := by
  induction s using seekNewline.induct generalizing n with
  | case1 => simp [seekNewline] at found
  | case2 c => simp [seekNewline] at found
  | case3 c d s here =>
      rw [seekNewline, if_pos here] at found
      obtain ⟨rfl, rfl⟩ := here
      cases found
      exact ⟨[], s, rfl, by decide, rfl⟩
  | case4 c d s other ih =>
      rw [seekNewline, if_neg other] at found
      obtain ⟨m, later, rfl⟩ := Option.map_eq_some_iff.mp found
      obtain ⟨text, more, split, unbroken, rfl⟩ := ih later
      refine ⟨c :: text, more, by rw [split]; rfl, ?_, rfl⟩
      intro inside
      rcases List.infix_cons_iff.mp inside with ⟨tail, whole⟩ | inside
      · -- the pair would stand at the front of the bytes
        cases text with
        | nil => cases whole
        | cons d' text =>
            cases split
            cases whole
            exact other ⟨rfl, rfl⟩
      · exact unbroken inside

theorem readLongLong_line (text more : Bytes) :
    readLongLong (text ++ (crlf ++ more)) = readLongLong (text ++ crlf) := by
  rw [← List.append_assoc]
  exact readLongLong_append (by simp [crlf]) more

/-! ## The grammar -/

/-- One reply and the bytes of it, inside `depth` arrays. -/
inductive Wire : Nat → RedisReply → Bytes → Prop
  | status {depth : Nat} {text : Bytes} (unbroken : Unbroken text) :
      Wire depth (.status text) (ascii '+' :: (text ++ crlf))
  | error {depth : Nat} {text : Bytes} (unbroken : Unbroken text) :
      Wire depth (.error text) (ascii '-' :: (text ++ crlf))
  | integer {depth : Nat} {text : Bytes} (unbroken : Unbroken text) :
      Wire depth (.integer (readLongLong (text ++ crlf))) (ascii ':' :: (text ++ crlf))
  | string {depth : Nat} {text str tail : Bytes} (unbroken : Unbroken text)
      (length : (readLongLong (text ++ crlf)).toInt = str.length) (two : tail.length = 2) :
      Wire depth (.string str) (ascii '$' :: (text ++ crlf ++ (str ++ tail)))
  | nilString {depth : Nat} {text : Bytes} (unbroken : Unbroken text)
      (below : readLongLong (text ++ crlf) < 0) : Wire depth .nil (ascii '$' :: (text ++ crlf))
  | nilArray {depth : Nat} {text : Bytes} (shallow : depth < 8) (unbroken : Unbroken text)
      (count : readLongLong (text ++ crlf) = -1) : Wire depth .nil (ascii '*' :: (text ++ crlf))
  | emptyArray {depth : Nat} {text : Bytes} (shallow : depth < 8) (unbroken : Unbroken text)
      (count : readLongLong (text ++ crlf) = 0) :
      Wire depth (.array []) (ascii '*' :: (text ++ crlf))
  | hollow {depth : Nat} {text : Bytes} (shallow : depth < 8) (unbroken : Unbroken text)
      (count : readLongLong (text ++ crlf) < -1) :
      Wire depth (.hollow (readLongLong (text ++ crlf)).toInt32.toInt) (ascii '*' :: (text ++ crlf))
  | array {depth : Nat} {text : Bytes} {items : List (RedisReply × Bytes)} (shallow : depth < 8)
      (unbroken : Unbroken text) (above : 0 < readLongLong (text ++ crlf))
      (count : (readLongLong (text ++ crlf)).toInt32.toInt = items.length) (some_ : items ≠ [])
      (each : ∀ item ∈ items, Wire (depth + 1) item.1 item.2) :
      Wire depth (.array (items.map Prod.fst))
        (ascii '*' :: (text ++ crlf ++ (items.map Prod.snd).flatten))

/-! ## Such bytes are read -/

/-- The machine once the task at the top has its object. -/
def filled (reply : RedisReply) (cur : ReadTask) (rest : List ReadTask) :
    ParserState × List RedisReply :=
  afterBody (.ok (moveToNextTask reply cur rest))

/-- The parser reads these bytes as this reply, wherever such a reply can stand. -/
def Reads (depth : Nat) (reply : RedisReply) (bytes : Bytes) : Prop :=
  ∀ (cur : ReadTask) (rest : List ReadTask), cur.type = none → rest.length = depth →
    storable rest = true → ∀ more, ∃ cur' : ReadTask, cur'.idx = cur.idx ∧
      parser.Steps ⟨.ok (cur :: rest), bytes ++ more⟩ (filled reply cur' rest).2
        ⟨(filled reply cur' rest).1, more⟩

/-- The step that reads a type byte. -/
theorem steps_type {byte : UInt8} {type : ItemType} (typed : itemType byte = some type)
    {cur : ReadTask} (unknown : cur.type = none) (rest : List ReadTask) (s : Bytes) :
    parser.Steps ⟨.ok (cur :: rest), byte :: s⟩ []
      ⟨.ok ({ cur with type := some type } :: rest), s⟩ := by
  have step := parserStep_untyped unknown rest byte s
  rw [afterByte, typed] at step
  exact .single step

/-- The step that reads a body. -/
theorem steps_body {cur : ReadTask} {type : ItemType} (known : cur.type = some type)
    {rest : List ReadTask} {s : Bytes}
    {after : Except ReaderError (List ReadTask × Option RedisReply)} {bytes : Nat}
    (body : itemBody type cur rest s = some (after, bytes)) :
    parser.Steps ⟨.ok (cur :: rest), s⟩ (afterBody after).2 ⟨(afterBody after).1, s.drop bytes⟩ := by
  have step := parserStep_typed known rest s
  rw [body, Option.map_some] at step
  exact .single step

/-- A type byte and a body that is complete make a reply. -/
theorem reads_of_body {depth : Nat} {reply : RedisReply} {byte : UInt8} {type : ItemType}
    {body : Bytes} (typed : itemType byte = some type)
    (complete : ∀ (cur : ReadTask) (rest : List ReadTask) (more : Bytes), rest.length = depth →
      itemBody type cur rest (body ++ more) = some (placed reply cur rest, body.length)) :
    Reads depth reply (byte :: body) := by
  intro cur rest unknown level room more
  refine ⟨{ cur with type := some type }, rfl, ?_⟩
  have read := steps_body (by rfl) (complete { cur with type := some type } rest more level)
  rw [List.drop_left, placed, if_pos room] at read
  exact (steps_type typed unknown rest (body ++ more)).trans read


theorem line_length (text : Bytes) : (text ++ crlf).length = text.length + 2 := by
  simp [crlf]

theorem reads_line {depth : Nat} {byte : UInt8} {type : ItemType} {text : Bytes}
    {reply : RedisReply} (typed : itemType byte = some type) (unbroken : Unbroken text)
    (isLine : type ≠ .string ∧ type ≠ .array)
    (made : ∀ more, lineReply type (text ++ (crlf ++ more)) text.length = reply) :
    Reads depth reply (byte :: (text ++ crlf)) := by
  refine reads_of_body typed ?_
  intro cur rest more _
  rw [line_length, List.append_assoc]
  cases type with
  | string => exact absurd rfl isLine.1
  | array => exact absurd rfl isLine.2
  | _ => rw [itemBody, seekNewline_line unbroken, Option.map_some, made] <;> simp

/-- The header of an array, where the stack has room. -/
theorem arrayBody_line {text : Bytes} (unbroken : Unbroken text) (cur : ReadTask)
    {rest : List ReadTask} (shallow : rest.length < 8) (more : Bytes) :
    itemBody .array cur rest (text ++ crlf ++ more) =
      some (opened (readLongLong (text ++ crlf)) cur rest, (text ++ crlf).length) := by
  rw [line_length, List.append_assoc, itemBody, if_neg (by omega), seekNewline_line unbroken,
    readLongLong_line, Option.map_some]

/-- An array without elements to read. -/
theorem reads_childless {depth : Nat} {text : Bytes} {reply : RedisReply} (shallow : depth < 8)
    (unbroken : Unbroken text)
    (made : ∀ cur rest, opened (readLongLong (text ++ crlf)) cur rest = placed reply cur rest) :
    Reads depth reply (ascii '*' :: (text ++ crlf)) := by
  have typed : itemType (ascii '*') = some .array := by decide
  refine reads_of_body typed ?_
  intro cur rest more level
  rw [arrayBody_line unbroken cur (by omega), made]

theorem reads_nilString {depth : Nat} {text : Bytes} (unbroken : Unbroken text)
    (below : readLongLong (text ++ crlf) < 0) : Reads depth .nil (ascii '$' :: (text ++ crlf)) := by
  have typed : itemType (ascii '$') = some .string := by decide
  refine reads_of_body typed ?_
  intro cur rest more _
  rw [line_length, List.append_assoc, itemBody, seekNewline_line unbroken, readLongLong_line,
    Option.bind_some, if_pos below]

theorem reads_string {depth : Nat} {text str tail : Bytes} (unbroken : Unbroken text)
    (length : (readLongLong (text ++ crlf)).toInt = str.length) (two : tail.length = 2) :
    Reads depth (.string str) (ascii '$' :: (text ++ crlf ++ (str ++ tail))) := by
  have typed : itemType (ascii '$') = some .string := by decide
  refine reads_of_body typed ?_
  intro cur rest more _
  have whole : text ++ crlf ++ (str ++ tail) ++ more = text ++ (crlf ++ (str ++ (tail ++ more))) := by
    simp
  have above : ¬ readLongLong (text ++ crlf) < 0 := by
    rw [Int64.lt_iff_toInt_lt, length]
    simp
  have taken : (readLongLong (text ++ crlf)).toInt.toNat = str.length := by
    rw [length, Int.toNat_natCast]
  have fits : text.length + 2 + (str.length + 2) ≤
      (text ++ (crlf ++ (str ++ (tail ++ more)))).length := by
    simp [crlf]
    omega
  have text_ : (text ++ (crlf ++ (str ++ (tail ++ more)))).drop (text.length + 2) =
      str ++ (tail ++ more) := by
    rw [← List.append_assoc, ← line_length, List.drop_left]
  rw [whole, itemBody, seekNewline_line unbroken, readLongLong_line, Option.bind_some]
  dsimp only
  rw [if_neg above, taken, if_pos fits, text_, List.take_left]
  congr 2
  simp [crlf, two]
  omega

/-- An element that is not the last: the next one is begun. -/
theorem steps_item {depth : Nat} {reply : RedisReply} {bytes : Bytes}
    (reads : Reads (depth + 1) reply bytes) {cur prv : ReadTask} {rest : List ReadTask}
    (unknown : cur.type = none) (level : rest.length = depth) (at_ : cur.idx = prv.obj.length)
    (count : prv.obj.length + 1 < prv.elements) (more : Bytes) :
    ∃ cur' : ReadTask, cur'.type = none ∧ cur'.idx = (prv.obj ++ [reply]).length ∧
      parser.Steps ⟨.ok (cur :: prv :: rest), bytes ++ more⟩ []
        ⟨.ok (cur' :: { prv with obj := prv.obj ++ [reply] } :: rest), more⟩ := by
  have room : storable (prv :: rest) = true := by
    simp only [storable, decide_eq_true_eq]
    omega
  obtain ⟨cur', sameIdx, run⟩ := reads cur (prv :: rest) unknown (by simp [level]) room more
  rw [filled, moveToNextTask, if_neg (by dsimp only; omega)] at run
  exact ⟨{ cur' with type := none, elements := -1, idx := cur'.idx + 1 }, rfl,
    by simp [sameIdx, at_], run⟩

/-- The elements of an array, one after another, and the array when they are there. -/
theorem steps_items {depth : Nat} {items : List (RedisReply × Bytes)} (some_ : items ≠ [])
    (each : ∀ item ∈ items, Reads (depth + 1) item.1 item.2) (cur prv : ReadTask)
    {rest : List ReadTask} (unknown : cur.type = none) (level : rest.length = depth)
    (at_ : cur.idx = prv.obj.length) (count : prv.elements = prv.obj.length + items.length)
    (more : Bytes) :
    ∃ prv' : ReadTask, prv'.idx = prv.idx ∧
      parser.Steps ⟨.ok (cur :: prv :: rest), (items.map Prod.snd).flatten ++ more⟩
        (filled (.array (prv.obj ++ items.map Prod.fst)) prv' rest).2
        ⟨(filled (.array (prv.obj ++ items.map Prod.fst)) prv' rest).1, more⟩ := by
  induction items generalizing cur prv with
  | nil => exact absurd rfl some_
  | cons item items ih =>
      have first := each item List.mem_cons_self
      rw [List.length_cons] at count
      rw [List.map_cons, List.map_cons, List.flatten_cons, List.append_assoc]
      cases items with
      | nil =>
          have room : storable (prv :: rest) = true := by
            simp only [storable, decide_eq_true_eq, count]
            omega
          obtain ⟨cur', sameIdx, run⟩ := first cur (prv :: rest) unknown (by simp [level]) room more
          rw [List.length_nil] at count
          rw [filled, moveToNextTask, if_pos (by dsimp only; omega)] at run
          exact ⟨{ prv with obj := prv.obj ++ [item.1] }, rfl, run⟩
      | cons next items =>
          rw [List.length_cons] at count
          obtain ⟨cur', unknown', at', run⟩ := steps_item first unknown level at_ (by omega)
            (((next :: items).map Prod.snd).flatten ++ more)
          obtain ⟨prv', samePrv, later⟩ := ih (List.cons_ne_nil _ _)
            (fun item inside => each item (List.mem_cons_of_mem _ inside)) cur'
            { prv with obj := prv.obj ++ [item.1] } unknown' at' (by simp [count]; omega)
          refine ⟨prv', samePrv, ?_⟩
          have both := run.trans later
          rwa [List.nil_append, List.append_assoc] at both

/-- The header of an array with elements. -/
theorem steps_header {text : Bytes} (unbroken : Unbroken text)
    (above : 0 < readLongLong (text ++ crlf)) {cur : ReadTask} {rest : List ReadTask}
    (unknown : cur.type = none) (shallow : rest.length < 8) (room : storable rest = true)
    (more : Bytes) :
    parser.Steps ⟨.ok (cur :: rest), ascii '*' :: (text ++ crlf ++ more)⟩ []
      ⟨.ok ({ idx := 0 } :: { cur with
        type := some .array, elements := (readLongLong (text ++ crlf)).toInt32.toInt, obj := [] } ::
          rest), more⟩ := by
  have isArray : itemType (ascii '*') = some .array := by decide
  have typed := steps_type isArray unknown rest (text ++ crlf ++ more)
  have begun := steps_body (by rfl)
    (arrayBody_line unbroken { cur with type := some .array } shallow more)
  have notNil : readLongLong (text ++ crlf) ≠ -1 := by
    intro same
    rw [same] at above
    exact absurd above (by decide)
  rw [opened, if_neg notNil, if_pos above, if_pos room, List.drop_left] at begun
  exact typed.trans begun

theorem reads_array {depth : Nat} {text : Bytes} {items : List (RedisReply × Bytes)}
    (shallow : depth < 8) (unbroken : Unbroken text) (above : 0 < readLongLong (text ++ crlf))
    (count : (readLongLong (text ++ crlf)).toInt32.toInt = items.length) (some_ : items ≠ [])
    (each : ∀ item ∈ items, Reads (depth + 1) item.1 item.2) :
    Reads depth (.array (items.map Prod.fst))
      (ascii '*' :: (text ++ crlf ++ (items.map Prod.snd).flatten)) := by
  intro cur rest unknown level room more
  have header := steps_header unbroken above unknown (by omega) room
    ((items.map Prod.snd).flatten ++ more)
  obtain ⟨prv', samePrv, elements⟩ := steps_items some_ each { idx := 0 }
    { cur with type := some .array, elements := (readLongLong (text ++ crlf)).toInt32.toInt, obj := [] }
    rfl level rfl (by simp [count]) more
  refine ⟨prv', samePrv, ?_⟩
  have run := header.trans elements
  rwa [← List.append_assoc] at run

theorem reads_of_wire {depth : Nat} {reply : RedisReply} {bytes : Bytes}
    (wire : Wire depth reply bytes) : Reads depth reply bytes := by
  induction wire with
  | @status depth text unbroken =>
      have typed : itemType (ascii '+') = some .status := by decide
      refine reads_line typed unbroken (by decide) ?_
      intro more
      simp [lineReply]
  | @error depth text unbroken =>
      have typed : itemType (ascii '-') = some .error := by decide
      refine reads_line typed unbroken (by decide) ?_
      intro more
      simp [lineReply]
  | @integer depth text unbroken =>
      have typed : itemType (ascii ':') = some .integer := by decide
      refine reads_line typed unbroken (by decide) ?_
      intro more
      simp only [lineReply, readLongLong_line]
  | string unbroken length two => exact reads_string unbroken length two
  | nilString unbroken below => exact reads_nilString unbroken below
  | nilArray shallow unbroken count =>
      refine reads_childless shallow unbroken ?_
      intro cur rest
      rw [count, opened, if_pos rfl]
  | emptyArray shallow unbroken count =>
      refine reads_childless shallow unbroken ?_
      intro cur rest
      rw [count]
      rfl
  | @hollow depth text shallow unbroken count =>
      refine reads_childless shallow unbroken ?_
      intro cur rest
      generalize readLongLong (text ++ crlf) = n at count
      have below : n.toInt < -1 := by simpa [Int64.lt_iff_toInt_lt] using count
      have notNil : n ≠ -1 := by
        rintro rfl
        exact absurd below (by decide)
      have notAbove : ¬ 0 < n := by
        rw [Int64.lt_iff_toInt_lt]
        simp
        omega
      have notZero : n ≠ 0 := by
        rintro rfl
        exact absurd below (by decide)
      rw [opened, if_neg notNil, if_neg notAbove, if_neg notZero]
  | array shallow unbroken above count some_ each ih =>
      exact reads_array shallow unbroken above count some_ ih

/-! ## Only such bytes are read -/

/-- The bytes read so far of the arrays an item is nested in. -/
inductive Open : List ReadTask → Bytes → Prop
  | nil : Open [] []
  | cons {prv : ReadTask} {rest : List ReadTask} {pre text : Bytes}
      {items : List (RedisReply × Bytes)} (outer : Open rest pre) (shallow : rest.length < 8)
      (unbroken : Unbroken text) (above : 0 < readLongLong (text ++ crlf))
      (count : prv.elements = (readLongLong (text ++ crlf)).toInt32.toInt)
      (held : prv.obj = items.map Prod.fst)
      (each : ∀ item ∈ items, Wire (rest.length + 1) item.1 item.2)
      (place : ∀ parent ∈ rest.head?, prv.idx = parent.obj.length ∧ prv.idx < parent.elements) :
      Open (prv :: rest) (pre ++ ascii '*' :: (text ++ crlf ++ (items.map Prod.snd).flatten))

/-- The task is for the next element of its parent. -/
def Placed (cur : ReadTask) (rest : List ReadTask) : Prop :=
  ∀ prv ∈ rest.head?, cur.idx = prv.obj.length ∧ (0 < prv.elements → cur.idx < prv.elements)

/-- Where the machine stands after the bytes of an item: in the array it is nested in,
or at the end of a whole reply. -/
theorem Open.fill {rest : List ReadTask} {pre bytes : Bytes} {reply : RedisReply}
    {cur : ReadTask} (isOpen : Open rest pre) (placed : Placed cur rest)
    (room : storable rest = true) (wire : Wire rest.length reply bytes) :
    (∃ cur' rest', moveToNextTask reply cur rest = (cur' :: rest', none) ∧ cur'.type = none ∧
        Open rest' (pre ++ bytes) ∧ Placed cur' rest') ∨
      ∃ whole, moveToNextTask reply cur rest = ([], some whole) ∧ Wire 0 whole (pre ++ bytes) := by
  induction isOpen generalizing reply bytes cur with
  | nil => exact Or.inr ⟨reply, rfl, wire⟩
  | @cons prv rest pre text items outer shallow unbroken above count held each place ih =>
      obtain ⟨here, within⟩ := placed prv rfl
      have positive : 0 < prv.elements := by simpa [storable] using room
      have inside := within positive
      have each' : ∀ item ∈ items ++ [(reply, bytes)], Wire (rest.length + 1) item.1 item.2 := by
        intro item member
        rcases List.mem_append.mp member with member | member
        · exact each item member
        · rw [List.mem_singleton.mp member]
          exact wire
      have held' : prv.obj ++ [reply] = (items ++ [(reply, bytes)]).map Prod.fst := by simp [held]
      have sameBytes : pre ++ ascii '*' :: (text ++ crlf ++ (items.map Prod.snd).flatten) ++ bytes =
          pre ++ ascii '*' :: (text ++ crlf ++ ((items ++ [(reply, bytes)]).map Prod.snd).flatten) := by
        simp
      rw [moveToNextTask]
      dsimp only
      rw [sameBytes]
      split
      · -- the last element: the array is an item of its own parent
        rename_i last
        rw [held']
        refine ih ?_ ?_ (.array shallow unbroken above ?_ (by simp) each')
        · exact fun parent member => ⟨(place parent member).1, fun _ => (place parent member).2⟩
        · cases rest with
          | nil => rfl
          | cons parent rest =>
              have := place parent rfl
              simp only [storable, decide_eq_true_eq]
              omega
        · rw [← count]
          simp only [List.length_append, List.length_singleton]
          rw [held, List.length_map] at here
          omega
      · refine Or.inl ⟨_, _, rfl, rfl, .cons outer shallow unbroken above count held' each' place, ?_⟩
        rintro _ ⟨rfl⟩
        simp only [List.length_append, List.length_singleton]
        omega

def typeByte : ItemType → UInt8
  | .error => ascii '-'
  | .status => ascii '+'
  | .integer => ascii ':'
  | .string => ascii '$'
  | .array => ascii '*'

theorem typeByte_of_itemType {byte : UInt8} {type : ItemType} (typed : itemType byte = some type) :
    byte = typeByte type := by
  unfold itemType at typed
  repeat' split at typed
  all_goals first
    | cases typed
      assumption
    | cases typed

/-- The machine has read these bytes of a reply that is not complete.  They do not
count after an error. -/
inductive Partial : ParserState → Bytes → Prop
  | untyped {cur : ReadTask} {rest : List ReadTask} {pre : Bytes} (unknown : cur.type = none)
      (isOpen : Open rest pre) (placed : Placed cur rest) : Partial (.ok (cur :: rest)) pre
  | typed {cur : ReadTask} {rest : List ReadTask} {pre : Bytes} {type : ItemType}
      (known : cur.type = some type) (isOpen : Open rest pre) (placed : Placed cur rest) :
      Partial (.ok (cur :: rest)) (pre ++ [typeByte type])
  | stopped (error : ReaderError) (pre : Bytes) : Partial (.error error) pre

theorem Partial.start : Partial (.ok [root]) [] :=
  .untyped rfl .nil (by rintro _ ⟨⟩)

/-- What a step comes to: it put out nothing, or a reply whose bytes are complete. -/
def StepsTo (read : Bytes) (after : ParserState × List RedisReply) : Prop :=
  (after.2 = [] ∧ Partial after.1 read) ∨ ∃ reply, after = (.ok [root], [reply]) ∧ Wire 0 reply read

theorem StepsTo.placed {rest : List ReadTask} {pre bytes : Bytes} {reply : RedisReply}
    {cur : ReadTask} (isOpen : Open rest pre) (placed_ : Placed cur rest)
    (wire : Wire rest.length reply bytes) :
    StepsTo (pre ++ bytes) (afterBody (placed reply cur rest)) := by
  unfold Hiredis.placed
  split
  · rename_i room
    rcases isOpen.fill placed_ room wire with ⟨cur', rest', moved, unknown, isOpen', placed'⟩ |
      ⟨whole, moved, wire'⟩
    · rw [moved]
      exact Or.inl ⟨rfl, .untyped unknown isOpen' placed'⟩
    · rw [moved]
      exact Or.inr ⟨whole, rfl, wire'⟩
  · exact Or.inl ⟨rfl, .stopped _ _⟩

/-- The header of an array. -/
theorem StepsTo.opened {rest : List ReadTask} {pre text : Bytes} {cur : ReadTask}
    (isOpen : Open rest pre) (placed_ : Placed cur rest) (shallow : rest.length < 8)
    (unbroken : Unbroken text) :
    StepsTo (pre ++ ascii '*' :: (text ++ crlf))
      (afterBody (opened (readLongLong (text ++ crlf)) cur rest)) := by
  unfold Hiredis.opened
  split
  · rename_i count
    exact .placed isOpen placed_ (.nilArray shallow unbroken count)
  · rename_i notNil
    split
    · rename_i above
      split
      · rename_i room
        have inner : Open ({ cur with
              elements := (readLongLong (text ++ crlf)).toInt32.toInt, obj := [] } :: rest)
            (pre ++ ascii '*' :: (text ++ crlf ++ (([] : List (RedisReply × Bytes)).map Prod.snd).flatten)) := by
          refine .cons isOpen shallow unbroken above rfl rfl (by simp) ?_
          intro parent first
          obtain ⟨here, within⟩ := placed_ parent first
          refine ⟨here, within ?_⟩
          cases rest with
          | nil => cases first
          | cons other rest =>
              cases first
              simpa [storable] using room
        simp only [List.map_nil, List.flatten_nil, List.append_nil] at inner
        refine Or.inl ⟨rfl, .untyped rfl inner ?_⟩
        rintro _ ⟨rfl⟩
        exact ⟨rfl, id⟩
      · exact Or.inl ⟨rfl, .stopped _ _⟩
    · rename_i notAbove
      refine .placed isOpen placed_ ?_
      split
      · rename_i zero
        exact .emptyArray shallow unbroken zero
      · rename_i notZero
        refine .hollow shallow unbroken ?_
        rw [Int64.lt_iff_toInt_lt] at notAbove ⊢
        have notNil' : (readLongLong (text ++ crlf)).toInt ≠ (-1 : Int64).toInt :=
          fun same => notNil (Int64.toInt_inj.mp same)
        have notZero' : (readLongLong (text ++ crlf)).toInt ≠ (0 : Int64).toInt :=
          fun same => notZero (Int64.toInt_inj.mp same)
        have minusOne : (-1 : Int64).toInt = -1 := by decide
        have zero : (0 : Int64).toInt = 0 := by decide
        omega

/-- The line at the front of the bytes, as far as it was taken. -/
theorem take_line (text more : Bytes) :
    (text ++ (crlf ++ more)).take (text.length + 2) = text ++ crlf := by
  rw [← List.append_assoc, ← line_length, List.take_left]

theorem StepsTo.string {cur : ReadTask} {rest : List ReadTask} {pre s : Bytes}
    {after : Except ReaderError (List ReadTask × Option RedisReply)} {bytes : Nat}
    (isOpen : Open rest pre) (placed_ : Placed cur rest)
    (body : itemBody .string cur rest s = some (after, bytes)) :
    StepsTo (pre ++ ascii '$' :: s.take bytes) (afterBody after) := by
  obtain ⟨line, found, body⟩ := Option.bind_eq_some_iff.mp body
  obtain ⟨text, more, rfl, unbroken, rfl⟩ := line_of_seekNewline found
  rw [readLongLong_line] at body
  dsimp only at body
  split at body
  · rename_i below
    cases body
    rw [take_line]
    exact .placed isOpen placed_ (.nilString unbroken below)
  · rename_i notBelow
    split at body
    · rename_i fits
      cases body
      obtain ⟨len, sameLen⟩ : ∃ len : Nat, (readLongLong (text ++ crlf)).toInt = len := by
        rw [Int64.lt_iff_toInt_lt] at notBelow
        have zero : (0 : Int64).toInt = 0 := by decide
        exact ⟨_, (Int.toNat_of_nonneg (by omega)).symm⟩
      simp only [sameLen, Int.toNat_natCast] at fits ⊢
      have enough : len + 2 ≤ more.length := by
        simp [crlf] at fits
        omega
      have taken : (text ++ (crlf ++ more)).take (text.length + 2 + (len + 2)) =
          text ++ crlf ++ (more.take len ++ (more.drop len).take 2) := by
        rw [← List.append_assoc, ← line_length, List.take_length_add_append, List.take_add]
      have dropped : (text ++ (crlf ++ more)).drop (text.length + 2) = more := by
        rw [← List.append_assoc, ← line_length, List.drop_left]
      rw [taken, dropped]
      refine .placed isOpen placed_ (.string unbroken ?_ ?_)
      · rw [sameLen, List.length_take]
        omega
      · rw [List.length_take, List.length_drop]
        omega
    · cases body

theorem StepsTo.array {cur : ReadTask} {rest : List ReadTask} {pre s : Bytes}
    {after : Except ReaderError (List ReadTask × Option RedisReply)} {bytes : Nat}
    (isOpen : Open rest pre) (inStack : rest.length ≤ 8) (placed_ : Placed cur rest)
    (body : itemBody .array cur rest s = some (after, bytes)) :
    StepsTo (pre ++ ascii '*' :: s.take bytes) (afterBody after) := by
  rw [itemBody] at body
  split at body
  · cases body
    exact Or.inl ⟨rfl, .stopped _ _⟩
  · obtain ⟨line, found, body⟩ := Option.map_eq_some_iff.mp body
    obtain ⟨text, more, rfl, unbroken, rfl⟩ := line_of_seekNewline found
    cases body
    rw [take_line, readLongLong_line]
    exact .opened isOpen placed_ (by omega) unbroken

theorem Open.length_le {rest : List ReadTask} {pre : Bytes} (isOpen : Open rest pre) :
    rest.length ≤ 8 := by
  cases isOpen with
  | nil => simp
  | cons outer shallow => exact shallow

/-- A body leads to a reply, or to where a reply is still incomplete. -/
theorem StepsTo.body {type : ItemType} {cur : ReadTask} {rest : List ReadTask} {pre s : Bytes}
    {after : Except ReaderError (List ReadTask × Option RedisReply)} {bytes : Nat}
    (isOpen : Open rest pre) (placed_ : Placed cur rest)
    (body : itemBody type cur rest s = some (after, bytes)) :
    StepsTo (pre ++ typeByte type :: s.take bytes) (afterBody after) := by
  cases type with
  | string => exact .string isOpen placed_ body
  | array => exact .array isOpen isOpen.length_le placed_ body
  | integer =>
      obtain ⟨line, found, body⟩ := Option.map_eq_some_iff.mp body
      obtain ⟨text, more, rfl, unbroken, rfl⟩ := line_of_seekNewline found
      cases body
      rw [take_line, lineReply, readLongLong_line]
      exact .placed isOpen placed_ (.integer unbroken)
  | error =>
      obtain ⟨line, found, body⟩ := Option.map_eq_some_iff.mp body
      obtain ⟨text, more, rfl, unbroken, rfl⟩ := line_of_seekNewline found
      cases body
      rw [take_line, lineReply, List.take_left]
      exact .placed isOpen placed_ (.error unbroken)
  | status =>
      obtain ⟨line, found, body⟩ := Option.map_eq_some_iff.mp body
      obtain ⟨text, more, rfl, unbroken, rfl⟩ := line_of_seekNewline found
      cases body
      rw [take_line]
      have made : lineReply .status (text ++ (crlf ++ more)) text.length = .status text := by
        simp [lineReply]
      rw [made]
      exact .placed isOpen placed_ (.status unbroken)

theorem Partial.step {s s' : ParserState} {buf left pre : Bytes} {out : List RedisReply}
    (part : Partial s pre) (step : parserStep s buf = some (s', out, left)) :
    ∃ read, buf = read ++ left ∧ StepsTo (pre ++ read) (s', out) := by
  obtain ⟨cur, rest, rfl, ⟨byte, unknown, rfl, rfl, rfl⟩ |
    ⟨type, after, bytes, known, body, rfl, rfl, rfl⟩⟩ := parserStep_cases step
  · refine ⟨[byte], rfl, Or.inl ⟨rfl, ?_⟩⟩
    cases part with
    | typed known => simp [unknown] at known
    | untyped _ isOpen placed =>
        show Partial (afterByte byte cur rest) _
        unfold afterByte
        split
        · rename_i type typed
          rw [typeByte_of_itemType typed]
          exact .typed rfl isOpen placed
        · exact .stopped _ _
  · refine ⟨buf.take bytes, (List.take_append_drop _ _).symm, ?_⟩
    cases part with
    | untyped unknown => simp [unknown] at known
    | typed known' isOpen placed =>
        cases known'.symm.trans known
        rw [List.append_assoc]
        exact .body isOpen placed body

/-- Over a run: the bytes taken are those of the replies put out, and of one more that
is not complete. -/
theorem Partial.run {c d : Incremental.Config ParserState UInt8} {out : List RedisReply} {pre : Bytes}
    (part : Partial c.state pre) (run : parser.Steps c out d) :
    ∃ segments read, List.Forall₂ (Wire 0) out segments ∧ Partial d.state read ∧
      pre ++ c.buf = segments.flatten ++ (read ++ d.buf) := by
  induction run generalizing pre with
  | refl c => exact ⟨[], pre, .nil, part, rfl⟩
  | @head s s' buf rest out outs d first _ ih =>
      obtain ⟨taken, rfl, ⟨silent, next⟩ | ⟨reply, whole, wire⟩⟩ := part.step first
      · obtain ⟨segments, read, wires, last, split⟩ := ih next
        cases silent
        refine ⟨segments, read, wires, last, ?_⟩
        rw [← split]
        simp
      · cases whole
        obtain ⟨segments, read, wires, last, split⟩ := ih .start
        refine ⟨(pre ++ taken) :: segments, read, .cons wire wires, last, ?_⟩
        rw [List.flatten_cons, List.append_assoc, ← split]
        simp

/-! ## Exactly the replies of the stream -/

theorem root_steps {reply : RedisReply} {bytes : Bytes} (wire : Wire 0 reply bytes) (more : Bytes) :
    parser.Steps ⟨.ok [root], bytes ++ more⟩ [reply] ⟨.ok [root], more⟩ := by
  obtain ⟨cur, -, run⟩ := reads_of_wire wire root [] rfl rfl rfl more
  exact run

theorem root_steps_all {replies : List RedisReply} {segments : List Bytes}
    (wires : List.Forall₂ (Wire 0) replies segments) (more : Bytes) :
    parser.Steps ⟨.ok [root], segments.flatten ++ more⟩ replies ⟨.ok [root], more⟩ := by
  induction wires with
  | nil => exact .refl _
  | @cons reply bytes replies segments wire wires ih =>
      rw [List.flatten_cons, List.append_assoc]
      exact (root_steps wire (segments.flatten ++ more)).trans ih

/-- Bytes are the bytes of one reply only. -/
theorem Wire.unique {reply reply' : RedisReply} {bytes : Bytes} (wire : Wire 0 reply bytes)
    (wire' : Wire 0 reply' bytes) : reply = reply' := by
  have same := ((root_steps wire []).unique (root_steps wire' []) rfl rfl).2
  exact (List.cons.inj same).1

/-- **The replies of a stream are those whose bytes it begins with.**  Whatever pieces
it comes in, some replies are the first that a client gets exactly if the stream
begins with bytes of these replies, one after another. -/
theorem replies_iff_wire (pieces : List Bytes) (replies : List RedisReply) :
    replies <+: (create.readPieces pieces).1 ↔
      ∃ segments, List.Forall₂ (Wire 0) replies segments ∧ segments.flatten <+: pieces.flatten := by
  have drained := parser.drain_steps (create.config.more pieces.flatten)
  have waits := parser.drain_waits (create.config.more pieces.flatten)
  rw [(replies_of_pieces pieces).1, Incremental.receive]
  constructor
  · rintro ⟨later, split⟩
    rw [← split] at drained
    obtain ⟨segments, read, wires, -, bytes⟩ := Partial.start.run drained
    have first := (List.forall₂_take_append segments replies later wires.flip).flip
    refine ⟨segments.take replies.length, first, ?_⟩
    have whole : pieces.flatten = segments.flatten ++ (read ++ _) := bytes
    rw [whole, ← List.take_append_drop replies.length segments, List.flatten_append,
      List.append_assoc, List.take_append_drop]
    exact List.prefix_append _ _
  · rintro ⟨segments, wires, more, whole⟩
    have run := root_steps_all wires more
    rw [whole] at run
    obtain ⟨left, -, all⟩ := run.split drained waits
    exact ⟨left, all.symm⟩

end RecommEngine.Hiredis
