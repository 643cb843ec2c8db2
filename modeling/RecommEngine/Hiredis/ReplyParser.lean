/-
# Hiredis.ReplyParser -- the reader as a machine on its unread bytes

`parser` reads one type byte or one item body per step; its state is the stack of
the reader, or the error the reader has stopped with.  What a reader does in a call
is a run of this machine on the bytes it has (`processItem_outcome`,
`redisReaderGetReply_outcome`): to the end of the first reply, to where it waits, or
into an error.

So the replies a client gets depend on the bytes alone, not on the pieces they come
in: `replies_of_pieces` gives them as what `parser` puts out on the whole stream,
and `pieces_irrelevant` is the result for any two ways to cut it.
-/
import RecommEngine.Hiredis.RedisReader

namespace RecommEngine.Hiredis

set_option autoImplicit false

open Theory
open Theory.ByteStream (Bytes)

/-! ## Lines and numbers of a longer buffer -/

theorem seekNewline_le {s : Bytes} {n : Nat} (found : seekNewline s = some n) : n + 2 ≤ s.length := by
  induction s using seekNewline.induct generalizing n with
  | case1 => simp [seekNewline] at found
  | case2 c => simp [seekNewline] at found
  | case3 c d s here =>
      simp only [seekNewline, here, and_self, if_true, Option.some.injEq] at found
      simp [← found]
  | case4 c d s other ih =>
      rw [seekNewline, if_neg other] at found
      obtain ⟨m, later, rfl⟩ := Option.map_eq_some_iff.mp found
      have := ih later
      simp only [List.length_cons] at this ⊢
      omega

theorem seekNewline_append {s : Bytes} {n : Nat} (found : seekNewline s = some n) (more : Bytes) :
    seekNewline (s ++ more) = some n := by
  induction s using seekNewline.induct generalizing n with
  | case1 => simp [seekNewline] at found
  | case2 c => simp [seekNewline] at found
  | case3 c d s here =>
      rw [seekNewline, if_pos here] at found
      rw [List.cons_append, List.cons_append, seekNewline, if_pos here, found]
  | case4 c d s other ih =>
      rw [seekNewline, if_neg other] at found
      obtain ⟨m, later, rfl⟩ := Option.map_eq_some_iff.mp found
      rw [List.cons_append, List.cons_append, seekNewline, if_neg other, ← List.cons_append, ih later]
      rfl

theorem cr_mem_of_seekNewline {s : Bytes} {n : Nat} (found : seekNewline s = some n) : cr ∈ s := by
  induction s using seekNewline.induct generalizing n with
  | case1 => simp [seekNewline] at found
  | case2 c => simp [seekNewline] at found
  | case3 c d s here => simp [here.1]
  | case4 c d s other ih =>
      rw [seekNewline, if_neg other] at found
      obtain ⟨m, later, rfl⟩ := Option.map_eq_some_iff.mp found
      exact List.mem_cons_of_mem _ (ih later)

theorem readDigits_append {s : Bytes} (ended : cr ∈ s) (v : Int64) (more : Bytes) :
    readDigits v (s ++ more) = readDigits v s := by
  induction s generalizing v with
  | nil => simp at ended
  | cons c s ih =>
      rw [List.cons_append, readDigits, readDigits]
      by_cases here : c = cr
      · simp [here]
      · have later : cr ∈ s := (List.mem_cons.mp ended).resolve_left (Ne.symm here)
        simp [here, ih later]

theorem readLongLong_append {s : Bytes} (ended : cr ∈ s) (more : Bytes) :
    readLongLong (s ++ more) = readLongLong s := by
  cases s with
  | nil => simp at ended
  | cons c s =>
      rw [List.cons_append, readLongLong, readLongLong]
      have whole : readDigits 0 (c :: (s ++ more)) = readDigits 0 (c :: s) :=
        readDigits_append ended 0 more
      by_cases here : c = cr
      · have noSign : cr ≠ ascii '-' ∧ cr ≠ ascii '+' := by decide
        simp [here, noSign.1, noSign.2, readDigits]
      · have later : cr ∈ s := (List.mem_cons.mp ended).resolve_left (Ne.symm here)
        rw [whole, readDigits_append later]

/-! ## The machine -/

open RedisReader

abbrev ParserState := Except ReaderError (List ReadTask)

/-- The stack once a complete object is created, with the reply if it was the root. -/
def placed (obj : RedisReply) (cur : ReadTask) (rest : List ReadTask) :
    Except ReaderError (List ReadTask × Option RedisReply) :=
  if storable rest then .ok (moveToNextTask obj cur rest) else .error .crash

/-- The stack after the header of an array. -/
def opened (elements : Int64) (cur : ReadTask) (rest : List ReadTask) :
    Except ReaderError (List ReadTask × Option RedisReply) :=
  if elements = -1 then placed .nil cur rest
  else if 0 < elements then
    if storable rest then
      .ok ({ idx := 0 } :: { cur with elements := elements.toInt32.toInt, obj := [] } :: rest, none)
    else .error .crash
  else placed (if elements = 0 then .array [] else .hollow elements.toInt32.toInt) cur rest

/-- What the body of an item leads to, and how many bytes it takes; `none` while
they have not all come. -/
def itemBody (type : ItemType) (cur : ReadTask) (rest : List ReadTask) (s : Bytes) :
    Option (Except ReaderError (List ReadTask × Option RedisReply) × Nat) :=
  match type with
  | .string =>
      (seekNewline s).bind fun line =>
        let len := readLongLong s
        if len < 0 then some (placed .nil cur rest, line + 2)
        else
          let bytelen := line + 2 + (len.toInt.toNat + 2)
          if bytelen ≤ s.length then
            some (placed (.string ((s.drop (line + 2)).take len.toInt.toNat)) cur rest, bytelen)
          else none
  | .array =>
      if rest.length = 8 then some (.error tooDeep, 0)
      else (seekNewline s).map fun line => (opened (readLongLong s) cur rest, line + 2)
  | type => (seekNewline s).map fun line => (placed (lineReply type s line) cur rest, line + 2)

/-- The machine after the body of an item. -/
def afterBody : Except ReaderError (List ReadTask × Option RedisReply) →
    ParserState × List RedisReply
  | .error error => (.error error, [])
  | .ok (rstack, none) => (.ok rstack, [])
  | .ok (_, some reply) => (.ok [root], [reply])

/-- The machine after a type byte. -/
def afterByte (byte : UInt8) (cur : ReadTask) (rest : List ReadTask) : ParserState :=
  match itemType byte with
  | some type => .ok ({ cur with type := some type } :: rest)
  | none => .error (protocolByte byte)

def parserStep : ParserState → Bytes → Option (ParserState × List RedisReply × Bytes)
  | .ok (cur :: rest), s =>
      match cur.type with
      | none =>
          match s with
          | [] => none
          | byte :: s => some (afterByte byte cur rest, [], s)
      | some type =>
          (itemBody type cur rest s).map fun (after, bytes) =>
            ((afterBody after).1, (afterBody after).2, s.drop bytes)
  | _, _ => none

theorem parserStep_untyped {cur : ReadTask} (unknown : cur.type = none) (rest : List ReadTask)
    (byte : UInt8) (s : Bytes) :
    parserStep (.ok (cur :: rest)) (byte :: s) = some (afterByte byte cur rest, [], s) := by
  simp [parserStep, unknown]

theorem parserStep_typed {cur : ReadTask} {type : ItemType} (known : cur.type = some type)
    (rest : List ReadTask) (s : Bytes) :
    parserStep (.ok (cur :: rest)) s = (itemBody type cur rest s).map fun (after, bytes) =>
      ((afterBody after).1, (afterBody after).2, s.drop bytes) := by
  simp [parserStep, known]

/-- A step reads a type byte or an item body. -/
theorem parserStep_cases {s s' : ParserState} {buf left : Bytes} {out : List RedisReply}
    (step : parserStep s buf = some (s', out, left)) :
    ∃ cur rest, s = .ok (cur :: rest) ∧
      ((∃ byte, cur.type = none ∧ buf = byte :: left ∧ s' = afterByte byte cur rest ∧ out = []) ∨
        ∃ type after bytes, cur.type = some type ∧ itemBody type cur rest buf = some (after, bytes) ∧
          s' = (afterBody after).1 ∧ out = (afterBody after).2 ∧ left = buf.drop bytes) := by
  match s with
  | .error _ => simp [parserStep] at step
  | .ok [] => simp [parserStep] at step
  | .ok (cur :: rest) =>
      refine ⟨cur, rest, rfl, ?_⟩
      cases known : cur.type with
      | none =>
          cases buf with
          | nil => simp [parserStep, known] at step
          | cons byte buf =>
              rw [parserStep_untyped known] at step
              cases step
              exact Or.inl ⟨byte, rfl, rfl, rfl, rfl⟩
      | some type =>
          rw [parserStep_typed known] at step
          obtain ⟨⟨after, bytes⟩, body, step⟩ := Option.map_eq_some_iff.mp step
          cases step
          exact Or.inr ⟨type, after, bytes, rfl, body, rfl, rfl, rfl⟩

theorem itemBody_le {type : ItemType} {cur : ReadTask} {rest : List ReadTask} {s : Bytes}
    {after : Except ReaderError (List ReadTask × Option RedisReply)} {bytes : Nat}
    (body : itemBody type cur rest s = some (after, bytes)) :
    bytes ≤ s.length ∧ (2 ≤ bytes ∨ after = .error tooDeep) := by
  cases type with
  | string =>
      obtain ⟨line, found, body⟩ := Option.bind_eq_some_iff.mp body
      have inside := seekNewline_le found
      dsimp only at body
      split at body
      · cases body
        omega
      · split at body
        · cases body
          omega
        · cases body
  | array =>
      rw [itemBody] at body
      split at body
      · cases body
        simp
      · obtain ⟨line, found, body⟩ := Option.map_eq_some_iff.mp body
        have inside := seekNewline_le found
        cases body
        omega
  | _ =>
      obtain ⟨line, found, body⟩ := Option.map_eq_some_iff.mp body
      have inside := seekNewline_le found
      cases body
      omega

/-- The body of an item is where it is in every longer buffer. -/
theorem itemBody_append {type : ItemType} {cur : ReadTask} {rest : List ReadTask} {s : Bytes}
    {after : Except ReaderError (List ReadTask × Option RedisReply)} {bytes : Nat}
    (body : itemBody type cur rest s = some (after, bytes)) (more : Bytes) :
    itemBody type cur rest (s ++ more) = some (after, bytes) := by
  cases type with
  | string =>
      obtain ⟨line, found, body⟩ := Option.bind_eq_some_iff.mp body
      have inside := seekNewline_le found
      rw [itemBody, seekNewline_append found more, Option.bind_some,
        readLongLong_append (cr_mem_of_seekNewline found)]
      dsimp only at body ⊢
      split at body
      · rwa [if_pos ‹_›]
      · rw [if_neg ‹_›]
        split at body
        · rename_i fits
          rw [if_pos (by rw [List.length_append]; omega), ← body, List.drop_append_of_le_length inside,
            List.take_append_of_le_length (by rw [List.length_drop]; omega)]
        · cases body
  | array =>
      rw [itemBody] at body ⊢
      split at body
      · rwa [if_pos ‹_›]
      · obtain ⟨line, found, body⟩ := Option.map_eq_some_iff.mp body
        rw [if_neg ‹_›, seekNewline_append found more, Option.map_some,
          readLongLong_append (cr_mem_of_seekNewline found), body]
  | integer =>
      obtain ⟨line, found, body⟩ := Option.map_eq_some_iff.mp body
      rw [itemBody, seekNewline_append found more, Option.map_some, ← body, lineReply, lineReply,
        readLongLong_append (cr_mem_of_seekNewline found)]
      all_goals simp
  | _ =>
      obtain ⟨line, found, body⟩ := Option.map_eq_some_iff.mp body
      have inside := seekNewline_le found
      rw [itemBody, seekNewline_append found more, Option.map_some, ← body, lineReply, lineReply,
        List.take_append_of_le_length (by omega)]
      all_goals simp

/-- A type byte or a body takes bytes; only the nesting error takes none. -/
theorem parserStep_descends {s s' : ParserState} {buf left : Bytes} {out : List RedisReply}
    (step : parserStep s buf = some (s', out, left)) :
    left.length + (if s'.isOk then 1 else 0) < buf.length + (if s.isOk then 1 else 0) := by
  obtain ⟨cur, rest, rfl, ⟨byte, -, rfl, rfl, rfl⟩ | ⟨type, after, bytes, -, body, rfl, rfl, rfl⟩⟩ :=
    parserStep_cases step
  · show _ < left.length + 1 + 1
    split <;> omega
  · obtain ⟨inside, two | rfl⟩ := itemBody_le body
    · rw [List.length_drop]
      show _ < buf.length + 1
      split <;> omega
    · rw [List.length_drop]
      show _ + 0 < buf.length + 1
      omega

theorem parserStep_append {s s' : ParserState} {buf left : Bytes} {out : List RedisReply}
    (more : Bytes) (step : parserStep s buf = some (s', out, left)) :
    parserStep s (buf ++ more) = some (s', out, left ++ more) := by
  obtain ⟨cur, rest, rfl, ⟨byte, unknown, rfl, rfl, rfl⟩ | ⟨type, after, bytes, known, body, rfl, rfl, rfl⟩⟩ :=
    parserStep_cases step
  · exact parserStep_untyped unknown rest byte (left ++ more)
  · simp only [parserStep_typed known, itemBody_append body more, Option.map_some,
      List.drop_append_of_le_length (itemBody_le body).1]

def parser : Incremental ParserState UInt8 RedisReply where
  step := parserStep
  weight s := if s.isOk then 1 else 0
  descends := parserStep_descends
  stable := parserStep_append

/-! ## A call of the reader -/

namespace RedisReader

/-- The machine a reader without an error stands for; an empty stack is one with a
root that was not begun. -/
def config (r : RedisReader) : Incremental.Config ParserState UInt8 :=
  ⟨.ok (if r.rstack.isEmpty then [root] else r.rstack), r.unread⟩

theorem finish_eq (r : RedisReader) (obj : RedisReply) (cur : ReadTask) (rest : List ReadTask) :
    r.finish obj cur rest =
      match placed obj cur rest with
      | .ok (rstack, reply) => (true, { r with rstack, reply })
      | .error error => (false, r.setError error) := by
  unfold finish placed
  split <;> rfl

/-- What is read of a line, in terms of the bytes. -/
theorem readLine_eq (r : RedisReader) :
    r.readLine = (seekNewline r.unread).map fun len =>
      (r.unread, len, { r with pos := r.pos + (len + 2) }) := rfl

/-- The body of an item: `REDIS_ERR` without an error is that it has not all come. -/
theorem processTyped_eq (r : RedisReader) (type : ItemType) (cur : ReadTask)
    (rest : List ReadTask) :
    r.processTyped type cur rest =
      match itemBody type cur rest r.unread with
      | none => (false, r)
      | some (.ok (rstack, reply), bytes) => (true, { r with pos := r.pos + bytes, rstack, reply })
      | some (.error error, _) => (false, r.setError error) := by
  have line : ∀ type : ItemType, r.processLineItem type cur rest =
      match (seekNewline r.unread).map fun line =>
        (placed (lineReply type r.unread line) cur rest, line + 2) with
      | none => (false, r)
      | some (.ok (rstack, reply), bytes) => (true, { r with pos := r.pos + bytes, rstack, reply })
      | some (.error error, _) => (false, r.setError error) := by
    intro type
    rw [processLineItem, readLine_eq]
    cases found : seekNewline r.unread with
    | none => rfl
    | some len =>
        simp only [Option.map_some, finish_eq]
        cases placed (lineReply type r.unread len) cur rest <;> rfl
  cases type with
  | string =>
      rw [processTyped, processBulkItem, itemBody]
      cases found : seekNewline r.unread with
      | none => rfl
      | some len =>
          have inside := seekNewline_le found
          rw [unread, List.length_drop] at inside
          simp only [Option.bind_some, finish_eq]
          split
          · cases placed .nil cur rest <;> rfl
          · have same : (r.pos + (len + 2 + ((readLongLong r.unread).toInt.toNat + 2)) ≤ r.buf.length) =
                (len + 2 + ((readLongLong r.unread).toInt.toNat + 2) ≤ r.unread.length) := by
              rw [unread, List.length_drop]
              exact propext ⟨fun _ => by omega, fun _ => by omega⟩
            simp only [same]
            split
            · cases placed (.string ((r.unread.drop (len + 2)).take
                (readLongLong r.unread).toInt.toNat)) cur rest <;> rfl
            · rfl
  | array =>
      rw [processTyped, processMultiBulkItem, itemBody, readLine_eq]
      split
      · rfl
      · cases found : seekNewline r.unread with
        | none => rfl
        | some len =>
            simp only [Option.map_some, finish_eq, opened]
            split
            · cases placed .nil cur rest <;> rfl
            · split
              · split <;> rfl
              · cases placed (if readLongLong r.unread = 0 then .array []
                  else .hollow (readLongLong r.unread).toInt32.toInt) cur rest <;> rfl
  | error => exact line .error
  | status => exact line .status
  | integer => exact line .integer

/-- A reader without an error. -/
structure Sound (r : RedisReader) : Prop where
  clean : r.err = none
  inside : r.pos ≤ r.buf.length

/-- What a call that works on one item can come to, as runs of `parser`. -/
inductive ItemOutcome (r : RedisReader) : Bool × RedisReader → Prop
  | reply {after : RedisReader} (reply : RedisReply) (sound : after.Sound)
      (emptied : after.rstack = []) (holds : after.reply = some reply)
      (run : parser.Steps r.config [reply] after.config)
      (fewer : after.unread.length < r.unread.length) : ItemOutcome r (true, after)
  | next {after : RedisReader} (sound : after.Sound) (busy : after.rstack ≠ [])
      (run : parser.Steps r.config [] after.config)
      (fewer : after.unread.length < r.unread.length) : ItemOutcome r (true, after)
  | waits {after : RedisReader} (sound : after.Sound) (busy : after.rstack ≠ [])
      (run : parser.Steps r.config [] after.config) (waits : parser.Waits after.config) :
      ItemOutcome r (false, after)
  | fails (error : ReaderError) (left : Bytes)
      (run : parser.Steps r.config [] ⟨.error error, left⟩) : ItemOutcome r (false, r.setError error)

theorem config_of_busy {r : RedisReader} {cur : ReadTask} {rest : List ReadTask}
    (top : r.rstack = cur :: rest) : r.config = ⟨.ok (cur :: rest), r.unread⟩ := by
  simp [config, top]

theorem unread_pos (r : RedisReader) (bytes : Nat) (rstack : List ReadTask)
    (reply : Option RedisReply) :
    { r with pos := r.pos + bytes, rstack, reply }.unread = r.unread.drop bytes := by
  simp [unread, List.drop_drop]

theorem config_pos (r : RedisReader) (bytes : Nat) (rstack : List ReadTask)
    (reply : Option RedisReply) :
    { r with pos := r.pos + bytes, rstack, reply }.config =
      ⟨.ok (if rstack.isEmpty then [root] else rstack), r.unread.drop bytes⟩ := by
  rw [← unread_pos r bytes rstack reply]
  rfl

/-- The root leaves an empty stack, every other object a task to go on with. -/
theorem moveToNextTask_cases (obj : RedisReply) (cur : ReadTask) (rest : List ReadTask) :
    (∃ reply, moveToNextTask obj cur rest = ([], some reply)) ∨
      ∃ top below, moveToNextTask obj cur rest = (top :: below, none) := by
  induction rest generalizing obj cur with
  | nil => exact Or.inl ⟨obj, rfl⟩
  | cons prv rest ih =>
      rw [moveToNextTask]
      dsimp only
      split
      · exact ih _ _
      · exact Or.inr ⟨_, _, rfl⟩

theorem placed_cases {obj : RedisReply} {cur : ReadTask} {rest rstack : List ReadTask}
    {reply : Option RedisReply} (put : placed obj cur rest = .ok (rstack, reply)) :
    (rstack = [] ∧ reply.isSome) ∨ (rstack ≠ [] ∧ reply = none) := by
  unfold placed at put
  split at put
  · rcases moveToNextTask_cases obj cur rest with ⟨reply, same⟩ | ⟨top, below, same⟩ <;>
      rw [same] at put <;> cases put <;> simp
  · cases put

theorem itemBody_cases {type : ItemType} {cur : ReadTask} {rest rstack : List ReadTask} {s : Bytes}
    {reply : Option RedisReply} {bytes : Nat}
    (body : itemBody type cur rest s = some (.ok (rstack, reply), bytes)) :
    (rstack = [] ∧ reply.isSome) ∨ (rstack ≠ [] ∧ reply = none) := by
  cases type with
  | string =>
      obtain ⟨line, -, body⟩ := Option.bind_eq_some_iff.mp body
      dsimp only at body
      split at body
      · exact placed_cases (Prod.mk.inj (Option.some.inj body)).1
      · split at body
        · exact placed_cases (Prod.mk.inj (Option.some.inj body)).1
        · cases body
  | array =>
      rw [itemBody] at body
      split at body
      · cases body
      · obtain ⟨line, -, body⟩ := Option.map_eq_some_iff.mp body
        have open_ := (Prod.mk.inj body).1
        unfold opened at open_
        split at open_
        · exact placed_cases open_
        · split at open_
          · split at open_
            · cases open_
              simp
            · cases open_
          · exact placed_cases open_
  | _ =>
      obtain ⟨line, -, body⟩ := Option.map_eq_some_iff.mp body
      exact placed_cases (Prod.mk.inj body).1

theorem processTyped_outcome {r : RedisReader} {type : ItemType} {cur : ReadTask}
    {rest : List ReadTask} (sound : r.Sound) (top : r.rstack = cur :: rest)
    (known : cur.type = some type) : ItemOutcome r (r.processTyped type cur rest) := by
  rw [processTyped_eq]
  have step := parserStep_typed known rest r.unread
  cases body : itemBody type cur rest r.unread with
  | none =>
      refine .waits sound (by simp [top]) (.refl _) ?_
      rw [config_of_busy top]
      show parserStep (.ok (cur :: rest)) r.unread = none
      rw [step, body]
      rfl
  | some out =>
      obtain ⟨after, bytes⟩ := out
      rw [body] at step
      have run : parser.Steps r.config (afterBody after).2
          ⟨(afterBody after).1, r.unread.drop bytes⟩ := by
        rw [config_of_busy top]
        exact .single step
      have some := itemBody_le body
      match after, body, run with
      | .error error, _, run => exact .fails error _ run
      | .ok (rstack, reply), body, run =>
          have fewer : (r.unread.drop bytes).length < r.unread.length := by
            rw [List.length_drop]
            rcases some.2 with two | halted
            · omega
            · cases halted
          have stays : Sound { r with pos := r.pos + bytes, rstack, reply } := by
            refine ⟨sound.clean, ?_⟩
            have read := some.1
            have inside := sound.inside
            rw [unread, List.length_drop] at read
            show r.pos + bytes ≤ r.buf.length
            omega
          rcases itemBody_cases body with ⟨rfl, isReply⟩ | ⟨busy, rfl⟩
          · obtain ⟨reply, rfl⟩ := Option.isSome_iff_exists.mp isReply
            refine .reply reply stays rfl rfl ?_ (by rwa [unread_pos])
            rw [config_pos]
            exact run
          · refine .next stays busy ?_ (by rwa [unread_pos])
            rw [config_pos]
            simpa [afterBody, busy] using run

/-- An item with its type byte still to come: first the byte, then the body. -/
theorem ItemOutcome.after_byte {r : RedisReader} (next : RedisReader) {out : Bool × RedisReader}
    (byte : parser.Steps r.config [] next.config) (fewer : next.unread.length ≤ r.unread.length)
    (outcome : ItemOutcome next out) : ItemOutcome r out := by
  cases outcome with
  | reply reply sound emptied holds run fewer' =>
      exact .reply reply sound emptied holds (byte.trans run) (by omega)
  | next sound busy run fewer' => exact .next sound busy (byte.trans run) (by omega)
  | waits sound busy run waits => exact .waits sound busy (byte.trans run) waits
  | fails error left run => exact .fails error left (byte.trans run)

theorem processItem_outcome {r : RedisReader} (sound : r.Sound) (busy : r.rstack ≠ []) :
    ItemOutcome r r.processItem := by
  obtain ⟨cur, rest, top⟩ := List.exists_cons_of_ne_nil busy
  cases known : cur.type with
  | some type =>
      simp only [processItem, top, known]
      exact processTyped_outcome sound top known
  | none =>
      simp only [processItem, top, known]
      cases bytes : r.unread with
      | nil =>
          have short : ¬ 1 ≤ r.buf.length - r.pos := by
            have := congrArg List.length bytes
            rw [unread, List.length_drop, List.length_nil] at this
            omega
          rw [readBytes, if_neg short]
          refine .waits sound busy (.refl _) ?_
          rw [config_of_busy top, bytes]
          show parserStep (.ok (cur :: rest)) [] = none
          simp [parserStep, known]
      | cons byte s =>
          have enough : 1 ≤ r.buf.length - r.pos := by
            have := congrArg List.length bytes
            rw [unread, List.length_drop, List.length_cons] at this
            omega
          have first : parser.Steps r.config [] ⟨afterByte byte cur rest, s⟩ := by
            rw [config_of_busy top, bytes]
            exact .single (parserStep_untyped known rest byte s)
          rw [readBytes, if_pos enough, bytes]
          dsimp only
          cases typed : itemType byte with
          | none =>
              rw [afterByte, typed] at first
              exact .fails (protocolByte byte) s first
          | some type =>
              rw [afterByte, typed] at first
              have read : (r.buf.drop (r.pos + 1)) = s := by
                rw [← List.drop_drop]
                exact congrArg (List.drop 1) bytes
              refine ItemOutcome.after_byte { r with
                pos := r.pos + 1, rstack := { cur with type := some type } :: rest } ?_ ?_
                (processTyped_outcome ⟨sound.clean, ?_⟩ rfl rfl)
              · show parser.Steps r.config []
                  ⟨.ok ({ cur with type := some type } :: rest), r.buf.drop (r.pos + 1)⟩
                rw [read]
                exact first
              · show (r.buf.drop (r.pos + 1)).length ≤ r.unread.length
                rw [read, bytes]
                simp
              · show r.pos + 1 ≤ r.buf.length
                omega

/-! ## Getting a reply -/

/-- A reader between two calls: no error, and no array begun at the last place of the
stack (that is an error as soon as its type byte is read). -/
structure Ready (r : RedisReader) : Prop extends Sound r where
  shallow : ∀ cur rest, r.rstack = cur :: rest → cur.type = some .array → rest.length ≠ 8

theorem Ready.of_emptied {r : RedisReader} (sound : r.Sound) (emptied : r.rstack = []) :
    r.Ready :=
  ⟨sound, by simp [emptied]⟩

theorem Ready.of_waits {r : RedisReader} (sound : r.Sound) (waits : parser.Waits r.config) :
    r.Ready := by
  refine ⟨sound, ?_⟩
  intro cur rest top isArray deep
  have step : parserStep (.ok (cur :: rest)) r.unread = none := by
    rw [config_of_busy top] at waits
    exact waits
  simp [parserStep_typed isArray, itemBody, deep] at step

/-- There is nothing to do without a byte. -/
theorem Ready.waits {r : RedisReader} (ready : r.Ready) (empty : r.unread = []) :
    parser.Waits r.config := by
  show parserStep r.config.state r.config.buf = none
  cases top : r.rstack with
  | nil => simp [config, top, empty, parserStep, root]
  | cons cur rest =>
      rw [config_of_busy top, empty]
      cases known : cur.type with
      | none => simp [parserStep, known]
      | some type =>
          rw [parserStep_typed known]
          cases type with
          | array => simp [itemBody, seekNewline, ready.shallow cur rest top known]
          | _ => simp [itemBody, seekNewline]

/-- What `redisReaderGetReply` can come to: the first reply of the bytes there are,
none because they end inside one, or an error. -/
inductive ReplyOutcome (r : RedisReader) : Bool × Option RedisReply × RedisReader → Prop
  | reply {after : RedisReader} (reply : RedisReply) (ready : after.Ready)
      (emptied : after.rstack = []) (run : parser.Steps r.config [reply] after.config)
      (fewer : after.unread.length < r.unread.length) : ReplyOutcome r (true, some reply, after)
  | waits {after : RedisReader} (ready : after.Ready) (run : parser.Steps r.config [] after.config)
      (waits : parser.Waits after.config) : ReplyOutcome r (true, none, after)
  | fails {after : RedisReader} (error : ReaderError) (left : Bytes) (stopped : after.err = some error)
      (run : parser.Steps r.config [] ⟨.error error, left⟩) : ReplyOutcome r (false, none, after)

/-- The loop over the items of a reply ends at its end, where it waits, or at an error. -/
theorem processItems_cases {fuel : Nat} {r : RedisReader} (sound : r.Sound)
    (busy : r.rstack ≠ []) (enough : r.unread.length < fuel) :
    (∃ reply, (processItems fuel r).Sound ∧ (processItems fuel r).rstack = [] ∧
        (processItems fuel r).reply = some reply ∧
        parser.Steps r.config [reply] (processItems fuel r).config ∧
        (processItems fuel r).unread.length < r.unread.length) ∨
      ((processItems fuel r).Sound ∧ (processItems fuel r).rstack ≠ [] ∧
        parser.Steps r.config [] (processItems fuel r).config ∧
        parser.Waits (processItems fuel r).config) ∨
      ∃ error left, (processItems fuel r).err = some error ∧
        parser.Steps r.config [] ⟨.error error, left⟩ := by
  induction fuel generalizing r with
  | zero => omega
  | succ fuel ih =>
      have first := processItem_outcome sound busy
      rw [processItems, if_neg (by simpa using busy)]
      generalize r.processItem = out at first
      cases first with
      | @reply after reply sound emptied holds run fewer =>
          have stop : processItems fuel after = after := by
            cases fuel <;> simp [processItems, emptied]
          dsimp only
          rw [stop]
          exact Or.inl ⟨reply, sound, emptied, holds, run, fewer⟩
      | @next after sound busy run fewer =>
          rcases ih sound busy (by omega) with ⟨reply, sound, emptied, holds, run', fewer'⟩ |
            ⟨sound, busy, run', waits⟩ | ⟨error, left, stopped, run'⟩
          · exact Or.inl ⟨reply, sound, emptied, holds, run.trans run', fewer'.trans fewer⟩
          · exact Or.inr (Or.inl ⟨sound, busy, run.trans run', waits⟩)
          · exact Or.inr (Or.inr ⟨error, left, stopped, run.trans run'⟩)
      | waits sound busy run waits => exact Or.inr (Or.inl ⟨sound, busy, run, waits⟩)
      | fails error left run => exact Or.inr (Or.inr ⟨error, left, rfl, run⟩)

/-- Discarding what was read changes nothing that is unread. -/
@[simp] theorem config_discard (r : RedisReader) : r.discard.config = r.config := by
  unfold discard
  split <;> rfl

@[simp] theorem unread_discard (r : RedisReader) : r.discard.unread = r.unread := by
  unfold discard
  split <;> rfl

theorem Sound.discard {r : RedisReader} (sound : r.Sound) : r.discard.Sound := by
  unfold RedisReader.discard
  split
  · exact ⟨sound.clean, Nat.zero_le _⟩
  · exact sound

@[simp] theorem rstack_discard (r : RedisReader) : r.discard.rstack = r.rstack := by
  unfold discard
  split <;> rfl

@[simp] theorem reply_discard (r : RedisReader) : r.discard.reply = r.reply := by
  unfold discard
  split <;> rfl

theorem redisReaderGetReply_outcome {r : RedisReader} (ready : r.Ready) :
    ReplyOutcome r r.redisReaderGetReply := by
  unfold redisReaderGetReply
  rw [if_neg (by simp [ready.clean])]
  split
  · rename_i empty
    refine .waits ready (.refl _) (ready.waits ?_)
    rw [unread, List.length_eq_zero_iff.mp empty, List.drop_nil]
  · -- an empty stack and one with a root that was not begun are one configuration
    obtain ⟨begun, start⟩ : ∃ begun : RedisReader,
        begun = if r.rstack.isEmpty then { r with rstack := [root] } else r := ⟨_, rfl⟩
    have same : begun.config = r.config := by
      rw [start]
      split <;> simp [config, *]
      rfl
    have sound : begun.Sound := by
      rw [start]
      split <;> exact ⟨ready.clean, ready.inside⟩
    have busy : begun.rstack ≠ [] := by
      rw [start]
      split
      · simp
      · simpa using ‹¬ r.rstack.isEmpty = true›
    have sameBytes : begun.unread = r.unread := congrArg Incremental.Config.buf same
    rw [← start]
    dsimp only
    have loop := processItems_cases sound busy (Nat.lt_succ_self begun.unread.length)
    rw [same, sameBytes] at loop
    rw [sameBytes]
    generalize processItems (r.unread.length + 1) begun = after at loop
    rcases loop with ⟨reply, sound, emptied, holds, run, fewer⟩ | ⟨sound, busy, run, waits⟩ |
      ⟨error, left, stopped, run⟩
    · rw [if_neg (by simp [sound.clean]), if_pos (by simp [emptied]), reply_discard, holds]
      have keeps : { after.discard with reply := none }.config = after.config :=
        config_discard after
      have stays : Sound { after.discard with reply := none } :=
        ⟨sound.discard.clean, sound.discard.inside⟩
      refine .reply reply (.of_emptied stays (by simpa using emptied)) (by simpa using emptied)
        (by rwa [keeps]) ?_
      show after.discard.unread.length < _
      rwa [unread_discard]
    · rw [if_neg (by simp [sound.clean]), if_neg (by simpa using busy)]
      rw [← config_discard after] at run waits
      exact .waits (.of_waits sound.discard waits) run waits
    · rw [if_pos (by simp [stopped])]
      exact .fails error left stopped run

/-! ## Streams in pieces -/

/-- A stopped machine does nothing more. -/
theorem waits_of_error (error : ReaderError) (left : Bytes) :
    parser.Waits ⟨.error error, left⟩ := rfl

/-- The reader stands where the machine does; after an error the bytes do not count. -/
def Follows (r : RedisReader) (c : Incremental.Config ParserState UInt8) : Prop :=
  (r.Ready ∧ r.config = c) ∨ ∃ error left, r.err = some error ∧ c = ⟨.error error, left⟩

theorem takeReplies_follows {fuel : Nat} {r : RedisReader} (ready : r.Ready)
    (enough : r.unread.length < fuel) :
    (takeReplies fuel r).1 = (parser.drain r.config).1 ∧
      (takeReplies fuel r).2.Follows (parser.drain r.config).2 := by
  induction fuel generalizing r with
  | zero => omega
  | succ fuel ih =>
      have outcome := redisReaderGetReply_outcome ready
      rw [takeReplies]
      generalize r.redisReaderGetReply = out at outcome
      cases outcome with
      | @reply after reply ready emptied run fewer =>
          obtain ⟨sameReplies, follows⟩ := ih ready (by omega)
          rw [run.drain]
          exact ⟨congrArg (List.cons reply) sameReplies, follows⟩
      | waits ready run waits =>
          rw [run.drain_eq waits]
          exact ⟨rfl, Or.inl ⟨ready, rfl⟩⟩
      | fails error left stopped run =>
          rw [run.drain_eq (waits_of_error error left)]
          exact ⟨rfl, Or.inr ⟨error, left, stopped, rfl⟩⟩

theorem Ready.feed {r : RedisReader} (ready : r.Ready) (piece : Bytes) :
    (r.redisReaderFeed piece).2.Ready ∧
      (r.redisReaderFeed piece).2.config = r.config.more piece := by
  rw [redisReaderFeed, if_neg (by simp [ready.clean])]
  refine ⟨⟨⟨ready.clean, ?_⟩, ready.shallow⟩, ?_⟩
  · have := ready.inside
    show r.pos ≤ (r.buf ++ piece).length
    rw [List.length_append]
    omega
  · simp [config, unread, Incremental.Config.more, List.drop_append_of_le_length ready.inside]

/-- What a client gets from a stream is what the machine puts out. -/
theorem readPieces_follows {r : RedisReader} {c : Incremental.Config ParserState UInt8}
    (follows : r.Follows c) (pieces : List Bytes) :
    (r.readPieces pieces).1 = (parser.receiveAll c pieces).1 ∧
      (r.readPieces pieces).2.Follows (parser.receiveAll c pieces).2 := by
  induction pieces generalizing r c with
  | nil => exact ⟨rfl, follows⟩
  | cons piece pieces ih =>
      have first : (takeReplies ((r.redisReaderFeed piece).2.unread.length + 1)
            (r.redisReaderFeed piece).2).1 = (parser.receive c piece).1 ∧
          (takeReplies ((r.redisReaderFeed piece).2.unread.length + 1)
            (r.redisReaderFeed piece).2).2.Follows (parser.receive c piece).2 := by
        rcases follows with ⟨ready, rfl⟩ | ⟨error, left, stopped, rfl⟩
        · obtain ⟨ready', same⟩ := ready.feed piece
          rw [Incremental.receive, ← same]
          exact takeReplies_follows ready' (Nat.lt_succ_self _)
        · have drained : parser.receive ⟨.error error, left⟩ piece =
              ([], ⟨.error error, left ++ piece⟩) :=
            parser.drain_of_waits (waits_of_error error (left ++ piece))
          rw [drained]
          simp only [redisReaderFeed, stopped, Option.isSome_some, if_true, takeReplies,
            redisReaderGetReply]
          exact ⟨trivial, Or.inr ⟨error, _, stopped, rfl⟩⟩
      obtain ⟨sameFirst, followsFirst⟩ := first
      obtain ⟨sameRest, followsRest⟩ := ih followsFirst
      simp only [readPieces, Incremental.receiveAll]
      exact ⟨by rw [sameFirst, sameRest], followsRest⟩

theorem create_ready : create.Ready :=
  .of_emptied ⟨rfl, Nat.le_refl 0⟩ rfl

theorem create_follows : create.Follows create.config :=
  Or.inl ⟨create_ready, rfl⟩

/-- The replies in a stream and the reader after it, from the whole stream. -/
theorem replies_of_pieces (pieces : List Bytes) :
    (create.readPieces pieces).1 = (parser.receive create.config pieces.flatten).1 ∧
      (create.readPieces pieces).2.Follows (parser.receive create.config pieces.flatten).2 := by
  rw [← parser.receiveAll_eq (create_ready.waits rfl)]
  exact readPieces_follows create_follows pieces

theorem Follows.same {r r' : RedisReader} {c : Incremental.Config ParserState UInt8}
    (follows : r.Follows c) (follows' : r'.Follows c) :
    r.err = r'.err ∧ (r.err = none → r.config = r'.config) := by
  rcases follows with ⟨ready, rfl⟩ | ⟨error, left, stopped, rfl⟩
  · rcases follows' with ⟨ready', same⟩ | ⟨error, left, -, same⟩
    · exact ⟨ready.clean.trans ready'.clean.symm, fun _ => same.symm⟩
    · cases same
  · rcases follows' with ⟨ready', same⟩ | ⟨error', left', stopped', same⟩
    · cases same
    · cases same
      exact ⟨stopped.trans stopped'.symm, fun clean => by simp [stopped] at clean⟩

/-- **The pieces a stream comes in do not matter.**  A client that reads it piece by
piece gets the replies, and the error if there is one, that it gets from the whole
stream at once, and can go on from the same place. -/
theorem pieces_irrelevant (pieces : List Bytes) :
    (create.readPieces pieces).1 = (create.readPieces [pieces.flatten]).1 ∧
      (create.readPieces pieces).2.err = (create.readPieces [pieces.flatten]).2.err ∧
      ((create.readPieces pieces).2.err = none →
        (create.readPieces pieces).2.config = (create.readPieces [pieces.flatten]).2.config) := by
  obtain ⟨sameReplies, follows⟩ := replies_of_pieces pieces
  obtain ⟨sameReplies', follows'⟩ := replies_of_pieces [pieces.flatten]
  rw [List.flatten_singleton] at sameReplies' follows'
  exact ⟨sameReplies.trans sameReplies'.symm, follows.same follows'⟩

end RedisReader

end RecommEngine.Hiredis
