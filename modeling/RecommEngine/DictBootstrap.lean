/-
# DictBootstrap -- filling a local dictionary from a file

`LocalDict::Bootstrap` reads a key and a value at a time with `fin >> key >> value`, puts
each pair, and returns at the first put that fails.  `Purge` does nothing yet, so the
pairs come on top of what is stored.  Which puts leveldb accepts is given by their
number.

* `bootstrap_puts`: for every file the loop ends, with the maximal runs between blanks put
  two by two up to the first rejected put; a last one without a partner is dropped;
* `bootstrap_round_trip_iff`: a file of lines "key value" is read back as it was written
  exactly if no key and no value is empty or has a blank in it.
-/
import RecommEngine.Theory.ByteStream
import RecommEngine.Theory.MaximalRuns

namespace RecommEngine.DictBootstrap

set_option autoImplicit false

open Theory.MaximalRuns
open Theory.ByteStream (Bytes)

/-! ## Words from a stream -/

/-- `isspace` in the C locale. -/
def isSpace (b : UInt8) : Bool := b == 32 || (9 ≤ b && b ≤ 13)

structure WordStream where
  rest : Bytes
  eof : Bool := false
  fail : Bool := false

/-- `std::fstream fin(filename)`; `none` is a file that cannot be opened. -/
def WordStream.opened : Option Bytes → WordStream
  | some file => { rest := file }
  | none => { rest := [], fail := true }

/-- `fin >> target`.  A stream at its end, or one that finds only blanks, fails and leaves
the target as it is. -/
def WordStream.extract (s : WordStream) (target : Bytes) : WordStream × Bytes :=
  if s.eof || s.fail then ({ s with fail := true }, target)
  else
    let rest := s.rest.dropWhile isSpace
    if rest.isEmpty then ({ rest := [], eof := true, fail := true }, target)
    else
      let tail := rest.dropWhile fun b => !isSpace b
      ({ rest := tail, eof := tail.isEmpty }, rest.takeWhile fun b => !isSpace b)

/-! ## Bootstrap -/

structure Loop where
  fin : WordStream
  key : Bytes := []
  value : Bytes := []
  /-- What was put, in its order. -/
  puts : List (Bytes × Bytes) := []

/-- The loop, at most so many rounds: what it returns, and what was put. -/
def bootstrapFor (accepts : Nat → Bool) : Nat → Loop → Option (Bool × List (Bytes × Bytes))
  | 0, _ => none
  | rounds + 1, s =>
      let key := s.fin.extract s.key
      let value := key.1.extract s.value
      if value.1.fail then some (true, s.puts)
      else if accepts s.puts.length then
        bootstrapFor accepts rounds
          { fin := value.1, key := key.2, value := value.2, puts := s.puts ++ [(key.2, value.2)] }
      else some (false, s.puts)

def bootstrap (accepts : Nat → Bool) (rounds : Nat) (file : Option Bytes) :
    Option (Bool × List (Bytes × Bytes)) :=
  bootstrapFor accepts rounds { fin := .opened file }

/-! ## The words of a file -/

def words (file : Bytes) : List Bytes := (file.splitOnP isSpace).filter fun word => !word.isEmpty

/-- Two by two; the last may be left over. -/
def pairs : List Bytes → List (Bytes × Bytes)
  | key :: value :: rest => (key, value) :: pairs rest
  | _ => []

def IsWord (word : Bytes) : Prop := word ≠ [] ∧ ∀ b ∈ word, ¬ isSpace b = true

@[simp] theorem words_nil : words [] = [] := rfl

theorem words_of_free {seg : Bytes} (free : ∀ b ∈ seg, ¬ isSpace b = true) :
    words seg = if seg.isEmpty then [] else [seg] := by
  rw [words, List.splitOnP_eq_singleton (by simpa using free)]
  cases seg <;> rfl

theorem words_append_cons {seg : Bytes} (free : ∀ b ∈ seg, ¬ isSpace b = true) {b : UInt8}
    (space : isSpace b = true) (rest : Bytes) :
    words (seg ++ b :: rest) = (if seg.isEmpty then [] else [seg]) ++ words rest := by
  rw [words, List.splitOnP_append_cons_of_forall_mem (by simpa using free) b space]
  cases seg <;> rfl

theorem words_cons_space {b : UInt8} (space : isSpace b = true) (rest : Bytes) :
    words (b :: rest) = words rest := by
  have atFront := words_append_cons (by simp : ∀ a ∈ ([] : Bytes), ¬ isSpace a = true) space rest
  simpa using atFront

theorem words_dropWhile (file : Bytes) : words (file.dropWhile isSpace) = words file := by
  induction file with
  | nil => rfl
  | cons b rest ih =>
      by_cases space : isSpace b = true
      · rw [List.dropWhile_cons_of_pos space, ih, words_cons_space space]
      · rw [List.dropWhile_cons_of_neg space]

/-- A word comes first if a blank or the end is behind it. -/
theorem words_append {word rest : Bytes} (isWord : IsWord word)
    (ends : ∀ b ∈ rest.head?, isSpace b = true) : words (word ++ rest) = word :: words rest := by
  have filled : word.isEmpty = false := by simpa using isWord.1
  cases rest with
  | nil => rw [List.append_nil, words_of_free isWord.2, filled]; rfl
  | cons b rest =>
      have space : isSpace b = true := ends b rfl
      rw [words_append_cons isWord.2 space, words_cons_space space, filled]
      rfl

/-- Where the skipping of other characters stops. -/
theorem blank_behind (file : Bytes) :
    ∀ b ∈ (file.dropWhile fun b => !isSpace b).head?, isSpace b = true := by
  intro b first
  have stops := List.head?_dropWhile_not (fun b => !isSpace b) file
  rw [Option.mem_def.mp first] at stops
  simpa using stops

/-- The first stretch without a blank, and what is behind it. -/
theorem exists_split (file : Bytes) :
    ∃ seg rest, file = seg ++ rest ∧ (∀ b ∈ seg, ¬ isSpace b = true) ∧
      ∀ b ∈ rest.head?, isSpace b = true := by
  refine ⟨file.takeWhile fun b => !isSpace b, file.dropWhile fun b => !isSpace b,
    List.takeWhile_append_dropWhile.symm, ?_, blank_behind file⟩
  intro b inside
  simpa using List.mem_takeWhile_imp inside

theorem runs_words (file : Bytes) : Runs (fun b => isSpace b = true) file (words file) := by
  induction size : file.length using Nat.strong_induction_on generalizing file with
  | _ n ih =>
      obtain ⟨seg, rest, rfl, free, ends⟩ := exists_split file
      cases rest with
      | nil =>
          rw [List.append_nil, words_of_free free]
          exact runs_of_free free
      | cons b rest =>
          have space : isSpace b = true := ends b rfl
          rw [words_append_cons free space]
          exact (ih rest.length (by simp at size; omega) rest rfl).append_cons free space

theorem isWord_of_mem {file word : Bytes} (inside : word ∈ words file) : IsWord word :=
  (runs_words file).spec inside

theorem mem_of_pairs : ∀ {l : List Bytes} {pair : Bytes × Bytes}, pair ∈ pairs l →
    pair.1 ∈ l ∧ pair.2 ∈ l
  | [], _, inside => by cases inside
  | [_], _, inside => by cases inside
  | key :: value :: rest, pair, inside => by
      rcases List.mem_cons.mp inside with rfl | later
      · simp
      · have both := mem_of_pairs later
        simp [both.1, both.2]

/-! ## What one extraction does -/

/-- A stream that has not failed; at its end nothing is left of it. -/
structure Ready (s : WordStream) : Prop where
  fine : s.fail = false
  atEnd : s.eof = true → s.rest = []

theorem ready_opened (file : Bytes) : Ready (.opened (some file)) where
  fine := rfl
  atEnd := by
    intro ended
    cases ended

/-- The first word of what does not start with a blank. -/
theorem isWord_takeWhile {rest : Bytes} (filled : rest ≠ [])
    (starts : rest.dropWhile isSpace = rest) : IsWord (rest.takeWhile fun b => !isSpace b) := by
  constructor
  · cases rest with
    | nil => exact absurd rfl filled
    | cons b rest =>
        have word : isSpace b = false := by
          by_contra space
          rw [Bool.not_eq_false] at space
          rw [List.dropWhile_cons_of_pos space] at starts
          have shorter := (List.dropWhile_sublist isSpace (l := rest)).length_le
          rw [starts, List.length_cons] at shorter
          omega
        simp [word]
  · intro b inside
    simpa using List.mem_takeWhile_imp inside

theorem words_split {rest : Bytes} (filled : rest ≠ []) (starts : rest.dropWhile isSpace = rest) :
    words rest = rest.takeWhile (fun b => !isSpace b) ::
      words (rest.dropWhile fun b => !isSpace b) := by
  have word := isWord_takeWhile filled starts
  calc words rest = words (rest.takeWhile (fun b => !isSpace b) ++
        rest.dropWhile fun b => !isSpace b) := by rw [List.takeWhile_append_dropWhile]
    _ = _ := words_append word (blank_behind rest)

theorem extract_failed {s : WordStream} (failed : s.fail = true) (target : Bytes) :
    (s.extract target).1.fail = true := by
  simp [WordStream.extract, failed]

/-- Without a word left an extraction fails. -/
theorem extract_nil {s : WordStream} (ready : Ready s) (target : Bytes)
    (nothing : words s.rest = []) : (s.extract target).1.fail = true := by
  by_cases ended : s.eof = true
  · simp [WordStream.extract, ended]
  · have dropped : s.rest.dropWhile isSpace = [] := by
      by_contra filled
      have first := words_split filled (List.dropWhile_idempotent isSpace s.rest)
      rw [words_dropWhile, nothing] at first
      cases first
    simp [WordStream.extract, ended, ready.fine, dropped]

/-- **What an extraction does**: it takes the next word and leaves the others. -/
theorem extract_cons {s : WordStream} (ready : Ready s) (target : Bytes) {word : Bytes}
    {more : List Bytes} (split : words s.rest = word :: more) :
    (s.extract target).2 = word ∧ Ready (s.extract target).1 ∧
      words (s.extract target).1.rest = more := by
  have going : s.eof = false := by
    by_contra ended
    rw [Bool.not_eq_false] at ended
    rw [ready.atEnd ended] at split
    cases split
  have filled : s.rest.dropWhile isSpace ≠ [] := by
    intro none_
    rw [← words_dropWhile, none_] at split
    cases split
  have first := words_split filled (List.dropWhile_idempotent isSpace s.rest)
  rw [words_dropWhile, split] at first
  obtain ⟨rfl, rfl⟩ := List.cons.inj first
  have taken : s.extract target =
      ({ rest := (s.rest.dropWhile isSpace).dropWhile fun b => !isSpace b,
         eof := ((s.rest.dropWhile isSpace).dropWhile fun b => !isSpace b).isEmpty },
        (s.rest.dropWhile isSpace).takeWhile fun b => !isSpace b) := by
    simp [WordStream.extract, going, ready.fine, filled]
  rw [taken]
  exact ⟨rfl, ⟨rfl, fun ended => List.isEmpty_iff.mp ended⟩, rfl⟩

/-! ## The loop -/

/-- Two extractions in a row, of the key and of the value. -/
theorem extract_pair {s : WordStream} (ready : Ready s) (key value : Bytes) :
    (pairs (words s.rest) = [] → ((s.extract key).1.extract value).1.fail = true) ∧
      ∀ pair more, pairs (words s.rest) = pair :: more →
        (s.extract key).2 = pair.1 ∧ ((s.extract key).1.extract value).2 = pair.2 ∧
          Ready ((s.extract key).1.extract value).1 ∧
            pairs (words ((s.extract key).1.extract value).1.rest) = more := by
  rcases left : words s.rest with _ | ⟨first, _ | ⟨second, rest⟩⟩
  · refine ⟨fun _ => extract_failed (extract_nil ready key left) value, ?_⟩
    intro pair more split
    cases split
  · obtain ⟨-, ready', left'⟩ := extract_cons ready key left
    refine ⟨fun _ => extract_nil ready' value left', ?_⟩
    intro pair more split
    cases split
  · obtain ⟨same, ready', left'⟩ := extract_cons ready key left
    obtain ⟨same', ready'', left''⟩ := extract_cons ready' value left'
    constructor
    · intro none_
      cases none_
    intro pair more split
    obtain ⟨rfl, rfl⟩ := List.cons.inj split
    exact ⟨same, same', ready'', by rw [left'']⟩

/-- The rounds from some round on: `todo` is what the words left are in pairs. -/
theorem bootstrapFor_spec (accepts : Nat → Bool) (todo : List (Bytes × Bytes)) :
    ∀ s : Loop, Ready s.fin → pairs (words s.fin.rest) = todo →
      ∃ n ≤ todo.length, (∀ i < n, accepts (s.puts.length + i) = true) ∧
        (n < todo.length → accepts (s.puts.length + n) = false) ∧
        ∀ rounds, todo.length < rounds → bootstrapFor accepts rounds s =
          some (decide (n = todo.length), s.puts ++ todo.take n) := by
  induction todo with
  | nil =>
      intro s ready left
      refine ⟨0, Nat.le_refl 0, by simp, by simp, ?_⟩
      rintro (_ | rounds) enough
      · omega
      · simp [bootstrapFor, (extract_pair ready s.key s.value).1 left]
  | cons pair todo ih =>
      intro s ready left
      obtain ⟨key, value, ready', left'⟩ :=
        (extract_pair ready s.key s.value).2 pair todo left
      cases accepted : accepts s.puts.length with
      | false =>
          refine ⟨0, Nat.zero_le _, by simp, fun _ => by simpa using accepted, ?_⟩
          rintro (_ | rounds) enough
          · omega
          · simp [bootstrapFor, ready'.fine, accepted]
      | true =>
          obtain ⟨n, le, before, at_, ends⟩ := ih
            { fin := ((s.fin.extract s.key).1.extract s.value).1,
              key := (s.fin.extract s.key).2,
              value := ((s.fin.extract s.key).1.extract s.value).2,
              puts := s.puts ++ [((s.fin.extract s.key).2,
                ((s.fin.extract s.key).1.extract s.value).2)] } ready' left'
          refine ⟨n + 1, by simpa using le, ?_, ?_, ?_⟩
          · rintro (_ | i) less
            · simpa using accepted
            · have := before i (by omega)
              simpa [Nat.add_assoc, Nat.add_comm 1] using this
          · intro less
            have := at_ (by simpa using less)
            simpa [Nat.add_assoc, Nat.add_comm 1] using this
          · rintro (_ | rounds) enough
            · omega
            · rw [bootstrapFor]
              simp only [ready'.fine, accepted, Bool.false_eq_true, if_false, if_true]
              rw [ends rounds (by simpa using enough)]
              simp [key, value]

/-- More rounds than needed change nothing. -/
theorem bootstrapFor_mono {accepts : Nat → Bool} {result : Bool × List (Bytes × Bytes)} :
    ∀ {rounds more : Nat} {s : Loop}, bootstrapFor accepts rounds s = some result →
      rounds ≤ more → bootstrapFor accepts more s = some result
  | 0, _, _, returned, _ => by cases returned
  | rounds + 1, 0, _, _, le => absurd le (by omega)
  | rounds + 1, more + 1, s, returned, le => by
      rw [bootstrapFor] at returned ⊢
      split
      · rwa [if_pos ‹_›] at returned
      · rw [if_neg ‹_›] at returned
        split
        · rw [if_pos ‹_›] at returned
          exact bootstrapFor_mono returned (by omega)
        · rwa [if_neg ‹_›] at returned

theorem bootstrap_words (accepts : Nat → Bool) (file : Bytes) :
    ∃ n ≤ (pairs (words file)).length, (∀ i < n, accepts i = true) ∧
      (n < (pairs (words file)).length → accepts n = false) ∧
      ∀ rounds, (pairs (words file)).length < rounds → bootstrap accepts rounds (some file) =
        some (decide (n = (pairs (words file)).length), (pairs (words file)).take n) := by
  obtain ⟨n, le, before, at_, ends⟩ :=
    bootstrapFor_spec accepts (pairs (words file)) { fin := .opened (some file) }
      (ready_opened file) rfl
  refine ⟨n, le, by simpa using before, ?_, ends⟩
  intro less
  simpa using at_ less

/-- **Bootstrap ends for every file.**  The pairs of the file are put in order up to the
first that is rejected, and the return value says whether all were put.  A file that
cannot be opened is one without words. -/
theorem bootstrap_puts (accepts : Nat → Bool) (file : Option Bytes) :
    ∃ runs, Runs (fun b => isSpace b = true) (file.getD []) runs ∧
      ∃ n ≤ (pairs runs).length, (∀ i < n, accepts i = true) ∧
        (n < (pairs runs).length → accepts n = false) ∧
        ∀ rounds, (pairs runs).length < rounds → bootstrap accepts rounds file =
          some (decide (n = (pairs runs).length), (pairs runs).take n) := by
  refine ⟨words (file.getD []), runs_words _, ?_⟩
  cases file with
  | none =>
      refine ⟨0, Nat.le_refl 0, by simp, by simp [pairs], ?_⟩
      rintro (_ | rounds) enough
      · omega
      · simp [bootstrap, bootstrapFor, WordStream.opened, WordStream.extract, pairs]
  | some file => exact bootstrap_words accepts file

/-! ## Files of lines "key value" -/

def lineOf (entry : Bytes × Bytes) : Bytes := entry.1 ++ 32 :: (entry.2 ++ [10])

theorem words_lineOf {entry : Bytes × Bytes} (key : IsWord entry.1) (value : IsWord entry.2)
    (rest : Bytes) : words (lineOf entry ++ rest) = entry.1 :: entry.2 :: words rest := by
  rw [lineOf, List.append_assoc, List.cons_append, words_append key (by simp [isSpace]),
    words_cons_space (by simp [isSpace]), List.append_assoc, words_append value (by simp [isSpace]),
    List.singleton_append, words_cons_space (by simp [isSpace])]

theorem pairs_lines {entries : List (Bytes × Bytes)}
    (fine : ∀ entry ∈ entries, IsWord entry.1 ∧ IsWord entry.2) :
    pairs (words (entries.flatMap lineOf)) = entries := by
  induction entries with
  | nil => rfl
  | cons entry entries ih =>
      obtain ⟨key, value⟩ := fine entry (by simp)
      rw [List.flatMap_cons, words_lineOf key value, pairs,
        ih fun later inside => fine later (by simp [inside])]

/-- **A file of lines is read back exactly if its keys and values are words.** -/
theorem bootstrap_round_trip_iff (entries : List (Bytes × Bytes)) :
    (∃ rounds, bootstrap (fun _ => true) rounds (some (entries.flatMap lineOf)) =
        some (true, entries)) ↔
      ∀ entry ∈ entries, IsWord entry.1 ∧ IsWord entry.2 := by
  obtain ⟨n, le, -, rejected, ends⟩ :=
    bootstrap_words (fun _ => true) (entries.flatMap lineOf)
  have all : n = (pairs (words (entries.flatMap lineOf))).length := by
    by_contra short
    cases rejected (lt_of_le_of_ne le short)
  subst all
  simp only [decide_true, List.take_length] at ends
  constructor
  · rintro ⟨rounds, returned⟩ entry inside
    -- with enough rounds it returns the same, and what it puts are pairs of words
    have enough := bootstrapFor_mono returned (Nat.le_add_right rounds
      ((pairs (words (entries.flatMap lineOf))).length + 1))
    have same := (ends _ (by omega)).symm.trans enough
    obtain ⟨-, same⟩ := Prod.mk.inj (Option.some.inj same)
    rw [← same] at inside
    have both := mem_of_pairs inside
    exact ⟨isWord_of_mem both.1, isWord_of_mem both.2⟩
  · intro fine
    refine ⟨_, (ends _ (Nat.lt_succ_self _)).trans ?_⟩
    rw [pairs_lines fine]

end RecommEngine.DictBootstrap
