import Laminar.Proofs.Text
import Laminar.Proofs.Toml.Text
import Laminar.Toml.Document

/-!
# Documents of keys with values

A document of lines, each with a bare key, an equals sign and a written value, is read as these keys
with these values, if no key is repeated (`read?_texts`). What is written for a value has to be
read back up to the end of the line (`Shown`), as truth values and texts are.
-/

namespace Laminar.Toml

open Laminar.Text (Word)

/-! ## Values -/

/-- How a value may be written after an equals sign: it is read back up to the end of the line, and
does not begin with space. -/
structure Shown (written : List Char) (found : Value) : Prop where
  /-- There is a first character, and it is no space. -/
  apart : ∃ first tail, written = first :: tail ∧ isSpace first = false
  /-- The value is read back. -/
  reads : ∀ rest, value (nestingLimit - 1) (written ++ '\n' :: rest) = some (found, '\n' :: rest)

/-- The word for a truth that holds. -/
theorem shown_true : Shown ['t', 'r', 'u', 'e'] (.boolean true) :=
  ⟨⟨_, _, rfl, by decide⟩, fun _ => rfl⟩

/-- The word for a truth that does not hold. -/
theorem shown_false : Shown ['f', 'a', 'l', 's', 'e'] (.boolean false) :=
  ⟨⟨_, _, rfl, by decide⟩, fun _ => rfl⟩

/-- What begins with a quote is a string. -/
theorem value_of_quote {c : Char} (quote : c = '"' ∨ c = '\'') (levels : Nat) (rest : List Char) :
    value levels (c :: rest) =
      (Text.read (c :: rest)).map fun (found, rest) => (.string (String.ofList found), rest) := by
  have scalars : value levels (c :: rest) = scalar (c :: rest) := by
    rcases quote with rfl | rfl <;> simp [value]
  rw [scalars, scalar, if_pos quote]

/-- A text is read back. -/
theorem shown_string (text : String) : Shown (Text.write text.toList) (.string text) := by
  obtain ⟨first, tail, written, quote⟩ := Text.exists_cons_of_write text.toList
  constructor
  · refine ⟨first, tail, written, ?_⟩
    rcases quote with rfl | rfl <;> decide
  · intro rest
    have unquoted : ∀ c ∈ ('\n' :: rest).head?, c ≠ '"' ∧ c ≠ '\'' := by
      rintro _ ⟨⟩
      decide
    have read := Text.read_write text.toList unquoted
    rw [written] at read ⊢
    rw [List.cons_append] at read ⊢
    rw [value_of_quote quote, read]
    simp

/-! ## Lines -/

/-- A line of a document: a key that needs no quotes, and a value that is read back as it is
written. -/
structure Line where
  /-- The key. -/
  key : String
  /-- What is written for the value. -/
  written : List Char
  /-- The value. -/
  found : Value
  /-- The key has only characters that a key may have without quotes. -/
  bare : Word isBareKey key.toList
  /-- The value is read back. -/
  shown : Shown written found

namespace Line

/-- The characters of a line. -/
def text (line : Line) : List Char :=
  line.key.toList ++ ([' ', '=', ' '] ++ (line.written ++ ['\n']))

/-- The key with its value. -/
def entry (line : Line) : String × Value :=
  (line.key, line.found)

end Line

variable {key : String} {rest : List Char}

/-- A text begins with a character of a bare key. -/
def KeyFirst (text : List Char) : Prop :=
  ∃ c ∈ text.head?, isBareKey c = true

/-- What begins with a bare key begins with none of the characters that have another meaning. -/
theorem KeyFirst.ne_cons {text : List Char} {c : Char} (first : KeyFirst text)
    (special : isBareKey c = false) : text ≠ c :: rest := by
  rintro rfl
  obtain ⟨_, ⟨⟩, bare⟩ := first
  exact Bool.false_ne_true (special.symm.trans bare)

/-- What begins with a bare key has no space to skip. -/
theorem KeyFirst.skipSpace_eq {text : List Char} (first : KeyFirst text) :
    skipSpace text = text := by
  refine Laminar.Text.dropWhile_eq_self fun c head => ?_
  obtain ⟨tail, rfl⟩ := List.head?_eq_some_iff.mp head
  have blank : c ≠ ' ' := by
    rintro rfl
    exact first.ne_cons (by decide) rfl
  have tab : c ≠ '\t' := by
    rintro rfl
    exact first.ne_cons (by decide) rfl
  simp [isSpace, blank, tab]

/-- A bare key has a first character. -/
theorem keyFirst_append {text : List Char} (bare : Word isBareKey text) (rest : List Char) :
    KeyFirst (text ++ rest) := by
  obtain ⟨c, tail, rfl⟩ := List.exists_cons_of_ne_nil bare.some
  exact ⟨c, rfl, bare.all c List.mem_cons_self⟩

/-- An item that no separator follows is the only one. -/
theorem separated_single {α : Type} {limit : Nat} {separator : Char} {item : Reader α}
    {text : List Char} {first : α} (found : item text = some (first, rest))
    (ends : ∀ c ∈ rest.head?, c ≠ separator) :
    Reader.separated limit separator item text = some ([first], rest) := by
  have apart : Reader.literal [separator] rest = none := by
    cases rest with
    | nil => rfl
    | cons c rest => simp [Reader.literal, (ends c rfl).symm]
  rw [Reader.separated, found]
  cases limit <;> simp [apart]

/-- A word is read up to the first character of another class. -/
theorem many1_word {p : Char → Bool} {text : List Char} (word : Word p text)
    (ends : ∀ c ∈ rest.head?, p c = false) : Reader.many1 p (text ++ rest) = some (text, rest) := by
  obtain ⟨taken, left⟩ := Laminar.Text.span_eq_iff.mpr ⟨word.all, ends, rfl⟩
  unfold Reader.many1
  rw [taken, left]
  split
  · next empty => exact absurd rfl word.some
  · rfl

/-- A word of the characters of bare keys is a key. -/
theorem simpleKey_bare (bare : Word isBareKey key.toList)
    (ends : ∀ c ∈ rest.head?, isBareKey c = false) :
    simpleKey (key.toList ++ rest) = some (key, rest) := by
  have first := keyFirst_append bare rest
  unfold simpleKey
  split
  · next same => exact absurd same (first.ne_cons (by decide))
  · next same => exact absurd same (first.ne_cons (by decide))
  · simp [many1_word bare ends]

/-- A bare key before an equals sign is read with the space after it. -/
theorem dottedKey_bare (bare : Word isBareKey key.toList) (rest : List Char) :
    dottedKey (key.toList ++ ' ' :: '=' :: rest) = some ([key], '=' :: rest) := by
  have simple : simpleKey (key.toList ++ ' ' :: '=' :: rest) = some (key, ' ' :: '=' :: rest) :=
    simpleKey_bare bare (by rintro _ ⟨⟩; decide)
  have spaced : spacedKey (key.toList ++ ' ' :: '=' :: rest) = some (key, '=' :: rest) := by
    rw [spacedKey, (keyFirst_append bare _).skipSpace_eq, simple]
    rfl
  rw [dottedKey, separated_single spaced (by rintro _ ⟨⟩; decide)]
  rfl

/-- A line is an entry of the document's current table. -/
theorem entryBody_text (line : Line) (rest : List Char) :
    Document.entryBody (line.text ++ rest) = some (.entry [] line.key line.found, rest) := by
  obtain ⟨first, tail, written, visible⟩ := line.shown.apart
  have dotted := dottedKey_bare line.bare (' ' :: (line.written ++ '\n' :: rest))
  have spaced : skipSpace (' ' :: (line.written ++ '\n' :: rest)) =
      line.written ++ '\n' :: rest := by
    rw [written, List.cons_append]
    exact List.dropWhile_cons_of_neg (Bool.eq_false_iff.mp visible)
  have text : line.text ++ rest =
      line.key.toList ++ ' ' :: '=' :: ' ' :: (line.written ++ '\n' :: rest) := by
    simp [Line.text]
  have pair : keyValue (value (nestingLimit - 1)) (line.text ++ rest) =
      some (([], line.key, line.found), '\n' :: rest) := by
    rw [keyValue, text, dotted]
    have ended : skipSpace ('\n' :: rest) = '\n' :: rest := rfl
    simp [splitKey, Reader.literal, spaced, line.shown.reads rest, ended]
  rw [Document.entryBody, pair]
  rfl

/-- A line begins with its key. -/
theorem Line.keyFirst (line : Line) (rest : List Char) :
    KeyFirst (line.text ++ rest) := by
  rw [Line.text, List.append_assoc]
  exact keyFirst_append line.bare _

/-- A line is read as its entry. -/
theorem line_text (line : Line) (rest : List Char) :
    Document.line (line.text ++ rest) = some (some (.entry [] line.key line.found), rest) := by
  have first := line.keyFirst rest
  have unbroken : newline (line.text ++ rest) = none := by
    unfold newline
    split
    · next same => exact absurd same (first.ne_cons (by decide))
    · next same => exact absurd same (first.ne_cons (by decide))
    · rfl
  have statement : Document.statement (line.text ++ rest) =
      some (.entry [] line.key line.found, rest) := by
    unfold Document.statement
    split
    · next same => exact absurd same (first.ne_cons (by decide))
    · next same => exact absurd same (first.ne_cons (by decide))
    · exact entryBody_text line rest
  unfold Document.line
  rw [first.skipSpace_eq]
  split
  · next same => exact absurd same (first.ne_cons (by decide))
  · simp [unbroken, statement]

/-! ## Documents -/

/-- A key that no entry has is not found. -/
theorem get?_eq_none {entries : Entries} (fresh : key ∉ entries.map Prod.fst) :
    entries.get? key = none := by
  rw [Entries.get?, Option.map_eq_none_iff, List.find?_eq_none]
  intro entry present same
  exact fresh (List.mem_map.mpr ⟨entry, present, beq_iff_eq.mp same⟩)

/-- A key that no entry has is put behind the others. -/
theorem put_eq_append {entries : Entries} (found : Value) (fresh : key ∉ entries.map Prod.fst) :
    entries.put key found = entries ++ [(key, found)] := by
  induction entries with
  | nil => rfl
  | cons entry entries later =>
    rw [List.map_cons, List.mem_cons, not_or] at fresh
    rw [Entries.put, if_neg (by simpa using Ne.symm fresh.1), later fresh.2, List.cons_append]

/-- A line with a new key adds its entry. -/
theorem add_entry {line : Line} {entries : Entries} (fresh : line.key ∉ entries.map Prod.fst) :
    Document.add ⟨⟨.header, entries⟩, []⟩ (.entry [] line.key line.found) =
      some ⟨⟨.header, entries ++ [line.entry]⟩, []⟩ := by
  simp [Document.add, Table.changeAt, Table.addAt, Table.add, Line.entry, get?_eq_none fresh,
    put_eq_append line.found fresh]

/-- The lines after one that is added are added to what it leaves. -/
theorem addLines_line {line : Line} {document next last : Document} {limit : Nat}
    (added : document.add (.entry [] line.key line.found) = some next)
    (after : Document.addLines limit next rest = some last) :
    Document.addLines (limit + 1) document (line.text ++ rest) = some last := by
  have first := line.keyFirst rest
  unfold Document.addLines
  rw [first.skipSpace_eq]
  split
  · next empty =>
    obtain ⟨c, head, -⟩ := first
    rw [empty] at head
    contradiction
  · contradiction
  · next same _ =>
    obtain rfl := Nat.succ.inj same
    simp only [line_text, Option.bind_eq_bind, Option.bind_some, added]
    exact after

/-- Lines are read one after the other, if their keys are new. -/
theorem addLines_texts {lines : List Line} {entries : Entries} {limit : Nat}
    (fresh : (entries.map Prod.fst ++ lines.map Line.key).Nodup)
    (enough : (lines.flatMap Line.text).length ≤ limit) :
    Document.addLines limit ⟨⟨.header, entries⟩, []⟩ (lines.flatMap Line.text) =
      some ⟨⟨.header, entries ++ lines.map Line.entry⟩, []⟩ := by
  induction lines generalizing entries limit with
  | nil =>
    rw [List.map_nil, List.append_nil]
    cases limit <;> rfl
  | cons line lines later =>
    have new : line.key ∉ entries.map Prod.fst := fun old =>
      (List.nodup_append.mp fresh).2.2 _ old _ (List.mem_map_of_mem List.mem_cons_self) rfl
    have still : ((entries ++ [line.entry]).map Prod.fst ++ lines.map Line.key).Nodup := by
      simpa [Line.entry] using fresh
    have long : 0 < line.text.length := by simp [Line.text]
    rw [List.flatMap_cons, List.length_append] at enough
    obtain ⟨limit, rfl⟩ : ∃ less, limit = less + 1 := ⟨limit - 1, by omega⟩
    have fewer : (lines.flatMap Line.text).length ≤ limit := by omega
    have after := addLines_line (add_entry new) (later still fewer)
    rwa [List.append_assoc, List.singleton_append] at after

/-- A document of lines whose keys are not repeated is read as their entries. -/
theorem read?_texts {lines : List Line} (distinct : (lines.map Line.key).Nodup) :
    Document.read? (String.ofList (lines.flatMap Line.text)) = some (lines.map Line.entry) := by
  have unmarked : Document.skipMark (lines.flatMap Line.text) = lines.flatMap Line.text := by
    cases lines with
    | nil => rfl
    | cons line lines =>
      have first := line.keyFirst (lines.flatMap Line.text)
      unfold Document.skipMark
      split
      · next same => exact absurd same (first.ne_cons (by decide))
      · rfl
  have fresh : (([] : Entries).map Prod.fst ++ lines.map Line.key).Nodup := distinct
  have read := addLines_texts fresh (Nat.le_refl _)
  rw [Document.read?, String.toList_ofList, String.length_ofList, unmarked, Document.empty,
    Table.empty, read]
  rfl

end Laminar.Toml
