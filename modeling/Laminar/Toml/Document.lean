import Laminar.Toml.Value

/-!
# TOML documents

A document is a sequence of lines: headers, keys with values, comments and blank lines. It is read
statement by statement; each changes the document's table at the place that the last header opened.
-/

namespace Laminar.Toml

/-- A statement of a document. -/
inductive Statement
  /-- The header of a table. -/
  | header (path : List String) (key : String)
  /-- The header of one more table of a list. -/
  | member (path : List String) (key : String)
  /-- A key with its value. -/
  | entry (path : List String) (key : String) (value : Value)

/-- A document as far as it has been read. -/
structure Document where
  /-- The table of the whole document. -/
  root : Table
  /-- The path of the table that keys are added to. -/
  current : List String

namespace Document

/-- The document without statements. -/
def empty : Document :=
  ⟨.empty .header, []⟩

/-- The document after one more statement, if that is not at odds with an earlier one. -/
def add (document : Document) : Statement → Option Document
  | .header path key =>
    (document.root.changeAt false (Table.openHeader key) path).map fun root =>
      ⟨root, path ++ [key]⟩
  | .member path key =>
    (document.root.changeAt false (Table.openMember key) path).map fun root =>
      ⟨root, path ++ [key]⟩
  | .entry path key value =>
    (document.root.changeAt false (Table.addAt path key value) document.current).map fun root =>
      { document with root }

/-- A header after its opening bracket or brackets, up to the end of its line. -/
def headerBody (closing : List Char) (form : List String → String → Statement) :
    Reader Statement := fun text => do
  let (parts, rest) ← dottedKey text
  let (path, key) ← splitKey parts
  let (_, rest) ← Reader.literal closing rest
  let (_, rest) ← lineTail rest
  return (form path key, rest)

/-- A key with its value, up to the end of the line. -/
def entryBody : Reader Statement := fun text => do
  let ((path, key, value), rest) ← keyValue (value (nestingLimit - 1)) text
  let (_, rest) ← lineTail rest
  return (.entry path key value, rest)

/-- The statement at the beginning of a text that is not blank there. -/
def statement : Reader Statement
  | '[' :: '[' :: rest => headerBody [']', ']'] .member rest
  | '[' :: rest => headerBody [']'] .header rest
  | text => entryBody text

/-- Reads a line, if there is one: a statement or none. -/
def line : Reader (Option Statement) := fun text =>
  match skipSpace text with
  | '#' :: rest => (lineEnd (rest.dropWhile isPlain)).map fun (_, rest) => (none, rest)
  | text =>
    match newline text with
    | some (_, rest) => some (none, rest)
    | none => (statement text).map fun (found, rest) => (some found, rest)

/-- The document after at most `limit` more lines, which have to be all. -/
def addLines (limit : Nat) (document : Document) (text : List Char) : Option Document :=
  match limit, skipSpace text with
  | _, [] => some document
  | 0, _ => none
  | limit + 1, text => do
    let (found, rest) ← line text
    match found with
    | none => addLines limit document rest
    | some statement => addLines limit (← document.add statement) rest

/-- A text without the byte order mark at its beginning, if it has one. -/
def skipMark : List Char → List Char
  | '\ufeff' :: rest => rest
  | text => text

/-- The entries of the document that a text holds. -/
def read? (text : String) : Option Entries :=
  (addLines text.length empty (skipMark text.toList)).map fun document => document.root.entries

end Document

end Laminar.Toml
