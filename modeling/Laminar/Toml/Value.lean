import Laminar.Toml.Number
import Laminar.Toml.Text

/-!
# Values of a TOML document

A value is a scalar, an array or a table. How a table came about decides what may still be added
to it: a table of dotted keys takes more of them, one that exists for the sake of a longer header
can get a header of its own, and every other table is closed to both.
-/

namespace Laminar.Toml

/-- How a table came about. -/
inductive TableForm
  /-- By its own header, or as the document itself. -/
  | header
  /-- As a part of the path of a longer header. -/
  | implied
  /-- By dotted keys. -/
  | dotted
  /-- In braces. -/
  | inline
deriving DecidableEq

/-- A value of a document. -/
inductive Value
  | string (text : String)
  | integer (n : Int)
  | float
  | dateTime
  | boolean (b : Bool)
  | array (items : List Value)
  | table (form : TableForm) (entries : List (String × Value))
  /-- The tables of a repeated header, each given by its entries. -/
  | tables (members : List (List (String × Value)))

/-- Keys with their values, in the order in which they were added. -/
abbrev Entries := List (String × Value)

/-- A table with the way it came about. -/
structure Table where
  /-- How the table came about. -/
  form : TableForm
  /-- The keys and values. -/
  entries : Entries

namespace Entries

/-- The value of a key. -/
def get? (key : String) (entries : Entries) : Option Value :=
  (entries.find? fun entry => entry.1 == key).map Prod.snd

/-- The entries with the value of a key set, in its place or as a new one at the end. -/
def put (key : String) (value : Value) : Entries → Entries
  | [] => [(key, value)]
  | entry :: rest => if entry.1 == key then (key, value) :: rest else entry :: put key value rest

end Entries

namespace Table

/-- An empty table. -/
def empty (form : TableForm) : Table :=
  ⟨form, []⟩

/-- Changes the table at a path below a table. What the path needs and does not find is added,
and `dotted` says whether the path is one of dotted keys, which may not enter a table with a
header of its own. Of the tables of a repeated header the last one is meant. -/
def changeAt (dotted : Bool) (change : Table → Option Table) : List String → Table → Option Table
  | [], table => change table
  | key :: path, table =>
    match table.entries.get? key with
    | none => do
      let inner ← changeAt dotted change path (empty (if dotted then .dotted else .implied))
      return { table with entries := table.entries.put key (.table inner.form inner.entries) }
    | some (.table form entries) =>
      if form = .inline ∨ (dotted ∧ form = .header) then none
      else do
        let inner ← changeAt dotted change path ⟨form, entries⟩
        return { table with entries := table.entries.put key (.table inner.form inner.entries) }
    | some (.tables members) => do
      let last ← members.getLast?
      let inner ← changeAt dotted change path ⟨.header, last⟩
      return { table with
        entries := table.entries.put key (.tables (members.dropLast ++ [inner.entries])) }
    | some _ => none

/-- Adds a key that is not there yet. -/
def add (key : String) (value : Value) (table : Table) : Option Table :=
  match table.entries.get? key with
  | none => some { table with entries := table.entries.put key value }
  | some _ => none

/-- Adds a key at the end of a dotted path; the table there has to be one of dotted keys unless
the path is empty. -/
def addAt (path : List String) (key : String) (value : Value) (table : Table) : Option Table :=
  table.changeAt true
    (fun inner => if path.isEmpty ∨ inner.form = .dotted then inner.add key value else none) path

/-- Opens the table of a header. -/
def openHeader (key : String) (table : Table) : Option Table :=
  match table.entries.get? key with
  | none => some { table with entries := table.entries.put key (.table .header []) }
  | some (.table .implied entries) =>
    some { table with entries := table.entries.put key (.table .header entries) }
  | some _ => none

/-- Opens one more table of a repeated header. -/
def openMember (key : String) (table : Table) : Option Table :=
  match table.entries.get? key with
  | none => some { table with entries := table.entries.put key (.tables [[]]) }
  | some (.tables members) =>
    some { table with entries := table.entries.put key (.tables (members ++ [[]])) }
  | some _ => none

end Table

/-! ## Reading values -/

/-- The number of arrays, tables or keys that may lie within each other is below this. -/
def nestingLimit : Nat := 80

/-- A character of a key without quotes. -/
def isBareKey (c : Char) : Bool :=
  ('0' ≤ c && c ≤ '9') || ('a' ≤ c && c ≤ 'z') || ('A' ≤ c && c ≤ 'Z') || c == '_' || c == '-'

/-- One part of a key. -/
def simpleKey : Reader String := fun text =>
  (match text with
    | '"' :: _ => Text.readLine text
    | '\'' :: _ => Text.readLine text
    | _ => Reader.many1 isBareKey text).map fun (key, rest) => (String.ofList key, rest)

/-- One part of a key with the space around it. -/
def spacedKey : Reader String := fun text =>
  (simpleKey (skipSpace text)).map fun (key, rest) => (key, skipSpace rest)

/-- The parts of a key. -/
def dottedKey : Reader (List String) := fun text => do
  let (path, rest) ← Reader.separated text.length '.' spacedKey text
  if path.length < nestingLimit then return (path, rest) else none

/-- The path and the last part of a key. -/
def splitKey (parts : List String) : Option (List String × String) :=
  parts.getLast?.map fun key => (parts.dropLast, key)

/-- A key, the sign after it and its value, with the space around the value. -/
def keyValue (value : Reader Value) : Reader (List String × String × Value) := fun text => do
  let (parts, rest) ← dottedKey text
  let (path, key) ← splitKey parts
  let (_, rest) ← Reader.literal ['='] rest
  let (found, rest) ← value (skipSpace rest)
  return ((path, key, found), skipSpace rest)

/-- A text without the white space and comments at its beginning, where these may go over several
lines; `limit` bounds the number of comments. -/
def skipComments (limit : Nat) (text : List Char) : List Char :=
  match limit, skipLines text with
  | limit + 1, '#' :: rest => skipComments limit (rest.dropWhile isPlain)
  | _, rest => rest

/-- An item of an array with the white space and comments around it. -/
def arrayItem (value : Reader Value) : Reader Value := fun text => do
  let (found, rest) ← value (skipComments text.length text)
  return (found, skipComments rest.length rest)

/-- A text without a comma at its beginning, if it has one. -/
def skipComma : List Char → List Char
  | ',' :: rest => rest
  | text => text

/-- The rest of an array after its opening bracket. -/
def arrayBody (value : Reader Value) : Reader Value := fun text => do
  let (items, rest) := match Reader.separated text.length ',' (arrayItem value) text with
    | some (items, rest) => (items, skipComma rest)
    | none => ([], text)
  let (_, rest) ← Reader.literal [']'] (skipComments rest.length rest)
  return (.array items, rest)

/-- The table of keys and values in braces. -/
def inlineTable (entries : List (List String × String × Value)) : Option Value := do
  let table ← entries.foldlM (fun (table : Table) (path, key, value) => table.addAt path key value)
    (Table.empty .inline)
  return .table .inline table.entries

/-- The rest of a table in braces after its opening brace. -/
def inlineBody (value : Reader Value) : Reader Value := fun text => do
  let (entries, rest) := match Reader.separated text.length ',' (keyValue value) text with
    | some (entries, rest) => (entries, rest)
    | none => ([], text)
  let table ← inlineTable entries
  let (_, rest) ← Reader.literal ['\x7d'] (skipSpace rest)
  return (table, rest)

/-- A value that begins with a digit or a sign. -/
def numberValue : Reader Value :=
  Reader.orElse (fun text => (Number.dateTime text).map fun (_, rest) => (.dateTime, rest))
    (Reader.orElse (fun text => (Number.float text).map fun (_, rest) => (.float, rest))
      fun text => (Number.integer text).map fun (n, rest) => (.integer n, rest))

/-- A value that does not contain others. -/
def scalar : Reader Value
  | [] => none
  | c :: rest =>
    let text := c :: rest
    if c = '"' ∨ c = '\'' then
      (Text.read text).map fun (found, rest) => (.string (String.ofList found), rest)
    else if c = 't' then
      (Reader.literal ['t', 'r', 'u', 'e'] text).map fun (_, rest) => (.boolean true, rest)
    else if c = 'f' then
      (Reader.literal ['f', 'a', 'l', 's', 'e'] text).map fun (_, rest) => (.boolean false, rest)
    else if c = 'i' ∨ c = 'n' then
      (Number.special text).map fun (_, rest) => (.float, rest)
    else numberValue text

/-- A value; within it there may be `levels` more arrays and tables around each other. -/
def value (levels : Nat) : Reader Value
  | '[' :: rest =>
    match levels with
    | 0 => none
    | levels + 1 => arrayBody (value levels) rest
  | '\x7b' :: rest =>
    match levels with
    | 0 => none
    | levels + 1 => inlineBody (value levels) rest
  | text => scalar text

end Laminar.Toml
