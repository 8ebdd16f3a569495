import Laminar.Settings
import Laminar.Settings.Fault
import Laminar.Text.Case

/-!
# Settings in the environment

A variable is about a setting if its name, in any case, is the common beginning and the name of
the setting. A name that goes on with a part or a number makes a collection of the setting, which
is never a value of the right sort.
-/

namespace Laminar.Settings

/-- The beginning of the names of variables, in lower case. -/
def variableStart : List Char := "finter_".toList

/-- A name with every pair of underscores, from the left, turned into a dot. -/
def dotted : List Char → List Char
  | '_' :: '_' :: rest => '.' :: dotted rest
  | c :: rest => c :: dotted rest
  | [] => []

/-- The name of a setting in the name of a variable: letters count alike in either case, and two
underscores lead to a part. -/
def settingName? (full : String) : Option (List Char) :=
  let name := (Text.lower full).toList
  if variableStart.isPrefixOf name then some (dotted (name.drop variableStart.length)) else none

/-- A character of a name without parts. -/
def isNameChar (c : Char) : Bool :=
  c.isAlphanum || c == ' ' || c == '_' || c == '-'

/-- A space or a tab. -/
def isSpace (c : Char) : Bool :=
  c == ' ' || c == '\t'

/-- The rest after a whole number in brackets, which may have spaces around it and a minus sign. -/
def afterItem? (text : List Char) : Option (List Char) :=
  let inner := text.dropWhile isSpace
  let digits := match inner with
    | '-' :: rest => rest
    | _ => inner
  match digits.takeWhile Char.isDigit, (digits.dropWhile Char.isDigit).dropWhile isSpace with
  | _ :: _, ']' :: rest => some rest
  | _, _ => none

/-- A text is a sequence of at most `limit` parts of a name. -/
def areParts (limit : Nat) (text : List Char) : Bool :=
  match limit, text with
  | _, [] => true
  | limit + 1, '.' :: rest =>
    ! (rest.takeWhile isNameChar).isEmpty && areParts limit (rest.dropWhile isNameChar)
  | limit + 1, '[' :: rest =>
    match afterItem? rest with
    | some rest => areParts limit rest
    | none => false
  | _, _ => false

/-- What a variable says about the setting `name`, if its own name is about it. -/
def aboutSetting? (name : List Char) (found : List Char) (value : String) : Option Variable :=
  let after := found.drop name.length
  if found = name then some (.text value)
  else if name.isPrefixOf found && areParts after.length after then
    match after with
    | '.' :: _ => some .parts
    | '[' :: _ => some .items
    | _ => none
  else none

/-- What the variables say about the setting `name`. Of several, the last counts. -/
def lookUp? (environment : List (String × String)) (name : String) : Option Variable :=
  (environment.filterMap fun (full, value) =>
    (settingName? full).bind fun found => aboutSetting? name.toList found value).getLast?

/-- Yes or no, in any of the usual words. -/
def truth? (word : String) : Option Bool :=
  if word = "1" ∨ word = "true" ∨ word = "on" ∨ word = "yes" then some true
  else if word = "0" ∨ word = "false" ∨ word = "off" ∨ word = "no" then some false
  else none

/-- A text with its ASCII letters in lower case. -/
def asciiLower (text : String) : String :=
  String.ofList (text.toList.map Char.toLower)

/-- What the environment says about gaps: yes or no, in words that count alike in either case. -/
def fillGapsOf (environment : List (String × String)) : Except Fault (Option Bool) :=
  match lookUp? environment "fill_gaps" with
  | none => .ok none
  | some (.text value) =>
    let word := Text.lower value
    match truth? word with
    | some b => .ok (some b)
    | none => .error (.notBoolean (.text word))
  | some found => .error (.notBoolean found)

/-- What the environment says about tags that hold no byte; anything but a text says nothing. -/
def degenerateOf (environment : List (String × String)) :
    Except Fault (Option DegeneratePolicy) :=
  match lookUp? environment "degenerate" with
  | some (.text value) =>
    match policy? (asciiLower value) with
    | some policy => .ok (some policy)
    | none => .error (.unknownPolicy (asciiLower value))
  | _ => .ok none

/-- What the environment says about the label of fragments; anything but a text says nothing. -/
def fragmentLabelOf (environment : List (String × String)) : Option String :=
  match lookUp? environment "fragment_label" with
  | some (.text value) => some value
  | _ => none

/-- The layer of the environment. -/
def Layer.ofEnvironment (environment : List (String × String)) : Except Fault Layer := do
  let fillGaps ← fillGapsOf environment
  let degenerate ← degenerateOf environment
  return ⟨fillGaps, degenerate, fragmentLabelOf environment⟩

end Laminar.Settings
