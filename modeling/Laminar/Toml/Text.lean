import Laminar.Numeral
import Laminar.Toml.Reader

/-!
# Strings of a TOML document

A string is written in one of four styles: basic or literal, on one line or on several. Literal
styles show every character as itself, basic styles have escapes. A text is written in the first
style that shows it without escapes, or else in a basic style with them.
-/

namespace Laminar.Toml.Text

/-! ## Reading -/

/-- A character that stands for itself between double quotes. -/
def isBasic (c : Char) : Bool :=
  isPlain c && c != '"' && c != '\\'

/-- A character that stands for itself between single quotes. -/
def isLiteral (c : Char) : Bool :=
  isPlain c && c != '\''

/-- The character that a letter stands for after a backslash. -/
def escaped? : Char → Option Char
  | 'b' => some '\x08'
  | 't' => some '\t'
  | 'n' => some '\n'
  | 'f' => some '\x0c'
  | 'r' => some '\r'
  | '"' => some '"'
  | '\\' => some '\\'
  | _ => none

/-- The character whose code point is `n`. -/
def charOfCode? (n : Nat) : Option Char :=
  if n.isValidChar then some (Char.ofNat n) else none

/-- The character whose code point the first `width` characters of a text write in hexadecimal. -/
def codePoint (width : Nat) : Reader (List Char) := fun text => do
  let digits ← (text.take width).mapM (Numeral.digit? 16)
  if digits.length = width then
    let c ← charOfCode? (digits.foldl (fun value digit => value * 16 + digit) 0)
    return ([c], text.drop width)
  else none

/-- An escape and the character that it stands for. -/
def escape : Reader (List Char)
  | '\\' :: 'u' :: rest => codePoint 4 rest
  | '\\' :: 'U' :: rest => codePoint 8 rest
  | '\\' :: c :: rest => (escaped? c).map fun c => ([c], rest)
  | _ => none

/-- A line end that is escaped and so stands for nothing, with all white space after it. -/
def escapedLineEnd : Reader (List Char)
  | '\\' :: rest => (newline (skipSpace rest)).map fun (_, rest) => ([], skipLines rest)
  | _ => none

/-- A line end, however it is written, as a line feed. -/
def lineBreak : Reader (List Char) := fun text =>
  (newline text).map fun (_, rest) => (['\n'], rest)

/-- A character of a class as a piece of a string. -/
def shown (p : Char → Bool) : Reader (List Char) := fun text =>
  (Reader.one p text).map fun (c, rest) => ([c], rest)

/-- The quote that ends a string on one line. -/
def endQuote (quote : Char) : Reader (List Char)
  | [] => none
  | c :: rest => if c = quote then some ([], rest) else none

/-- Three quotes that end a string on several lines. Up to two more before them belong to the
string. -/
def endQuotes (quote : Char) : Reader (List Char)
  | a :: b :: c :: d :: e :: rest =>
    if [a, b, c] = [quote, quote, quote] then
      if d = quote then
        if e = quote then some ([quote, quote], rest) else some ([quote], e :: rest)
      else some ([], d :: e :: rest)
    else none
  | [a, b, c, d] =>
    if [a, b, c] = [quote, quote, quote] then
      if d = quote then some ([quote], []) else some ([], [d])
    else none
  | [a, b, c] => if [a, b, c] = [quote, quote, quote] then some ([], []) else none
  | _ => none

/-- A text without the line end at its beginning, if it has one. -/
def skipNewline (text : List Char) : List Char :=
  match newline text with
  | some (_, rest) => rest
  | none => text

/-- The rest of a basic string on one line, after its opening quote. -/
def basicBody : Reader (List Char) := fun text =>
  Reader.pieces (text.length + 1) (endQuote '"') (Reader.orElse (shown isBasic) escape) text

/-- The rest of a literal string on one line, after its opening quote. -/
def literalBody : Reader (List Char) := fun text =>
  Reader.pieces (text.length + 1) (endQuote '\'') (shown isLiteral) text

/-- A piece of a basic string on several lines. -/
def basicPiece : Reader (List Char) :=
  Reader.orElse (shown fun c => isBasic c || c == '"')
    (Reader.orElse escapedLineEnd (Reader.orElse escape lineBreak))

/-- A piece of a literal string on several lines. -/
def literalPiece : Reader (List Char) :=
  Reader.orElse (shown isPlain) lineBreak

/-- The rest of a basic string on several lines, after its opening quotes. -/
def basicLinesBody : Reader (List Char) := fun text =>
  Reader.pieces (text.length + 1) (endQuotes '"') basicPiece (skipNewline text)

/-- The rest of a literal string on several lines, after its opening quotes. -/
def literalLinesBody : Reader (List Char) := fun text =>
  Reader.pieces (text.length + 1) (endQuotes '\'') literalPiece (skipNewline text)

/-- A string on one line. -/
def readLine : Reader (List Char)
  | '"' :: rest => basicBody rest
  | '\'' :: rest => literalBody rest
  | _ => none

/-- A string in any style. -/
def read : Reader (List Char)
  | '"' :: '"' :: '"' :: rest => basicLinesBody rest
  | '\'' :: '\'' :: '\'' :: rest => literalLinesBody rest
  | text => readLine text

/-! ## Writing -/

/-- The styles of a string. -/
inductive Style
  | basic
  | literal
  | basicLines
  | literalLines
deriving DecidableEq

/-- The length of the longest run of `quote` in a text that follows a run of length `run`. -/
def longestRun (quote : Char) (run : Nat) : List Char → Nat
  | [] => run
  | c :: rest =>
    if c = quote then longestRun quote (run + 1) rest else max run (longestRun quote 0 rest)

/-- A control character that only an escape can show: any but the tab and the line feed. -/
def needsEscape (c : Char) : Bool :=
  c != '\n' && ! isPlain c

/-- A style shows a text without escapes. -/
def shows (text : List Char) : Style → Bool
  | .basic => ! text.any needsEscape && ! text.contains '\\' && ! text.contains '"' &&
      ! text.contains '\n'
  | .literal => ! text.any needsEscape && ! text.contains '\'' && ! text.contains '\n'
  | .basicLines => ! text.any needsEscape && ! text.contains '\\' && longestRun '"' 0 text ≤ 2
  | .literalLines => ! text.any needsEscape && longestRun '\'' 0 text ≤ 2

/-- The style that a text is written in. -/
def styleOf (text : List Char) : Style :=
  match [Style.basic, .literal, .basicLines, .literalLines].find? (shows text) with
  | some style => style
  | none => if text.contains '\n' then .basicLines else .basic

/-- The number `n` in four hexadecimal digits. -/
def fourDigits (n : Nat) : List Char :=
  [n / 4096 % 16, n / 256 % 16, n / 16 % 16, n % 16].map Numeral.upperDigit

/-- A character as it is written in a basic style; a line feed only where there are several
lines, quotes apart. -/
def writeChar (lines : Bool) (c : Char) : List Char :=
  if c = '\x08' then ['\\', 'b']
  else if c = '\t' then ['\\', 't']
  else if c = '\n' then (if lines then ['\n'] else ['\\', 'n'])
  else if c = '\x0c' then ['\\', 'f']
  else if c = '\r' then ['\\', 'r']
  else if c = '\\' then ['\\', '\\']
  else if isPlain c then [c]
  else '\\' :: 'u' :: fourDigits c.toNat

/-- The inside of a basic string. After `run` quotes in a row, and at most `allowed` of them, the
next is written with an escape. -/
def writeBasic (lines : Bool) (allowed run : Nat) : List Char → List Char
  | [] => []
  | c :: rest =>
    if c = '"' then
      if run < allowed then '"' :: writeBasic lines allowed (run + 1) rest
      else '\\' :: '"' :: writeBasic lines allowed 0 rest
    else writeChar lines c ++ writeBasic lines allowed 0 rest

/-- The line end after the opening quotes of a string on several lines, if it has line ends. -/
def openingBreak (text : List Char) : List Char :=
  if text.contains '\n' then ['\n'] else []

/-- The written form of a text in a style. -/
def writeIn (text : List Char) : Style → List Char
  | .basic => ['"'] ++ writeBasic false 0 0 text ++ ['"']
  | .literal => ['\''] ++ text ++ ['\'']
  | .basicLines =>
    ['"', '"', '"'] ++ openingBreak text ++ writeBasic true 2 0 text ++ ['"', '"', '"']
  | .literalLines => ['\'', '\'', '\''] ++ openingBreak text ++ text ++ ['\'', '\'', '\'']

/-- The written form of a text. -/
def write (text : List Char) : List Char :=
  writeIn text (styleOf text)

end Laminar.Toml.Text
