import Laminar.Host

/-!
# File trees

A file tree in memory, with the rules by which a path leads through it: an empty part or a single
dot stays where it is, two dots go up, and whatever a further part follows has to be a directory.
-/

namespace Laminar

/-- What a file holds. -/
inductive FileContent
  /-- A text. -/
  | text (content : String)
  /-- Any bytes. -/
  | bytes (content : ByteArray)
  /-- A number of zero bytes. -/
  | zeros (size : Nat)

namespace FileContent

/-- The length in bytes. -/
def length : FileContent → Nat
  | text content => content.utf8ByteSize
  | bytes content => content.size
  | zeros size => size

/-- The content as a text, if it is one. -/
def read? : FileContent → Option String
  | text content => some content
  | bytes content => String.fromUTF8? content
  | zeros size => some (String.ofList (List.replicate size '\x00'))

end FileContent

/-- A file or a directory. -/
inductive FileNode
  | directory
  | file (content : FileContent)

/-- The files and directories of a machine, by the parts of their absolute paths. The root is a
directory, and so is everything that an entry lies in. -/
structure FileTree where
  /-- The entries. -/
  entries : List (List String × FileNode)

namespace FileTree

/-- The parts of a path, empty ones included. -/
def parts (path : String) : List String :=
  (path.toList.splitOn '/').map String.ofList

/-- The parts of a path that name something. -/
def names (path : String) : List String :=
  (parts path).filter fun part => part ≠ "" ∧ part ≠ "."

/-- What is at a place. -/
def nodeAt? (tree : FileTree) (place : List String) : Option FileNode :=
  match tree.entries.find? fun entry => entry.1 == place with
  | some (_, node) => some node
  | none =>
    if place.isEmpty ∨ tree.entries.any fun entry => place.isPrefixOf entry.1 then some .directory
    else none

/-- The longest name of a file in bytes. -/
def longestName : Nat := 255

/-- Follows parts of a path from a place. -/
def follow (tree : FileTree) (place : List String) : List String → Except FileFault FileNode
  | [] =>
    match tree.nodeAt? place with
    | some node => .ok node
    | none => .error .missing
  | part :: rest =>
    match tree.nodeAt? place with
    | none => .error .missing
    | some (.file _) => .error .notDirectory
    | some .directory =>
      if part = "" ∨ part = "." then tree.follow place rest
      else if part = ".." then tree.follow place.dropLast rest
      else if longestName < part.utf8ByteSize then .error .nameTooLong
      else tree.follow (place ++ [part]) rest

/-- What a path leads to from the current directory, which is given by its parts. -/
def resolve (tree : FileTree) (directory : List String) (path : String) :
    Except FileFault FileNode :=
  if path = "" then .error .missing
  else if Path.isAbsolute path then tree.follow [] (parts path)
  else tree.follow directory (parts path)

/-- The length that directories are listed with. -/
def directoryLength : UInt64 := 4096

/-- The text at a path. -/
def read (tree : FileTree) (directory : List String) (path : String) :
    Except FileFault String := do
  match ← tree.resolve directory path with
  | .directory => .error .isDirectory
  | .file content =>
    match content.read? with
    | some text => return text
    | none => .error .notText

/-- The length of what is at a path. -/
def length (tree : FileTree) (directory : List String) (path : String) :
    Except FileFault UInt64 := do
  match ← tree.resolve directory path with
  | .directory => return directoryLength
  | .file content => return content.length.toUInt64

/-- A machine with these files. -/
def host (tree : FileTree) (directory accountHome : String)
    (environment : List (String × String)) : Host where
  read := tree.read (names directory)
  length := tree.length (names directory)
  present path := (tree.resolve (names directory) path).toBool
  environment := environment
  directory := directory
  accountHome := accountHome

end FileTree

end Laminar
