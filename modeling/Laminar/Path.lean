/-!
# Paths

Paths are texts whose parts stand between slashes; one that begins with a slash is absolute.
Joining keeps both texts as they are.
-/

namespace Laminar.Path

/-- A path begins at the root of the file system. -/
def isAbsolute (path : String) : Bool :=
  path.toList.head? == some '/'

/-- The path of `name` within `base`; an absolute name stands for itself. -/
def join (base name : String) : String :=
  if isAbsolute name then name
  else if base.toList.getLast?.all (· == '/') then base ++ name
  else base ++ "/" ++ name

end Laminar.Path
