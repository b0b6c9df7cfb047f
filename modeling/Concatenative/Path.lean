/-!
# Paths

A path leads from a directory to a file, by names with slashes between them. Its normal form leaves
out what leads nowhere: empty names, and the name of the directory itself.
-/

namespace Concatenative
namespace Path

/-- The greatest number of bytes of a path. -/
def maxBytes : Nat := 4095

/-- The greatest number of bytes of a name in a path. -/
def maxNameBytes : Nat := 255

/-- The names between the slashes of a path; empty ones are kept. -/
def components (path : String) : List String :=
  (path.toList.splitOn '/').map String.ofList

/-- The name stays in the directory in which it is looked up. -/
def isIdle (name : String) : Bool :=
  name = "" || name = "."

/-- The names of a path that lead somewhere. -/
def names (path : String) : List String :=
  (components path).filter fun name => !isIdle name

/-- The path begins at the root and not in the working directory. -/
def isRooted (path : String) : Bool :=
  path.toList.head? = some '/'

/-- The slashes at which the normal form of a path begins: none for a path from the working
directory, and one for a path from the root, unless the path itself begins with exactly two. -/
def root (path : String) : String :=
  match path.toList.takeWhile (· = '/') with
  | [] => ""
  | ['/', '/'] => "//"
  | _ => "/"

/-- The normal form of a path. -/
def normal (path : String) : String :=
  if root path = "" && (names path).isEmpty then "."
  else root path ++ "/".intercalate (names path)

end Path
end Concatenative
