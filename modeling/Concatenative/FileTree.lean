import Concatenative.Path
import Concatenative.Record
import Concatenative.Text.Quoted

/-!
# Trees of files

A tree of files is given by the paths at which something stands, seen from the working directory.
Every directory on the way to such a path is there too. The working directory lies in a directory
of its own, about which no more is known than that a path may lead through it.

A path is walked name by name. Each name is looked up in a directory, so that a path that goes on
behind a file fails, even if only a slash follows.
-/

namespace Concatenative

/-- What stands at a path. -/
inductive FileEntry where
  /-- A file with its bytes. -/
  | file (bytes : List UInt8)
  /-- A directory. -/
  | directory
  /-- A directory or a file that may not be opened. -/
  | denied (isDirectory : Bool)
  deriving DecidableEq

/-- A path can lead on from the entry. -/
def FileEntry.isDirectory : FileEntry → Bool
  | .file _ => false
  | .directory => true
  | .denied isDirectory => isDirectory

/-- Why a file is not opened. -/
inductive OpenError where
  /-- There is nothing of that name. -/
  | missing
  /-- It may not be opened. -/
  | denied
  /-- The path leads on from something that is no directory. -/
  | notDirectory
  /-- It is a directory. -/
  | directory
  /-- The path, or a name in it, is too long. -/
  | tooLong
  /-- The path holds a null character, which no path can hold. -/
  | nullCharacter
  deriving DecidableEq

namespace OpenError

/-- The description of a refusal to open what stands under a name. -/
def message (name : String) : OpenError → String
  | missing => "[Errno 2] No such file or directory: " ++ Text.quoted name
  | denied => "[Errno 13] Permission denied: " ++ Text.quoted name
  | notDirectory => "[Errno 20] Not a directory: " ++ Text.quoted name
  | directory => "[Errno 21] Is a directory: " ++ Text.quoted name
  | tooLong => "[Errno 36] File name too long: " ++ Text.quoted name
  | nullCharacter => "embedded null byte"

/-- The refusal tells that nothing stands at the path. -/
def meansAbsent : OpenError → Bool
  | missing => true
  | notDirectory => true
  | nullCharacter => true
  | _ => false

end OpenError

/-- What stands at each of some paths from the working directory. -/
abbrev FileTree := Record FileEntry

namespace FileTree

/-- Where a walk has come to. -/
inductive Place where
  /-- At the end of some names from the working directory. -/
  | inside (names : List String)
  /-- Above the working directory. -/
  | outside
  deriving DecidableEq

/-- The directory in which a place lies. -/
def Place.parent : Place → Place
  | inside [] => outside
  | inside names => inside names.dropLast
  | outside => outside

/-- What stands at the end of some names from the working directory. -/
def entryAt? (tree : FileTree) (names : List String) : Option FileEntry :=
  match tree.find? fun (path, _) => Path.names path = names with
  | some (_, entry) => some entry
  | none =>
    if names.isEmpty || tree.any fun (path, _) => names.isPrefixOf (Path.names path) then
      some .directory
    else none

/-- The place is a directory. -/
def isDirectory (tree : FileTree) : Place → Bool
  | .inside names => (tree.entryAt? names).any FileEntry.isDirectory
  | .outside => true

/-- The place that a name has in a directory. -/
def child (tree : FileTree) (name : String) : Place → Except OpenError Place
  | .inside names =>
    if (tree.entryAt? (names ++ [name])).isSome then .ok (.inside (names ++ [name]))
    else .error .missing
  | .outside => .error .missing

/-- Go on from a place by a name. -/
def enter (tree : FileTree) (place : Place) (name : String) : Except OpenError Place :=
  if !tree.isDirectory place then .error .notDirectory
  else if Path.isIdle name then .ok place
  else if name = ".." then .ok place.parent
  else if Path.maxNameBytes < name.utf8ByteSize then .error .tooLong
  else tree.child name place

/-- The place to which a path leads. -/
def walk (tree : FileTree) (path : String) : Except OpenError Place :=
  if path.toList.contains '\x00' then .error .nullCharacter
  else if path = "" then .error .missing
  else if Path.maxBytes < path.utf8ByteSize then .error .tooLong
  else
    (Path.components path).foldlM tree.enter
      (if Path.isRooted path then .outside else .inside [])

/-- The bytes of the file at a path, or why they cannot be had. -/
def contents (tree : FileTree) (path : String) : Except OpenError (List UInt8) :=
  match tree.walk path with
  | .error error => .error error
  | .ok .outside => .error .directory
  | .ok (.inside names) =>
    match tree.entryAt? names with
    | some (.file bytes) => .ok bytes
    | some .directory => .error .directory
    | some (.denied _) => .error .denied
    | none => .error .missing

end FileTree
end Concatenative
