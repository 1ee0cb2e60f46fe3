/-
The files that a run can see, and the paths that lead to them. A path that begins with a slash is
followed from the root and any other one from the working directory. The machine may refuse to look
into a directory, and to read or write a file. There are no links.
-/
import StackBridge.SortedMap

namespace StackBridge

/-- Why a file could not be read or written. -/
inductive FileFault where
  | notFound
  | isDirectory
  | notDirectory
  | refused
  /-- The bytes are not UTF-8. -/
  | notText
  /-- Any other fault, in the words of the machine. -/
  | other (words : String)
deriving DecidableEq, Repr

def FileFault.message : FileFault → String
  | .notFound => "No such file or directory (os error 2)"
  | .isDirectory => "Is a directory (os error 21)"
  | .notDirectory => "Not a directory (os error 20)"
  | .refused => "Permission denied (os error 13)"
  | .notText => "stream did not contain valid UTF-8"
  | .other words => words

/-- A place among the files: the names on the way to it from the root, the last one first. -/
abbrev Location := List String

/-- What a run does at a place. -/
inductive Access where
  /-- Looking for a name in a directory. -/
  | search
  | read
  | write
deriving DecidableEq, Repr

/-- The machine around the files: where a run works, and what fails there. -/
structure Host where
  workingDirectory : Location := ["work"]
  fault? : Access → Location → Option FileFault := fun _ _ => none

/-- The path of a place, from the working directory if the place is below it. -/
def Host.pathOf (host : Host) (location : Location) : String :=
  if host.workingDirectory <:+ location then
    let depth := location.length - host.workingDirectory.length
    "/".intercalate (location.take depth).reverse
  else "/" ++ "/".intercalate location.reverse

/-- Where the names of a path are followed from. -/
def Host.startOf (host : Host) (path : String) : Location :=
  if path.startsWith "/" then [] else host.workingDirectory

/-- The files of a machine by their paths. A directory exists as long as a file or the working
directory is below it. -/
structure FileTree (host : Host := {}) where
  files : SortedMap ByteArray

namespace FileTree

variable {host : Host}

/-- What is found at a place. -/
inductive Entry where
  | file (bytes : ByteArray)
  | directory
  | absent

/-- Whether there is a file below a path. -/
def anyBelow (tree : FileTree host) (path : String) : Bool :=
  tree.files.entries.any fun file => (path ++ "/").isPrefixOf file.1

def entry (tree : FileTree host) (location : Location) : Entry :=
  if location <:+ host.workingDirectory then .directory
  else
    match tree.files.get? (host.pathOf location) with
    | some bytes => .file bytes
    | none => if tree.anyBelow (host.pathOf location) then .directory else .absent

/-- Where a name leads from a directory. The root is above itself. -/
def step (location : Location) (name : String) : Location :=
  if name = "" || name = "." then location
  else if name = ".." then location.tail
  else name :: location

/-- Take one step. A name is looked for in a directory; an empty one only asks that there is a
directory. -/
def pass (tree : FileTree host) (location : Location) (name : String) :
    Except FileFault Location :=
  match tree.entry location with
  | .file _ => throw .notDirectory
  | .absent => throw .notFound
  | .directory =>
      match if name = "" then none else host.fault? .search location with
      | some fault => throw fault
      | none => return step location name

/-- Take the steps that some names say. -/
def walk (tree : FileTree host) (location : Location) (names : List String) :
    Except FileFault Location :=
  names.foldlM tree.pass location

def locate (tree : FileTree host) (path : String) : Except FileFault Location :=
  if path = "" then throw .notFound
  else tree.walk (host.startOf path) (path.splitOn "/")

def exists? (tree : FileTree host) (path : String) : Bool :=
  match tree.locate path with
  | .ok location =>
      match tree.entry location with
      | .absent => false
      | .file _ | .directory => true
  | .error _ => false

def read (tree : FileTree host) (path : String) : Except FileFault ByteArray := do
  let location ← tree.locate path
  match tree.entry location, host.fault? .read location with
  | .absent, _ => throw .notFound
  | _, some fault => throw fault
  | .directory, none => throw .isDirectory
  | .file bytes, none => return bytes

def readText (tree : FileTree host) (path : String) : Except FileFault String := do
  match String.fromUTF8? (← tree.read path) with
  | some text => return text
  | none => throw .notText

/-- The tree with new bytes in a file, which need not have existed. A path that ends with a slash
names a directory. -/
def write (tree : FileTree host) (path : String) (bytes : ByteArray) :
    Except FileFault (FileTree host) := do
  let location ← tree.locate (String.ofList (path.toList.reverse.dropWhile (· = '/')).reverse)
  if path.toList.getLast? = some '/' then throw .isDirectory
  else
    match tree.entry location, host.fault? .write location with
    | .directory, _ => throw .isDirectory
    | _, some fault => throw fault
    | _, none => return ⟨tree.files.insert (host.pathOf location) bytes⟩

end FileTree

end StackBridge
