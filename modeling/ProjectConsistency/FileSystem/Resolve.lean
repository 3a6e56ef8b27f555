import ProjectConsistency.FileSystem.Node
import ProjectConsistency.FileSystem.OsError
import ProjectConsistency.Text.Split

/-!
# Finding what a path names

A path leads from the top of the tree, or from the current directory, through its names one by one.
A dot stays, two dots lead to the parent, and a link leads to where its target leads. At most forty
links are followed. A slash at the end asks for a directory.

- `WriteFault`: why a new file does not take all that is written to it.
- `FileSystem`: a tree, the current directory, and which new files have a fault.
- `Target`: a node, or a name in a directory at which there is nothing.
- `follow`: the names of a path from a directory on.
- `FileSystem.resolve`: what a path names.
- `FileSystem.parentOf`: the directory that holds the last name of a path.
-/

namespace ProjectConsistency

/-- Why a new file does not take all that is written to it, and how many bytes it takes. -/
structure WriteFault where
  taken : Nat
  reason : OsError

/-- A tree and the current directory. -/
structure FileSystem where
  tree : Node := .directory []
  current : Location := []
  /-- Where a new file has a fault: the disk may be full, or a quota used up. -/
  fault? : Location → Option WriteFault := fun _ => none

/-- What a path names: a node, or a name in a directory at which there is nothing. -/
inductive Target where
  | found (at' : Location) (node : Node)
  | free (directory : Location) (name : String)

namespace FileSystem

/-! ## Paths in parts -/

/-- The names of a path between its slashes, without empty ones. -/
def namesOf (path : String) : List String :=
  ((Text.splitOn '/' path.toList).filter fun name => !name.isEmpty).map String.ofList

def fromTop (path : String) : Bool :=
  path.toList.head? = some '/'

/-- The path ends with a slash after a name. -/
def asksDirectory (path : String) : Bool :=
  path.toList.getLast? = some '/' && !(namesOf path).isEmpty

/-- The longest name in bytes. -/
def nameLimit : Nat := 255

/-- The first length of a path in bytes that is too long. -/
def pathLimit : Nat := 4096

/-- Refuses a path before anything is looked up. -/
def checkPath (path : String) : Except OsError Unit :=
  if path.toList.contains (Char.ofNat 0) then .error .nulInName
  else if path.isEmpty then .error .notFound
  else if pathLimit ≤ path.utf8ByteSize then .error .nameTooLong
  else .ok ()

/-! ## Following names -/

/-- The most links that are followed on the way. -/
def linkLimit : Nat := 40

/--
Follows names from a directory on. A link at the end is followed only if `last` asks for it; `jump`
goes on after a link, from a location with the names that are left.
-/
def followNames (tree : Node) (last : Bool)
    (jump : Location → List String → Except OsError Target) (at' : Location) :
    List String → Except OsError Target
  | [] =>
      match tree.get? at' with
      | some node => .ok (.found at' node)
      | none => .error .notFound
  | name :: rest =>
      match tree.get? at' with
      | some (.directory entries) =>
          if name = "." then followNames tree last jump at' rest
          else if name = ".." then followNames tree last jump at'.dropLast rest
          else if nameLimit < name.utf8ByteSize then .error .nameTooLong
          else match Assoc.find? name entries with
            | none => if rest.isEmpty then .ok (.free at' name) else .error .notFound
            | some (.link target) =>
                if rest.isEmpty && !last then .ok (.found (at' ++ [name]) (.link target))
                else
                  let slash := if asksDirectory target then ["."] else []
                  jump (if fromTop target then [] else at') (namesOf target ++ slash ++ rest)
            | some _ => followNames tree last jump (at' ++ [name]) rest
      | _ => .error .notDirectory

/-- Follows names from a directory on, through at most `links` links. -/
def follow (tree : Node) (last : Bool) : Nat → Location → List String → Except OsError Target
  | 0 => followNames tree last fun _ _ => .error .tooManyLinks
  | links + 1 => followNames tree last (follow tree last links)

/-! ## Paths -/

variable (fs : FileSystem)

/-- The directory from which a path leads. -/
def start (path : String) : Location :=
  if fromTop path then [] else fs.current

/-- What a path names; a link at its end is followed if `last` asks for it. -/
def resolve (last : Bool) (path : String) : Except OsError Target := do
  checkPath path
  let slash := if asksDirectory path then ["."] else []
  follow fs.tree last linkLimit (fs.start path) (namesOf path ++ slash)

def locate (last : Bool) (path : String) : Except OsError (Location × Node) := do
  match ← fs.resolve last path with
  | .found at' node => return (at', node)
  | .free _ _ => throw .notFound

/-- The last part of a path. -/
inductive LastName where
  /-- A name, and whether a slash follows it. -/
  | name (s : String) (slash : Bool)
  /-- A dot, two dots, or the top of the tree. -/
  | special

/-- The directory that holds the last part of a path, and that part. -/
def parentOf (path : String) : Except OsError (Location × LastName) := do
  checkPath path
  let names := namesOf path
  match ← follow fs.tree true linkLimit (fs.start path) names.dropLast with
  | .found at' (.directory _) =>
      match names.getLast? with
      | none => return (at', .special)
      | some s =>
          if s = "." || s = ".." then return (at', .special)
          else return (at', .name s (asksDirectory path))
  | .found _ _ => throw .notDirectory
  | .free _ _ => throw .notFound

end FileSystem

end ProjectConsistency
