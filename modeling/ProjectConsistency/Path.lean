import ProjectConsistency.Text.Split

/-!
# Paths as texts

Names in a path are separated by slashes. An empty name counts only before a leading slash, where it
stands for the root, and a single dot only at the start of a relative path.

- `Path.Component`, `Path.components`: the parts of a path that count.
- `Path.join`: a path below another; an absolute path replaces it.
- `Path.fileName?`, `Path.extension?`: the last name, and its part after the last dot.
- `Path.parent?`: the path without its last component, as it is written.
-/

namespace ProjectConsistency
namespace Path

inductive Component where
  | root
  | current
  | parent
  | name (s : String)
  deriving DecidableEq, Repr

def isAbsolute (path : String) : Bool :=
  path.toList.head? = some '/'

/-- A path below another. -/
def join (base path : String) : String :=
  if isAbsolute path || base.isEmpty then path
  else if base.toList.getLast? = some '/' then base ++ path
  else base ++ "/" ++ path

/-- The texts between the slashes of a path. -/
def pieces (path : String) : List (List Char) :=
  Text.splitOn '/' path.toList

/-- A piece after the first counts. -/
def counts (piece : List Char) : Bool :=
  !piece.isEmpty && piece ≠ ['.']

def ofPiece (piece : List Char) : Component :=
  if piece = ['.', '.'] then .parent else .name (String.ofList piece)

/-- The parts of a path that count. -/
def components (path : String) : List Component :=
  match pieces path with
  | [] => []
  | first :: rest =>
      let inner := (rest.filter counts).map ofPiece
      if first.isEmpty then if isAbsolute path then .root :: inner else inner
      else if first = ['.'] then .current :: inner
      else ofPiece first :: inner

def fileName? (path : String) : Option String :=
  match (components path).getLast? with
  | some (.name s) => some s
  | _ => none

/-- The last name up to its last dot, unless the name begins with its only dot. -/
def splitExtension (name : String) : String × Option String :=
  match Text.splitLast '.' name.toList with
  | some (stem, ext) =>
      if stem.isEmpty then (name, none) else (String.ofList stem, some (String.ofList ext))
  | none => (name, none)

def extension? (path : String) : Option String :=
  (fileName? path).bind fun name => (splitExtension name).2

/-- Drops pieces that do not count from the end of the pieces after the first, last piece first. -/
def trimBack (back : List (List Char)) : List (List Char) :=
  back.dropWhile fun piece => !counts piece

def ofPieces (first : List Char) (rest : List (List Char)) : String :=
  if first.isEmpty && rest.isEmpty then "/" else String.ofList (['/'].intercalate (first :: rest))

def parent? (path : String) : Option String :=
  match pieces path with
  | [] => none
  | first :: rest =>
      match trimBack rest.reverse with
      | _ :: back => some (ofPieces first (trimBack back).reverse)
      | [] => if first.isEmpty then none else some ""

end Path
end ProjectConsistency
