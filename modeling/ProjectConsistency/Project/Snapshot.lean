import ProjectConsistency.Naming.Convert
import ProjectConsistency.Path
import ProjectConsistency.Project.ConfigFile
import ProjectConsistency.Project.FileType
import ProjectConsistency.Project.ProjectType

/-!
# Snapshots

A snapshot describes a project tree at one moment. All paths are relative to the root, with slashes
between the names, and stand in the order of the walk.

- `Readme`: the readme file; `Readme.isName`: the names that it can have.
- `Snapshot`: the description, and `Snapshot.empty`: of a root with nothing in it.
- `Snapshot.hasFile`, `Snapshot.hasDirectory`: look-up by path.
- `addToGroup`: adds a path to the group of its key.
-/

namespace ProjectConsistency

structure Readme where
  path : String
  content : String
  deriving DecidableEq, Repr

def Readme.isName (name : List Char) : Bool :=
  Text.eqIgnoringAsciiCase (Naming.splitStem name).1 ['r', 'e', 'a', 'd', 'm', 'e']

/-- A project tree at one moment. -/
structure Snapshot where
  root : String
  name : String
  projectType : ProjectType := .unknown
  directories : List String := []
  files : List String := []
  maxDepth : Nat := 0
  totalSize : UInt64 := 0
  /-- The files of each extension that occurs, in ascending order of the extensions. -/
  filesByExtension : List (String × List String) := []
  /-- The files of each type that occurs, in the order of the types. -/
  filesByType : List (FileType × List String) := []
  dependencies : Option Dependencies := none
  /-- The tracked configuration files at the root, by name. -/
  configFiles : List (String × ConfigFile) := []
  /-- Paths that could not be read, with the reason. -/
  unreadable : List (String × String) := []
  /-- The texts of the files whose style is checked, by path. -/
  sources : List (String × String) := []
  readme : Option Readme := none

/-- Adds a path to the end of the group of its key. Groups stay in ascending order of their keys. -/
def addToGroup {κ : Type} [LT κ] [DecidableLT κ] [DecidableEq κ] (key : κ) (path : String) :
    List (κ × List String) → List (κ × List String)
  | [] => [(key, [path])]
  | (k, paths) :: rest =>
      if k = key then (k, paths ++ [path]) :: rest
      else if key < k then (key, [path]) :: (k, paths) :: rest
      else (k, paths) :: addToGroup key path rest

def dropTrailingSlashes (path : String) : String :=
  String.ofList (path.toList.reverse.dropWhile (· = '/')).reverse

/-- The number of names in a relative path. -/
def depthOf (path : String) : Nat :=
  path.toList.count '/' + 1

namespace Snapshot

/-- The name of a project without a manifest: the last name of its root. -/
def rootName (root : String) : String :=
  (Path.fileName? root).getD "project"

def empty (root : String) : Snapshot :=
  { root, name := rootName root }

def hasFile (s : Snapshot) (path : String) : Bool :=
  s.files.contains path

/-- The directory is there; slashes at the end of the path do not matter. -/
def hasDirectory (s : Snapshot) (path : String) : Bool :=
  s.directories.contains (dropTrailingSlashes path)

end Snapshot

end ProjectConsistency
