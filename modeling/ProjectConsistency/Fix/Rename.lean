import ProjectConsistency.Failure
import ProjectConsistency.FileSystem.Operation
import ProjectConsistency.Fix.Record
import ProjectConsistency.Project.Snapshot

/-!
# Renames

Names are changed from the inside out: first the files, then the directories, the deepest first, so
that each path is still valid when its turn comes. A rename never replaces anything.

- `Renaming`: a path and the path that it is to have.
- `Renaming.plan`: the renames of a list of issues, in the order in which they are made.
- `Renaming.isTaken`: the new path is not free.
- `Renaming.runInTwoSteps`: makes a rename by way of a temporary path.
- `Renaming.run`: makes a rename in a root; `Renaming.fix`: with its record.
-/

namespace ProjectConsistency

/-- A path and the path that it is to have, relative to the project root. -/
structure Renaming where
  source : String
  target : String
  deriving DecidableEq, Repr

namespace Renaming

/-! ## The plan -/

def ofIssue? (issue : Issue) : Option Renaming :=
  match issue.category, issue.remedy with
  | .naming, some (.rename source target) => some { source, target }
  | _, _ => none

/-- The number of slashes in the path. -/
def level (r : Renaming) : Nat :=
  r.source.toList.count '/'

def concernsDirectory (s : Snapshot) (r : Renaming) : Bool :=
  s.hasDirectory r.source

/-- The first is not less deep than the second. -/
def inOrder (a b : Renaming) : Bool :=
  b.level ≤ a.level

/-- The renames that issues ask for, in the order in which they are made. -/
def plan (s : Snapshot) (issues : List Issue) : List Renaming :=
  let asked := issues.filterMap ofIssue?
  asked.filter (fun r => !r.concernsDirectory s)
    ++ (asked.filter fun r => r.concernsDirectory s).mergeSort inOrder

/-! ## Making renames -/

/-- The names differ, but only in capital and small letters. -/
def changesCase (r : Renaming) : Bool :=
  r.source ≠ r.target && Text.eqIgnoringAsciiCase r.source.toList r.target.toList

/--
Something else has the path. Where capital and small letters are the same in names, a path may lead
to what is to be renamed; so if only they change, the names in the directory are compared.
-/
def isTaken (fs : FileSystem) (path : String) (changesCase : Bool) : Bool :=
  if !(fs.lstat path).isOk then false
  else if !changesCase then true
  else match Path.parent? path, Path.fileName? path with
    | some parent, some name =>
        match fs.list parent with
        | .ok names => names.contains name
        | .error _ => true
    | _, _ => true

/-- The number of temporary paths that are tried. -/
def temporaryLimit : Nat := 100

def temporary (path : String) (attempt : Nat) : String :=
  path ++ ".rename-tmp" ++ if 0 < attempt then "-" ++ toString attempt else ""

def freeTemporary? (fs : FileSystem) (path : String) : Option String :=
  ((List.range temporaryLimit).map (temporary path)).find? fun other => !(fs.lstat other).isOk

/-- Makes a rename by way of a temporary path. -/
def runInTwoSteps (fs : FileSystem) (source target : String) : FileSystem × Except Failure Unit :=
  match freeTemporary? fs source with
  | none => (fs, .error (.fix source "no free temporary name for case-only rename"))
  | some between =>
      match fs.rename source between with
      | .error e => (fs, .error (.fix source e.text))
      | .ok fs' =>
          match fs'.rename between target with
          | .error e => (fs', .error (.fix source e.text))
          | .ok fs'' => (fs'', .ok ())

/-- Makes a rename, if the path is there and the new one is free. -/
def run (fs : FileSystem) (root : String) (r : Renaming) : FileSystem × Except Failure Unit :=
  let source := Path.join root r.source
  let target := Path.join root r.target
  if !(fs.lstat source).isOk then (fs, .error (.fix source "source no longer exists"))
  else if isTaken fs target r.changesCase then
    (fs, .error (.fix source ("destination `" ++ r.target ++ "` already exists")))
  else if r.changesCase && (fs.lstat target).isOk then runInTwoSteps fs source target
  else match fs.rename source target with
    | .ok fs' => (fs', .ok ())
    | .error e => (fs, .error (.fix source e.text))

def fix (root : String) (fs : FileSystem) (r : Renaming) : FileSystem × FixRecord :=
  let (fs', result) := run fs root r
  let outcome := match result with
    | .ok () => .applied
    | .error e => .failed e.message
  (fs', { kind := .rename, target := r.source ++ " -> " ++ r.target, outcome })

end Renaming

end ProjectConsistency
