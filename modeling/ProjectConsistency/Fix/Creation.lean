import ProjectConsistency.Failure
import ProjectConsistency.FileSystem.Operation
import ProjectConsistency.Fix.Record
import ProjectConsistency.Fix.Scaffold

/-!
# Creation of what is missing

Only what is not there is created. Directories above it are made where they are missing; they stay
even if the creation fails afterwards, and so does a new file that does not take its whole content.

- `Creation`: a file or a directory that is missing.
- `Creation.plan`: the creations that a list of issues asks for, each once.
- `Creation.run`: creates in a root; `Creation.fix`: with its record.
-/

namespace ProjectConsistency

/-- A file or a directory that is missing, with its path relative to the project root. -/
inductive Creation where
  | file (path : String)
  | directory (path : String)
  deriving DecidableEq, Repr

namespace Creation

/-! ## The plan -/

def ofRemedy? : Remedy → Option Creation
  | .createFile path => some (file path)
  | .createDirectory path => some (directory path)
  | _ => none

def ofIssue? (issue : Issue) : Option Creation :=
  match issue.category with
  | .structural => issue.remedy.bind ofRemedy?
  | .documentation => issue.remedy.bind ofRemedy?
  | _ => none

def plan (issues : List Issue) : List Creation :=
  Uniques.ofList (issues.filterMap ofIssue?)

/-! ## Creating -/

/-- How a creation ends that finds something in its place. -/
def alreadyThere : FixOutcome :=
  .skipped "already exists"

def createFile (fs : FileSystem) (path content : String) :
    FileSystem × Except Failure FixOutcome :=
  let (fs', made) := match Path.parent? path with
    | some parent => fs.makeDirectories parent
    | none => (fs, .ok ())
  match made with
  | .error e => (fs', .error (.io e))
  | .ok () =>
      match fs'.createNew path with
      | .ok (opened, place) =>
          let (fs'', written) := opened.writeNew place content.toUTF8
          (fs'', match written with
            | .ok () => .ok .applied
            | .error e => .error (.io e))
      | .error .exists => (fs', .ok alreadyThere)
      | .error e => (fs', .error (.fix path e.text))

def createDirectory (fs : FileSystem) (path : String) :
    FileSystem × Except Failure FixOutcome :=
  if fs.isDirectory path then (fs, .ok alreadyThere)
  else match fs.makeDirectories path with
    | (fs', .ok ()) => (fs', .ok .applied)
    | (fs', .error e) => (fs', .error (.fix path e.text))

def run (root project : String) (standards : Standards) (fs : FileSystem) :
    Creation → FileSystem × Except Failure FixOutcome
  | file path =>
      createFile fs (Path.join root path) (Fix.scaffold path project standards)
  | directory path => createDirectory fs (Path.join root path)

def kind : Creation → FixKind
  | file _ => .createFile
  | directory _ => .createDirectory

def path : Creation → String
  | file path => path
  | directory path => path

/-- Creates in the root of a project and records it. -/
def fix (root project : String) (standards : Standards) (fs : FileSystem) (c : Creation) :
    FileSystem × FixRecord :=
  let (fs', result) := run root project standards fs c
  let outcome := match result with
    | .ok outcome => outcome
    | .error e => .failed e.message
  (fs', { kind := c.kind, target := c.path, outcome })

end Creation

end ProjectConsistency
