import ProjectConsistency.Issue
import ProjectConsistency.Naming.Convert
import ProjectConsistency.Project.Snapshot
import ProjectConsistency.Standards.Model

/-!
# Rules about names

Names that begin with a dot and exempt names are not checked. Of a file name only the part before
the first dot is held to the convention.

- `directoryName`, `fileName`: the name that an entry ought to have, unless it may keep its own.
- `renamed`: the path of an entry under another name.
- `check`: all issues of this family.
-/

namespace ProjectConsistency
namespace Rules
namespace Naming

open ProjectConsistency.Naming

/-- The path of the parent, if there is one, and the name of an entry. -/
def splitParent (path : String) : Option String × String :=
  match Text.splitLast '/' path.toList with
  | some (parent, name) => (some (String.ofList parent), String.ofList name)
  | none => (none, path)

def isExempt (rules : NamingRules) (name : String) : Bool :=
  name.toList.head? = some '.' || rules.exemptNames.contains name

/-- The name that a directory ought to have, if it has another. -/
def directoryName (rules : NamingRules) (name : String) : Option String :=
  if isExempt rules name || isCompliant name.toList rules.directoryCasing then none
  else some (String.ofList (convert name.toList rules.directoryCasing))

/-- The name that a file ought to have, if it has another. -/
def fileName (rules : NamingRules) (name : String) : Option String :=
  let (stem, extensions) := splitStem name.toList
  if isExempt rules name || isCompliant stem rules.fileCasing then none
  else some (String.ofList (convert stem rules.fileCasing ++ extensions))

/-- The path of an entry under another name. -/
def renamed (parent : Option String) (name : String) : String :=
  match parent with
  | some p => p ++ "/" ++ name
  | none => name

/--
The issue of a name that breaks the convention. A name without letters and digits cannot be
converted; then there is no remedy.
-/
def violation (kind path : String) (casing : Casing) (wanted : String) : Issue :=
  let (parent, name) := splitParent path
  let issue : Issue := {
    category := .naming
    severity := .warning
    message := kind ++ " name `" ++ name ++ "` does not follow " ++ casing.title
    target := some path }
  if wanted = name then issue else issue.withRemedy (.rename path (renamed parent wanted))

/-- Directories with names that break the convention. -/
def directoryIssues (rules : NamingRules) (s : Snapshot) : List Issue :=
  s.directories.filterMap fun path =>
    (directoryName rules (splitParent path).2).map
      (violation "Directory" path rules.directoryCasing)

/-- Files with names that break the convention. -/
def fileIssues (rules : NamingRules) (s : Snapshot) : List Issue :=
  s.files.filterMap fun path =>
    (fileName rules (splitParent path).2).map (violation "File" path rules.fileCasing)

def check (s : Snapshot) (standards : Standards) : List Issue :=
  directoryIssues standards.naming s ++ fileIssues standards.naming s

end Naming
end Rules
end ProjectConsistency
