import ProjectConsistency.Issue
import ProjectConsistency.Project.Snapshot
import ProjectConsistency.Standards.Model

/-!
# Rules about files and directories

- `missingDirectories`, `missingFiles`, `missingRecommended`: what ought to be there.
- `deepest?`, `tooDeep`: entries below the allowed depth.
- `unreadable`: entries that could not be read.
- `check`: all issues of this family.
-/

namespace ProjectConsistency
namespace Rules
namespace Structure

def found (severity : Severity) (message : String) : Issue :=
  { category := .structural, severity, message }

def missingDirectory (path purpose : String) : Issue :=
  let reason := if purpose.isEmpty then "" else " (" ++ purpose ++ ")"
  ((found .warning ("Missing required directory `" ++ path ++ "/`" ++ reason)).about
    path).withRemedy (.createDirectory path)

def missingDirectories (rules : StructureRules) (s : Snapshot) : List Issue :=
  rules.requiredDirectories.filterMap fun (path, purpose) =>
    let path := dropTrailingSlashes path
    if s.hasDirectory path then none else some (missingDirectory path purpose)

def missingFile (severity : Severity) (message path : String) : Issue :=
  ((found severity message).about path).withRemedy (.createFile path)

def missingFiles (rules : StructureRules) (s : Snapshot) : List Issue :=
  (rules.requiredFiles.filter fun path => !s.hasFile path).map fun path =>
    missingFile .error ("Missing required file `" ++ path ++ "`") path

def missingRecommended (rules : StructureRules) (s : Snapshot) : List Issue :=
  (rules.recommendedFiles.filter fun path => !s.hasFile path).map fun path =>
    missingFile .info ("Recommended file `" ++ path ++ "` is missing") path

/-- The first directory, or else the first file, at the greatest depth. -/
def deepest? (s : Snapshot) : Option String :=
  (s.directories ++ s.files).find? fun path => depthOf path = s.maxDepth

/-- The issue of entries below the allowed depth. -/
def tooDeep (rules : StructureRules) (s : Snapshot) : List Issue :=
  if rules.maxDepth < s.maxDepth then
    let message := "Directory nesting reaches depth " ++ toString s.maxDepth
      ++ ", deeper than the allowed " ++ toString rules.maxDepth
    let suggestion := "move entries nested deeper than " ++ toString rules.maxDepth
      ++ " levels closer to the root"
    [{ (found .warning message).suggest suggestion with target := deepest? s }]
  else []

/-- Entries that could not be read. -/
def unreadable (s : Snapshot) : List Issue :=
  s.unreadable.map fun (path, reason) =>
    (found .warning ("Could not read `" ++ path ++ "`: " ++ reason)).about path

def check (s : Snapshot) (standards : Standards) : List Issue :=
  let rules := standards.structural
  missingDirectories rules s ++ missingFiles rules s ++ missingRecommended rules s
    ++ tooDeep rules s ++ unreadable s

end Structure
end Rules
end ProjectConsistency
