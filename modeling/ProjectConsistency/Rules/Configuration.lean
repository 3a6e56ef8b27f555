import ProjectConsistency.Issue
import ProjectConsistency.Project.Snapshot
import ProjectConsistency.Standards.Model

/-!
# Rules about configuration files

- `keyPath`: the names of a key with dots between them.
- `missingKeys`: the keys that a file does not define.
- `check`: all issues of this family.
-/

namespace ProjectConsistency
namespace Rules
namespace Configuration

def keyPath (key : String) : List String :=
  (Text.splitOn '.' key.toList).map String.ofList

def invalidFile (file reason : String) : Issue where
  category := .configuration
  severity := .error
  message := "`" ++ file ++ "` is not valid JSON: " ++ reason
  target := some file
  suggestion := some ("fix the JSON syntax of `" ++ file ++ "`")

/-- The issue of a key that a file does not define. -/
def missingKey (file : String) (severity : Severity) (key : String) : Issue where
  category := .configuration
  severity := severity
  message := "`" ++ file ++ "` is missing required key `" ++ key ++ "`"
  target := some file
  suggestion := some ("add `" ++ key ++ "` to `" ++ file ++ "`")

def missingKeys (rule : ConfigFileRule) (value : Json) : List String :=
  rule.requiredKeys.filter fun key => (Json.lookup (keyPath key) value).isNone

def checkFile (file : String) (rule : ConfigFileRule) : ConfigFile → List Issue
  | .invalid reason => [invalidFile file reason]
  | .parsed value => (missingKeys rule value).map (missingKey file rule.severity)

def check (s : Snapshot) (standards : Standards) : List Issue :=
  standards.config.perFile.flatMap fun (file, rule) =>
    (Assoc.find? file s.configFiles).elim [] (checkFile file rule)

end Configuration
end Rules
end ProjectConsistency
