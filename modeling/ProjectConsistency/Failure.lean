import ProjectConsistency.FileSystem.OsError
import ProjectConsistency.Json.Error
import ProjectConsistency.Standards.Mismatch

/-!
# Failures

- `Failure`: why a command did not run to its end.
- `Failure.title`, `Failure.message`, `Failure.suggestion?`: the parts of the message to the user.
-/

namespace ProjectConsistency

/-- Why a command did not run to its end. -/
inductive Failure where
  | pathNotFound (path : String)
  | unreadableEntry (path reason : String)
  | malformedConfig (file reason : String)
  | fix (path reason : String)
  | formatter (reason : String)
  | configuration (reason : String)
  | interrupted
  | invalidPattern (pattern : String)
  | io (cause : OsError)
  /-- A document is no TOML; the line is that of the statement that cannot be read. -/
  | tomlSyntax (line : Nat)
  /-- A document has a value of the wrong shape. -/
  | tomlShape (mismatch : Standards.Mismatch)
  | json (reason : String)

namespace Failure

def title : Failure → String
  | pathNotFound _ => "PathNotFound"
  | unreadableEntry _ _ => "UnreadableEntry"
  | malformedConfig _ _ => "ConfigParse"
  | fix _ _ => "FixApplication"
  | formatter _ => "FormatterInvocation"
  | configuration _ => "Config"
  | interrupted => "Interrupted"
  | invalidPattern _ => "InvalidPattern"
  | io _ => "IO"
  | tomlSyntax _ => "TomlParse"
  | tomlShape _ => "TomlParse"
  | json _ => "JsonSerialize"

def message : Failure → String
  | pathNotFound path => "Path not found or not a directory: " ++ path
  | unreadableEntry path reason => "Cannot read entry " ++ path ++ ": " ++ reason
  | malformedConfig file reason => "Malformed JSON in " ++ file ++ ": " ++ reason
  | fix path reason => "Cannot apply fix to " ++ path ++ ": " ++ reason
  | formatter reason => "Formatter failed: " ++ reason
  | configuration reason => "Configuration error: " ++ reason
  | interrupted => "Analysis interrupted"
  | invalidPattern pattern => "Invalid glob pattern: " ++ pattern
  | io cause => "IO error: " ++ cause.text
  | tomlSyntax line => "TOML parse error: TOML parse error at line " ++ toString line
  | tomlShape mismatch => "TOML parse error: " ++ mismatch.message
  | json reason => "JSON serialization error: " ++ reason

def documentHint : String :=
  "Check the standards file format; `consistency-guard init` writes a valid template"

/-- What the user can do about a failure. -/
def suggestion? : Failure → Option String
  | pathNotFound _ => some "Pass an existing project directory as the path argument"
  | configuration _ => some documentHint
  | tomlSyntax _ => some documentHint
  | tomlShape _ => some documentHint
  | invalidPattern _ => some "Use glob syntax such as `node_modules/` or `*.egg-info`"
  | io cause => if cause.isDenied then some "Check file permissions" else none
  | _ => none

end Failure

end ProjectConsistency
