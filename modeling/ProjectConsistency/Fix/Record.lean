import ProjectConsistency.Json.Basic
import ProjectConsistency.Report.Text

/-!
# Records of fixes

- `FixKind`, `FixOutcome`, `FixRecord`: what was attempted and how it ended.
- `FixRecord.toJson`: a record as data.
- `fixesText`: the records for a terminal, with a tally.
-/

namespace ProjectConsistency

open Ansi

inductive FixKind where
  | rename
  | createFile
  | createDirectory
  | format
  deriving DecidableEq, Repr

namespace FixKind

def title : FixKind → String
  | rename => "rename"
  | createFile => "create-file"
  | createDirectory => "create-directory"
  | format => "format"

def all : List FixKind :=
  [rename, createFile, createDirectory, format]

def ofTitle? (name : String) : Option FixKind :=
  all.find? fun k => k.title = name

end FixKind

/-- How a fix ended. -/
inductive FixOutcome where
  | applied
  | failed (reason : String)
  | skipped (reason : String)
  deriving DecidableEq, Repr

/-- A fix that was attempted. -/
structure FixRecord where
  kind : FixKind
  /-- A path relative to the project root, or two paths with an arrow between them. -/
  target : String
  outcome : FixOutcome
  deriving DecidableEq, Repr

namespace FixOutcome

def toJson : FixOutcome → Json
  | applied => Json.ofMembers [("status", .string "applied")]
  | failed reason => Json.ofMembers [("status", .string "failed"), ("reason", .string reason)]
  | skipped reason => Json.ofMembers [("status", .string "skipped"), ("reason", .string reason)]

def text (colours : Bool) : FixOutcome → String
  | applied => paint colours [.green] "✓ applied"
  | skipped reason => paint colours [.yellow] ("- skipped (" ++ reason ++ ")")
  | failed reason => paint colours [.red] ("✗ failed (" ++ reason ++ ")")

def isApplied : FixOutcome → Bool
  | applied => true
  | _ => false

def isFailed : FixOutcome → Bool
  | failed _ => true
  | _ => false

/-- The fix was not needed. -/
def isSkipped : FixOutcome → Bool
  | skipped _ => true
  | _ => false

end FixOutcome

namespace FixRecord

def toJson (r : FixRecord) : Json :=
  Json.ofMembers [
    ("kind", .string r.kind.title),
    ("target", .string r.target),
    ("outcome", r.outcome.toJson)]

def line (colours : Bool) (r : FixRecord) : String :=
  "  " ++ Report.padEnd 16 r.kind.title ++ " " ++ r.target ++ "  " ++ r.outcome.text colours ++ "\n"

end FixRecord

/-- The number of records with an outcome of a class. -/
def countOutcomes (p : FixOutcome → Bool) (records : List FixRecord) : String :=
  toString (records.countP fun r => p r.outcome)

def fixesText (colours : Bool) (records : List FixRecord) : String :=
  if records.isEmpty then "No fixes applied.\n"
  else
    String.join (records.map (FixRecord.line colours))
      ++ "\nFixes: " ++ countOutcomes FixOutcome.isApplied records ++ " applied, "
      ++ countOutcomes FixOutcome.isFailed records ++ " failed, "
      ++ countOutcomes FixOutcome.isSkipped records ++ " skipped\n"

end ProjectConsistency
