import ProjectConsistency.Failure
import ProjectConsistency.Json.Printer
import ProjectConsistency.Report.Basic

/-!
# Reports in JSON

The members of an object stand in the order given here. A report whose time RFC 3339 cannot hold
cannot be written.

- `Report.json`: the text of a report.
-/

namespace ProjectConsistency
namespace Report

/-- A member that is left out if there is no value. -/
def optionalMember (name : String) (value : Option String) : List (String × Json) :=
  value.elim [] fun text => [(name, .string text)]

def issueJson (issue : Issue) : Json :=
  .object ([
    ("category", .string issue.category.title),
    ("severity", .string issue.severity.title),
    ("message", .string issue.message)]
    ++ optionalMember "targetPath" issue.target
    ++ optionalMember "suggestion" issue.suggestion)

def recommendationJson (r : Recommendation) : Json :=
  .object [
    ("category", .string r.category.title),
    ("issueCount", Json.ofNat r.issueCount),
    ("dominantSeverity", .string r.dominant.title),
    ("priority", Json.ofNat r.priority),
    ("suggestedActions", Json.ofStrings r.actions)]

/-- A report whose time has a text. -/
def toJson (r : Report) (generated : String) : Json :=
  .object [
    ("project", .object [
      ("name", .string r.projectName),
      ("path", .string r.path),
      ("type", .string r.projectType.title),
      ("score", Json.ofNat r.score)]),
    ("analysis", .object [
      ("files", Json.ofNat r.fileCount),
      ("directories", Json.ofNat r.directoryCount),
      ("size", .string r.size)]),
    ("issues", .array (r.issues.map issueJson)),
    ("recommendations", .array (r.recommendations.map recommendationJson)),
    ("generated", .string generated)]

/-- The text of a report, without a line end. -/
def json (r : Report) : Except Failure String :=
  match r.generated.rfc3339? with
  | some text => .ok (r.toJson text).pretty
  | none => .error (.json "The year component cannot be formatted into the requested format.")

end Report
end ProjectConsistency
