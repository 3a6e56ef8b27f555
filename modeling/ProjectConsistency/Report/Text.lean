import ProjectConsistency.Report.Ansi
import ProjectConsistency.Report.Basic

/-!
# Reports for a terminal

- `Report.text`: the text of a report, with or without colours. Three recommendations are shown, and
  all of them when more is asked for.
-/

namespace ProjectConsistency
namespace Report

open Ansi

/-- The recommendations that are shown unless more is asked for. -/
def shownRecommendations : Nat := 3

def severityIcon : Severity → String
  | .error => "✖"
  | .warning => "⚠"
  | .info => "ℹ"

def severityStyle : Severity → Style
  | .error => .red
  | .warning => .yellow
  | .info => .cyan

def scoreStyle (score : Nat) : Style :=
  if 80 ≤ score then .green else if 50 ≤ score then .yellow else .red

/-- A text with blanks after it up to a width. -/
def padEnd (width : Nat) (text : String) : String :=
  text ++ String.ofList (List.replicate (width - text.length) ' ')

def issueText (colours : Bool) (issue : Issue) : String :=
  let label := severityIcon issue.severity ++ " " ++ padEnd 7 issue.severity.title
  "  " ++ paint colours [severityStyle issue.severity] label
    ++ " [" ++ issue.category.title ++ "] " ++ issue.message ++ "\n"
    ++ issue.suggestion.elim "" fun suggestion =>
      "            " ++ paint colours [.cyan] "help:" ++ " " ++ suggestion ++ "\n"

def issuesText (colours : Bool) (issues : List Issue) : String :=
  if issues.isEmpty then "\n" ++ paint colours [.green] "No issues found." ++ "\n"
  else "\nIssues:\n" ++ String.join (issues.map (issueText colours))

/-- The number of issues of a severity, in its colour. -/
def countText (colours : Bool) (issues : List Issue) (severity : Severity) : String :=
  paint colours [severityStyle severity]
    (toString (issues.countP fun issue => issue.severity = severity))

/-- The lines with the counts and the score. -/
def summaryText (colours : Bool) (r : Report) : String :=
  "Summary: " ++ countText colours r.issues .error ++ " errors, "
    ++ countText colours r.issues .warning ++ " warnings, "
    ++ countText colours r.issues .info ++ " info (" ++ toString r.fileCount ++ " files, "
    ++ toString r.directoryCount ++ " directories, " ++ r.size ++ ")\n"
    ++ "Score: " ++ paint colours [scoreStyle r.score] (toString r.score ++ "/100") ++ "\n"

def recommendationText (colours : Bool) (number : Nat) (r : Recommendation) : String :=
  "  " ++ toString number ++ ". " ++ paint colours [severityStyle r.dominant] r.category.title
    ++ " (" ++ toString r.issueCount ++ (if r.issueCount = 1 then " issue" else " issues")
    ++ ", priority " ++ toString r.priority ++ ")\n"
    ++ String.join (r.actions.map fun action => "     - " ++ action ++ "\n")

def recommendationTexts (colours : Bool) (number : Nat) : List Recommendation → String
  | [] => ""
  | r :: rest =>
      recommendationText colours number r ++ recommendationTexts colours (number + 1) rest

/-- The lines of the recommendations that are shown. -/
def recommendationsText (colours : Bool) (verbosity : Nat) (rs : List Recommendation) : String :=
  if rs.isEmpty then ""
  else
    let shown := if 0 < verbosity then rs else rs.take shownRecommendations
    "\nTop recommendations:\n" ++ recommendationTexts colours 1 shown

def text (colours : Bool) (verbosity : Nat) (r : Report) : String :=
  "Project: " ++ r.projectName ++ " (" ++ r.projectType.title ++ ")\n"
    ++ "Path: " ++ r.path ++ "\n"
    ++ issuesText colours r.issues ++ "\n"
    ++ summaryText colours r
    ++ recommendationsText colours verbosity r.recommendations

end Report
end ProjectConsistency
