import ProjectConsistency.Recommendation
import ProjectConsistency.Rules.Configuration
import ProjectConsistency.Rules.Documentation
import ProjectConsistency.Rules.Naming
import ProjectConsistency.Rules.Structure
import ProjectConsistency.Rules.Style
import ProjectConsistency.Score

/-!
# Validation

- `Rules.evaluate`: the issues of a snapshot, by rule family.
- `Validation`: what a validation found; `Validation.ofSnapshot`: for a snapshot.
- `Validation.count`: the number of issues of a severity.
-/

namespace ProjectConsistency

/-- The rules of a family. -/
def Category.check : Category → Snapshot → Standards → List Issue
  | .structural => Rules.Structure.check
  | naming => Rules.Naming.check
  | codeStyle => Rules.Style.check
  | documentation => Rules.Documentation.check
  | configuration => Rules.Configuration.check

def Rules.evaluate (s : Snapshot) (standards : Standards) : List Issue :=
  Category.all.flatMap fun category => category.check s standards

structure Validation where
  snapshot : Snapshot
  issues : List Issue
  score : Nat
  recommendations : List Recommendation

namespace Validation

/-- A snapshot with issues, and the score and recommendations for them. -/
def ofIssues (snapshot : Snapshot) (issues : List Issue) : Validation :=
  { snapshot, issues, score := ProjectConsistency.score issues,
    recommendations := recommend issues }

def ofSnapshot (s : Snapshot) (standards : Standards) : Validation :=
  ofIssues s (Rules.evaluate s standards)

def count (v : Validation) (severity : Severity) : Nat :=
  v.issues.countP fun issue => issue.severity = severity

end Validation

end ProjectConsistency
