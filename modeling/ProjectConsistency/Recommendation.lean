import ProjectConsistency.Issue

/-!
# Recommendations

Each rule family with issues gets one recommendation. The most urgent comes first, of equally
urgent ones the one with more issues, and then the order of the names decides.

- `Recommendation`: number of issues, highest severity, and actions for a rule family.
- `Recommendation.precedes`: the order.
- `recommend`: the recommendations for a list of issues.
-/

namespace ProjectConsistency

/-- What to do about the issues of a rule family. -/
structure Recommendation where
  category : Category
  issueCount : Nat
  dominant : Severity
  actions : List String
  deriving DecidableEq, Repr

/-- The actions for a rule family. -/
def Category.actions : Category → List String
  | .structural => [
      "Create the missing required files and directories",
      "Run `fix --create-missing` to scaffold them from templates",
      "Keep nesting within the configured maximum depth"]
  | naming => [
      "Rename files and directories to the configured case convention",
      "Run `fix --auto-fix` to apply the suggested renames",
      "Update imports that reference renamed paths"]
  | codeStyle => [
      "Configure a formatter and run `fix --format-code`",
      "Add an editor config so indentation and quotes stay consistent"]
  | documentation => [
      "Add the missing README sections",
      "Run `fix --create-missing` to scaffold missing documentation files"]
  | configuration => [
      "Fix JSON syntax errors in configuration files",
      "Add the required keys to each tracked configuration file"]

/-- The more urgent of two severities. -/
def Severity.max (a b : Severity) : Severity :=
  if a.rank < b.rank then b else a

def dominant? : List Severity → Option Severity
  | [] => none
  | s :: rest => some (rest.foldl Severity.max s)

namespace Recommendation

/-- The urgency: the rank of the highest severity. -/
def priority (r : Recommendation) : Nat :=
  r.dominant.rank

/-- The first recommendation comes before the second, or they are level. -/
def precedes (a b : Recommendation) : Bool :=
  if a.priority ≠ b.priority then b.priority < a.priority
  else if a.issueCount ≠ b.issueCount then b.issueCount < a.issueCount
  else a.category.title ≤ b.category.title

/-- The recommendation for a rule family, if it has issues. -/
def forCategory? (issues : List Issue) (category : Category) : Option Recommendation :=
  let group := issues.filter fun issue => issue.category = category
  (dominant? (group.map Issue.severity)).map fun severity =>
    { category, issueCount := group.length, dominant := severity, actions := category.actions }

end Recommendation

def recommend (issues : List Issue) : List Recommendation :=
  (Category.all.filterMap (Recommendation.forCategory? issues)).mergeSort Recommendation.precedes

end ProjectConsistency
