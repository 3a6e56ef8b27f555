import ProjectConsistency.Issue

/-!
# The consistency score

Each issue takes its weight off the full score of one hundred; nothing goes below zero. The
deductions are summed in 32 bits, and a sum that does not fit stays at the largest such number.

- `Severity.weight`: what an issue of a severity costs.
- `deduction`: the sum of the weights.
- `score`: what is left.
-/

namespace ProjectConsistency

/-- The score of a project without issues. -/
def fullScore : Nat := 100

/-- The largest sum of deductions. -/
def deductionLimit : Nat := 4294967295

/-- What an issue of a severity costs. -/
def Severity.weight : Severity → Nat
  | error => 10
  | warning => 5
  | info => 2

/-- Adds the weight of an issue to a sum of deductions. -/
def deduct (sum : Nat) (issue : Issue) : Nat :=
  min (sum + issue.severity.weight) deductionLimit

/-- The sum of the weights of all issues. -/
def deduction (issues : List Issue) : Nat :=
  issues.foldl deduct 0

/-- The score of a list of issues, from zero to one hundred. -/
def score (issues : List Issue) : Nat :=
  fullScore - deduction issues

end ProjectConsistency
