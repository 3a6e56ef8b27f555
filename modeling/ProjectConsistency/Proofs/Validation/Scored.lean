import Mathlib.Algebra.BigOperators.Group.List.Basic
import Mathlib.Algebra.Ring.Nat
import ProjectConsistency.Score

/-!
# Scored — what is left of the full score

This file defines:

* `weightSum` — the sum of the weights of issues, without a bound;
* `Severity.countIn` — the number of issues of a severity.

Deductions are summed in 32 bits and stay at the largest such number (`deduction_eq`).  That is more
than the full score, so the bound does not show: the score is the full score less all weights, and
nothing if they are more (`score_eq`).  The weights are counted by severity (`weightSum_eq_counts`),
and what a score says about a list follows from this sum alone: its order does not matter, what two
lists leave of the full score adds up, and nothing but the empty list costs nothing
(`score_eq_floored_sum`).
-/

namespace ProjectConsistency

/-! ## Weights -/

def weightSum (issues : List Issue) : Nat :=
  (issues.map fun issue => issue.severity.weight).sum

@[simp]
theorem weightSum_nil : weightSum [] = 0 := rfl

@[simp]
theorem weightSum_cons (issue : Issue) (issues : List Issue) :
    weightSum (issue :: issues) = issue.severity.weight + weightSum issues := by
  simp [weightSum]

@[simp]
theorem weightSum_append (xs ys : List Issue) :
    weightSum (xs ++ ys) = weightSum xs + weightSum ys := by
  simp [weightSum]

/-- The order of the issues does not matter to their weight. -/
theorem weightSum_perm {xs ys : List Issue} (h : xs.Perm ys) : weightSum xs = weightSum ys :=
  (h.map _).sum_eq

/-- The weight of issues found part by part is the sum over the parts. -/
theorem weightSum_flatMap {α : Type} (xs : List α) (f : α → List Issue) :
    weightSum (xs.flatMap f) = (xs.map fun x => weightSum (f x)).sum := by
  induction xs with
  | nil => rfl
  | cons x rest ih => simp [ih]

/-- Issues of one severity cost as much as there are of them. -/
theorem weightSum_of_severity {issues : List Issue} {severity : Severity}
    (h : ∀ issue ∈ issues, issue.severity = severity) :
    weightSum issues = issues.length * severity.weight := by
  induction issues with
  | nil => simp
  | cons issue rest ih =>
      obtain ⟨hfirst, hrest⟩ := List.forall_mem_cons.1 h
      rw [weightSum_cons, hfirst, ih hrest, List.length_cons, Nat.succ_mul, Nat.add_comm]

/-- One issue for each element that has a property costs what these elements cost. -/
theorem weightSum_map_filter {α : Type} (xs : List α) (p : α → Bool) (f : α → Issue) :
    weightSum ((xs.filter p).map f)
      = (xs.map fun x => if p x then (f x).severity.weight else 0).sum := by
  induction xs with
  | nil => rfl
  | cons x rest ih =>
      cases hp : p x with
      | false => simpa [hp] using ih
      | true => simpa [hp] using ih

theorem Severity.weight_pos (severity : Severity) : 0 < severity.weight := by
  cases severity <;> decide

/-- Only the empty list costs nothing. -/
theorem weightSum_eq_zero_iff {issues : List Issue} : weightSum issues = 0 ↔ issues = [] := by
  cases issues with
  | nil => simp
  | cons issue rest =>
      have hpos := issue.severity.weight_pos
      simp only [weightSum_cons, reduceCtorEq, iff_false]
      omega

/-! ## Numbers of issues -/

def Severity.countIn (severity : Severity) (issues : List Issue) : Nat :=
  issues.countP fun issue => issue.severity = severity

/-- Errors cost ten, warnings five and hints two. -/
theorem weightSum_eq_counts (issues : List Issue) :
    weightSum issues
      = 10 * Severity.error.countIn issues + 5 * Severity.warning.countIn issues
        + 2 * Severity.info.countIn issues := by
  induction issues with
  | nil => rfl
  | cons issue rest ih =>
      rw [weightSum_cons, ih]
      simp only [Severity.countIn, List.countP_cons]
      cases issue.severity <;> simp [Severity.weight] <;> omega

/-! ## Scores -/

/-- What fits 32 bits is taken off the full score. -/
theorem deduction_eq (issues : List Issue) :
    deduction issues = min (weightSum issues) deductionLimit := by
  have hfold : ∀ start, start ≤ deductionLimit →
      issues.foldl deduct start = min (start + weightSum issues) deductionLimit := by
    induction issues with
    | nil => intro start hstart; simp [hstart]
    | cons issue rest ih =>
        intro start hstart
        have hbound : deduct start issue ≤ deductionLimit := Nat.min_le_right _ _
        rw [List.foldl_cons, ih _ hbound, weightSum_cons, deduct]
        omega
  simpa [deduction] using hfold 0 (Nat.zero_le _)

/-- The bound of the deductions is above the full score, so all weights are taken off. -/
theorem score_eq (issues : List Issue) : score issues = fullScore - weightSum issues := by
  -- A sum that is cut at the limit leaves as little of the full score as one that is not.
  have hlimit : fullScore ≤ deductionLimit := by decide
  rw [score, deduction_eq]
  omega

/-- A heavier list of issues scores no better. -/
theorem score_le_of_weightSum_le {issues others : List Issue}
    (h : weightSum issues ≤ weightSum others) : score others ≤ score issues := by
  rw [score_eq, score_eq]
  omega

/--
The score of a list of any length is what ten for an error, five for a warning and two for a hint leave
of one hundred, and zero if they leave less.  So the order of the issues does not matter, a list in two
parts loses what both parts lose, and the full score is that of the empty list alone.
-/
theorem score_eq_floored_sum (issues : List Issue) :
    (score issues : ℤ)
        = max 0 ((100 : ℤ) - 10 * Severity.error.countIn issues
            - 5 * Severity.warning.countIn issues - 2 * Severity.info.countIn issues) ∧
      (∀ others : List Issue, issues.Perm others → score others = score issues) ∧
      (∀ others : List Issue,
        (score (issues ++ others) : ℤ) = max 0 ((score issues : ℤ) + score others - 100)) ∧
      (score issues = 100 ↔ issues = []) := by
  have hfull : fullScore = 100 := rfl
  refine ⟨?_, ?_, ?_, ?_⟩
  · have hcounts := weightSum_eq_counts issues
    rw [score_eq]
    omega
  · intro others hperm
    rw [score_eq, score_eq, weightSum_perm hperm]
  · intro others
    rw [score_eq, score_eq, score_eq, weightSum_append]
    omega
  · rw [score_eq, ← weightSum_eq_zero_iff]
    omega

def manyIssues : List Issue :=
  List.replicate 9 ⟨.structural, .error, "missing", none, none, none⟩
    ++ [⟨.naming, .warning, "misnamed", none, none, none⟩,
        ⟨.codeStyle, .info, "tabs", none, none, none⟩]

/-- Turned around they score the same, and twice over nothing is left. -/
theorem score_eq_floored_sum_many :
    manyIssues.Perm manyIssues.reverse ∧ score manyIssues = 3 ∧ score manyIssues.reverse = 3 ∧
      score (manyIssues ++ manyIssues) = 0 := by
  obtain ⟨hsum, hperm, happend, _⟩ := score_eq_floored_sum manyIssues
  have hreverse : manyIssues.Perm manyIssues.reverse := (List.reverse_perm _).symm
  have hthree : score manyIssues = 3 := by
    have hcounts : Severity.error.countIn manyIssues = 9 ∧ Severity.warning.countIn manyIssues = 1 ∧
        Severity.info.countIn manyIssues = 1 := by decide
    omega
  have htwice := happend manyIssues
  refine ⟨hreverse, hthree, (hperm _ hreverse).trans hthree, ?_⟩
  omega

end ProjectConsistency
