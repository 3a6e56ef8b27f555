import Mathlib.Algebra.BigOperators.Group.List.Basic
import Mathlib.Algebra.Ring.Nat
import Mathlib.Data.Prod.Lex
import Mathlib.Data.String.Basic
import Mathlib.Order.Bounds.Defs
import ProjectConsistency.Recommendation

/-!
# Recommended — recommendations as a summary of issues

This file defines:

* `Recommendation.Before` — a recommendation comes before another one;
* `Category.countIn` — the number of issues of a rule family.

A rule family has a recommendation just if it has issues, and what it says depends on their number and
highest severity alone (`forCategory?_eq_some_iff`, `forCategory?_perm`).  The order compares triples of
priority, number of issues and name (`precedes_iff`), so it is total; and as the names of the families
differ, no two recommendations are level (`pairwise_before`).  So the recommendations are an exact
summary of the issues, whatever their order (`recommend_summarizes`).
-/

namespace ProjectConsistency

/-! ## Severities -/

theorem Severity.rank_inj {a b : Severity} : a.rank = b.rank ↔ a = b := by
  cases a <;> cases b <;> decide

theorem Severity.rank_max (a b : Severity) : (a.max b).rank = Nat.max a.rank b.rank := by
  cases a <;> cases b <;> rfl

/-- The greater of two severities is one of them. -/
theorem Severity.max_eq (a b : Severity) : a.max b = a ∨ a.max b = b := by
  rw [Severity.max]
  split
  · exact .inr rfl
  · exact .inl rfl

/-- The most urgent severity is one of the list, and none of the list is more urgent. -/
theorem dominant?_eq_some_iff {severities : List Severity} {s : Severity} :
    dominant? severities = some s ↔ s ∈ severities ∧ ∀ t ∈ severities, t.rank ≤ s.rank := by
  -- The severity that is carried along is one of those met, and as urgent as each of them.
  have hfold : ∀ (first : Severity) (rest : List Severity),
      rest.foldl Severity.max first ∈ first :: rest ∧
        ∀ t ∈ first :: rest, t.rank ≤ (rest.foldl Severity.max first).rank := by
    intro first rest
    induction rest generalizing first with
    | nil => simp
    | cons next rest ih =>
        obtain ⟨hmem, hle⟩ := ih (first.max next)
        obtain ⟨hfirst, hrest⟩ := List.forall_mem_cons.1 hle
        rw [Severity.rank_max] at hfirst
        rw [List.foldl_cons]
        refine ⟨?_, ?_⟩
        · rcases List.mem_cons.1 hmem with heq | hmem
          · rcases first.max_eq next with hmax | hmax <;> rw [heq, hmax] <;> simp
          · exact List.mem_cons_of_mem _ (List.mem_cons_of_mem _ hmem)
        · intro t ht
          rcases List.mem_cons.1 ht with rfl | ht
          · exact (Nat.le_max_left _ _).trans hfirst
          · rcases List.mem_cons.1 ht with rfl | ht
            · exact (Nat.le_max_right _ _).trans hfirst
            · exact hrest t ht
  cases severities with
  | nil => simp [dominant?]
  | cons first rest =>
      obtain ⟨hmem, hle⟩ := hfold first rest
      rw [dominant?, Option.some_inj]
      refine ⟨?_, ?_⟩
      · rintro rfl
        exact ⟨hmem, hle⟩
      · rintro ⟨hs, hall⟩
        exact Severity.rank_inj.1 (Nat.le_antisymm (hall _ hmem) (hle s hs))

/-! ## One rule family -/

/-- The number of issues of a rule family. -/
def Category.countIn (category : Category) (issues : List Issue) : Nat :=
  issues.countP fun issue => issue.category = category

/-- Each issue is of one rule family. -/
theorem Category.sum_countIn (issues : List Issue) :
    (Category.all.map fun category => category.countIn issues).sum = issues.length := by
  induction issues with
  | nil => rfl
  | cons issue rest ih =>
      rw [List.length_cons, ← ih]
      simp only [Category.all, Category.countIn, List.countP_cons, List.map_cons, List.map_nil,
        List.sum_cons, List.sum_nil]
      cases issue.category <;> simp <;> omega

namespace Recommendation

/-- The most urgent severity of a rule family. -/
theorem dominant?_filter_eq_some_iff {issues : List Issue} {category : Category} {s : Severity} :
    dominant? ((issues.filter fun issue => issue.category = category).map Issue.severity) = some s ↔
      (∃ issue ∈ issues, issue.category = category ∧ issue.severity = s) ∧
        ∀ issue ∈ issues, issue.category = category → issue.severity.rank ≤ s.rank := by
  rw [dominant?_eq_some_iff, List.forall_mem_map, List.mem_map]
  simp only [List.mem_filter, decide_eq_true_eq, and_imp, and_assoc]

/-- A recommendation is made just if the rule family has issues; it has their number and the severity
of the most urgent ones. -/
theorem forCategory?_eq_some_iff {issues : List Issue} {category : Category} {r : Recommendation} :
    forCategory? issues category = some r ↔
      r.category = category ∧ r.issueCount = category.countIn issues ∧ r.actions = category.actions ∧
        (∃ issue ∈ issues, issue.category = category ∧ issue.severity = r.dominant) ∧
        ∀ issue ∈ issues, issue.category = category → issue.severity.rank ≤ r.priority := by
  rw [forCategory?, Option.map_eq_some_iff, Category.countIn, List.countP_eq_length_filter]
  simp only [dominant?_filter_eq_some_iff]
  constructor
  · rintro ⟨severity, ⟨hsome, hall⟩, rfl⟩
    exact ⟨rfl, rfl, rfl, hsome, hall⟩
  · rintro ⟨hcategory, hcount, hactions, hsome, hall⟩
    refine ⟨r.dominant, ⟨hsome, hall⟩, ?_⟩
    rw [← hcount, ← hactions, ← hcategory]

/-- A category without issues gets no recommendation. -/
theorem forCategory?_eq_none_iff {issues : List Issue} {category : Category} :
    forCategory? issues category = none ↔ ∀ issue ∈ issues, issue.category ≠ category := by
  rw [forCategory?, Option.map_eq_none_iff]
  cases hgroup : issues.filter (fun issue => decide (issue.category = category)) with
  | nil => simpa [dominant?] using hgroup
  | cons issue rest =>
      have hissue : issue ∈ issues.filter fun issue => decide (issue.category = category) := by
        rw [hgroup]
        exact List.mem_cons_self
      obtain ⟨hmem, hcategory⟩ := List.mem_filter.1 hissue
      simp only [dominant?, List.map_cons, reduceCtorEq, false_iff]
      exact fun hnone => hnone issue hmem (by simpa using hcategory)

/-- The order of the issues does not matter to a recommendation. -/
theorem forCategory?_perm {issues others : List Issue} (h : issues.Perm others) (category : Category) :
    forCategory? others category = forCategory? issues category := by
  refine Option.ext fun r => ?_
  simp only [forCategory?_eq_some_iff, Category.countIn, h.countP_eq, h.mem_iff]

/-! ## The order -/

/-- The first recommendation comes before the second: it is more urgent, or as urgent with more issues,
or level with it up to its name, which comes first. -/
def Before (a b : Recommendation) : Prop :=
  b.priority < a.priority ∨ a.priority = b.priority ∧
    (b.issueCount < a.issueCount ∨ a.issueCount = b.issueCount ∧ a.category.title < b.category.title)

/-- What the order compares. -/
def key (r : Recommendation) : Natᵒᵈ ×ₗ Natᵒᵈ ×ₗ String :=
  toLex (OrderDual.toDual r.priority, toLex (OrderDual.toDual r.issueCount, r.category.title))

/-- The keys are compared as the recommendations are meant to be. -/
theorem key_lt_key_iff {a b : Recommendation} : a.key < b.key ↔ a.Before b := by
  simp [key, Before, Prod.Lex.toLex_lt_toLex]

theorem precedes_iff {a b : Recommendation} : precedes a b = true ↔ a.key ≤ b.key := by
  simp only [precedes, key, Prod.Lex.toLex_le_toLex, OrderDual.toDual_lt_toDual,
    OrderDual.toDual_inj]
  by_cases hpriority : a.priority = b.priority
  · by_cases hcount : a.issueCount = b.issueCount <;> simp [hpriority, hcount]
  · simp [hpriority]

end Recommendation

/-! ## Recommendations for issues -/

open Recommendation

theorem Category.title_inj {a b : Category} : a.title = b.title ↔ a = b := by
  cases a <;> cases b <;> decide

theorem recommend_perm (issues : List Issue) :
    (recommend issues).Perm (Category.all.filterMap (forCategory? issues)) :=
  List.mergeSort_perm _ _

/-- The recommendations are those of the categories. -/
theorem mem_recommend_iff {issues : List Issue} {r : Recommendation} :
    r ∈ recommend issues ↔ forCategory? issues r.category = some r := by
  rw [(recommend_perm issues).mem_iff, List.mem_filterMap]
  constructor
  · rintro ⟨category, _, hr⟩
    rwa [(forCategory?_eq_some_iff.1 hr).1]
  · intro hr
    exact ⟨r.category, by cases r.category <;> decide, hr⟩

/-- Rule families with issues are recommended for. -/
theorem mem_map_category_iff {issues : List Issue} {category : Category} :
    category ∈ (recommend issues).map Recommendation.category ↔
      ∃ issue ∈ issues, issue.category = category := by
  rw [List.mem_map]
  constructor
  · rintro ⟨r, hr, rfl⟩
    obtain ⟨_, _, _, ⟨issue, hissue, hcategory, _⟩, _⟩ :=
      forCategory?_eq_some_iff.1 (mem_recommend_iff.1 hr)
    exact ⟨issue, hissue, hcategory⟩
  · rintro ⟨issue, hissue, hcategory⟩
    cases hr : forCategory? issues category with
    | none => exact absurd hcategory (forCategory?_eq_none_iff.1 hr issue hissue)
    | some r =>
        obtain rfl := (forCategory?_eq_some_iff.1 hr).1
        exact ⟨r, mem_recommend_iff.2 hr, rfl⟩

/-- No rule family is recommended for twice. -/
theorem nodup_categories (issues : List Issue) :
    ((recommend issues).map Recommendation.category).Nodup := by
  rw [((recommend_perm issues).map _).nodup_iff, List.Nodup, List.pairwise_map,
    List.pairwise_filterMap]
  refine List.Pairwise.imp ?_ (by decide : Category.all.Nodup)
  intro a b hne r hr other hother
  rwa [(forCategory?_eq_some_iff.1 hr).1, (forCategory?_eq_some_iff.1 hother).1]

/-- What is sorted is strictly ordered, since no two names are the same. -/
theorem pairwise_before (issues : List Issue) : (recommend issues).Pairwise Before := by
  -- `pairwise_mergeSort` asks for an order that is transitive and total, which the keys have.
  have hsorted : (recommend issues).Pairwise fun a b => precedes a b = true := by
    refine List.pairwise_mergeSort ?_ ?_ _
    · intro a b c hab hbc
      exact precedes_iff.2 ((precedes_iff.1 hab).trans (precedes_iff.1 hbc))
    · intro a b
      rw [Bool.or_eq_true, precedes_iff, precedes_iff]
      exact le_total a.key b.key
  have hdistinct := List.pairwise_map.1 (nodup_categories issues)
  refine (hsorted.and hdistinct).imp ?_
  rintro a b ⟨hle, hne⟩
  refine key_lt_key_iff.1 ((precedes_iff.1 hle).lt_of_ne fun heq => hne ?_)
  have htitle : a.category.title = b.category.title := congrArg (fun k => (ofLex (ofLex k).2).2) heq
  exact Category.title_inj.1 htitle

/-- The numbers of issues sum up over the rule families. -/
theorem sum_issueCount (issues : List Issue) :
    ((recommend issues).map Recommendation.issueCount).sum = issues.length := by
  -- A family without a recommendation has no issues, so it may be counted as well.
  have hsum : ∀ categories : List Category,
      ((categories.filterMap (forCategory? issues)).map Recommendation.issueCount).sum
        = (categories.map fun category => category.countIn issues).sum := by
    intro categories
    induction categories with
    | nil => rfl
    | cons category rest ih =>
        cases hr : forCategory? issues category with
        | none =>
            have hzero : category.countIn issues = 0 := by
              rw [Category.countIn, List.countP_eq_zero]
              simpa using forCategory?_eq_none_iff.1 hr
            simp [hr, ih, hzero]
        | some r =>
            have hcount := (forCategory?_eq_some_iff.1 hr).2.1
            simp [hr, ih, hcount]
  rw [((recommend_perm issues).map _).sum_eq, hsum, Category.sum_countIn]

/--
The recommendations for a list of issues have each rule family with issues once and no other.  Each has
the number of issues of its family, with the highest of their ranks as priority, and all numbers
together are that of the issues.  The recommendations are strictly ordered, and the order of the issues
does not matter.
-/
theorem recommend_summarizes (issues : List Issue) :
    ((recommend issues).map Recommendation.category).Nodup ∧
      (∀ category, category ∈ (recommend issues).map Recommendation.category ↔
        ∃ issue ∈ issues, issue.category = category) ∧
      (∀ r ∈ recommend issues, r.issueCount = r.category.countIn issues ∧
        IsGreatest {rank | ∃ issue ∈ issues, issue.category = r.category ∧ issue.severity.rank = rank}
          r.priority) ∧
      ((recommend issues).map Recommendation.issueCount).sum = issues.length ∧
      (recommend issues).Pairwise Before ∧
      ∀ others : List Issue, issues.Perm others → recommend others = recommend issues := by
  refine ⟨nodup_categories issues, fun _ => mem_map_category_iff, ?_, sum_issueCount issues,
    pairwise_before issues, ?_⟩
  · intro r hr
    obtain ⟨_, hcount, _, ⟨issue, hissue, hcategory, hseverity⟩, hall⟩ :=
      forCategory?_eq_some_iff.1 (mem_recommend_iff.1 hr)
    refine ⟨hcount, ⟨issue, hissue, hcategory, by rw [hseverity, priority]⟩, ?_⟩
    rintro rank ⟨other, hother, hcategory, rfl⟩
    exact hall other hother hcategory
  · intro others hperm
    rw [recommend, recommend, funext (forCategory?_perm hperm)]

def mixedIssues : List Issue :=
  [⟨.naming, .warning, "misnamed", none, none, none⟩,
   ⟨.documentation, .info, "no usage", none, none, none⟩,
   ⟨.structural, .info, "too deep", none, none, none⟩,
   ⟨.documentation, .warning, "no readme", none, none, none⟩,
   ⟨.naming, .warning, "misnamed", none, none, none⟩]

theorem recommend_mixedIssues :
    recommend mixedIssues
      = [⟨.documentation, 2, .warning, Category.documentation.actions⟩,
         ⟨.naming, 2, .warning, Category.naming.actions⟩,
         ⟨.structural, 1, .info, Category.structural.actions⟩] := by
  have hfamilies : Category.all.filterMap (forCategory? mixedIssues)
      = [⟨.structural, 1, .info, Category.structural.actions⟩,
         ⟨.naming, 2, .warning, Category.naming.actions⟩,
         ⟨.documentation, 2, .warning, Category.documentation.actions⟩] := by decide +kernel
  rw [recommend, hfamilies]
  simp [List.mergeSort, List.MergeSort.Internal.splitInTwo, precedes, priority, Severity.rank,
    Category.title]

theorem recommend_summarizes_mixed :
    mixedIssues.Perm mixedIssues.reverse ∧
      (recommend mixedIssues.reverse).map Recommendation.category
        = [.documentation, .naming, .structural] ∧
      ((recommend mixedIssues).map Recommendation.issueCount).sum = 5 := by
  have hreverse : mixedIssues.Perm mixedIssues.reverse := (List.reverse_perm _).symm
  obtain ⟨_, _, _, hsum, _, hperm⟩ := recommend_summarizes mixedIssues
  refine ⟨hreverse, ?_, hsum⟩
  rw [hperm _ hreverse, recommend_mixedIssues]
  rfl

end ProjectConsistency
