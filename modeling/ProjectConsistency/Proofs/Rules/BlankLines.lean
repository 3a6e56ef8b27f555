import ProjectConsistency.Proofs.Rules.CommentLines
import ProjectConsistency.Proofs.Text.LineEnds

/-!
# BlankLines — the style of a source with other line ends, or with one more blank line

This file defines:

* `Rules.Style.Finding` — what is found in a source: its kind, with the line that it names;
* `Rules.Style.Finding.issue` — the issue that reports it;
* `Rules.Style.findings` — all that is found in the lines of a source;
* `Rules.Style.Finding.moved` — what is found in its place after one more line is put into the source.

The rules look at the lines of a source alone, so other line ends make no difference.  A blank line
belongs to no class of lines that they look for (`firstLine_insert`), has no quotes, and does not count
when commas are looked for; so nothing but the numbers of the lines behind it changes
(`findings_blank`, `checkSource_spaced`).
-/

namespace ProjectConsistency
namespace Rules
namespace Style

open Text

/-! ## Findings -/

/-- What is found in a source, with the number of the line where it is found. -/
inductive Finding where
  | tabs (line : Nat)
  | misaligned (line width : Nat)
  | quotes (prevailing : QuoteStyle)
  | comma (line : Nat)
  deriving DecidableEq, Repr

namespace Finding

def severity : Finding → Severity
  | tabs _ => .warning
  | misaligned _ _ => .warning
  | quotes _ => .info
  | comma _ => .info

def message (rules : StyleRules) : Finding → String
  | tabs line => "is indented with tabs (first at line " ++ toString line ++ ")"
  | misaligned line width =>
      "line " ++ toString line ++ " is indented by " ++ toString width ++ " spaces, not a multiple of "
        ++ toString rules.indentWidth
  | quotes prevailing =>
      "mostly uses " ++ prevailing.title ++ " quotes; the standard is " ++ rules.quoteStyle.title
        ++ " quotes"
  | comma line => "line " ++ toString line ++ " has a multi-line literal without a trailing comma"

def issue (rules : StyleRules) (path : String) (finding : Finding) : Issue :=
  found finding.severity path (finding.message rules)

/-- The same in its place, after one more line is put behind the first `count` lines. -/
def moved (count : Nat) : Finding → Finding
  | tabs line => tabs (shifted count line)
  | misaligned line width => misaligned (shifted count line) width
  | quotes prevailing => quotes prevailing
  | comma line => comma (shifted count line)

end Finding

/-- What is found in the lines of a source. -/
def findings (rules : StyleRules) (ext : String) (ls : List (List Char)) : List Finding :=
  ((firstLine isTabbed ls).map fun (n, _) => Finding.tabs n).toList
    ++ ((firstMisaligned rules.indentWidth ls).map fun (n, width) => Finding.misaligned n width).toList
    ++ (if rules.quoteExtensions.contains ext then
          ((dominantQuote ls).filter (· ≠ rules.quoteStyle)).map Finding.quotes
        else none).toList
    ++ (if rules.requireTrailingComma then (firstMissingComma ls).map Finding.comma else none).toList

/-- All that is found is reported, and nothing else. -/
theorem checkSource_eq (rules : StyleRules) (path ext : String) (source : List Char) :
    checkSource rules path ext source
      = (findings rules ext (lines source)).map (Finding.issue rules path) := by
  have hquote : quoteIssue path ext rules (lines source)
      = (if rules.quoteExtensions.contains ext then
          ((dominantQuote (lines source)).filter (· ≠ rules.quoteStyle)).map Finding.quotes
        else none).map (Finding.issue rules path) := by
    rw [quoteIssue, apply_ite (Option.map _), Option.map_map]
    rfl
  have hcomma : commaIssue path rules (lines source)
      = (if rules.requireTrailingComma then (firstMissingComma (lines source)).map Finding.comma
        else none).map (Finding.issue rules path) := by
    rw [commaIssue, apply_ite (Option.map _), Option.map_map]
    rfl
  rw [checkSource, hquote, hcomma, findings]
  simp only [tabIssue, alignmentIssue, List.map_append, ← Option.toList_map, Option.map_map]
  rfl

/-! ## One more line -/

/-- Behind the line that was put in, all numbers grow by one. -/
theorem firstLineFrom_succ {p : List Char → Bool} {count n : Nat} (h : count < n)
    (ls : List (List Char)) :
    firstLineFrom p (n + 1) ls = (firstLineFrom p n ls).map (Prod.map (shifted count) id) := by
  induction ls generalizing n with
  | nil => rfl
  | cons line ls ih =>
      rw [firstLineFrom, firstLineFrom, ih (Nat.lt_succ_of_lt h)]
      split
      · simp [shifted_of_lt h]
      · rfl

/-- A line that is not in the class is passed over. -/
theorem firstLine_insert {p : List Char → Bool} {line : List Char} (h : p line = false)
    (before after : List (List Char)) :
    firstLine p (before ++ line :: after)
      = (firstLine p (before ++ after)).map (Prod.map (shifted before.length) id) := by
  -- With `n` lines before them, the lines of the first part keep their numbers, as they are at most
  -- `n + before.length`.
  have hfrom : ∀ n, firstLineFrom p (n + 1) (before ++ line :: after)
      = (firstLineFrom p (n + 1) (before ++ after)).map
          (Prod.map (shifted (n + before.length)) id) := by
    induction before with
    | nil =>
        intro n
        rw [List.nil_append, List.nil_append, firstLineFrom, h, List.length_nil, Nat.add_zero,
          if_neg Bool.false_ne_true]
        exact firstLineFrom_succ (Nat.lt_succ_self n) after
    | cons first before ih =>
        intro n
        have hcount : n + 1 + before.length = n + (first :: before).length := by
          rw [List.length_cons]
          omega
        rw [List.cons_append, List.cons_append, firstLineFrom, firstLineFrom, ih, hcount]
        split
        · have hle : n + 1 ≤ n + (first :: before).length := by
            rw [List.length_cons]
            omega
          rw [Option.map_some, Prod.map_apply, shifted_of_le hle, id]
        · rfl
  simpa [firstLine] using hfrom 0

/-! ## Blank lines -/

section

variable {line : List Char} (h : ∀ c ∈ line, isBlank c = true)

include h

theorem isTabbed_of_blank : isTabbed line = false := by
  simp [isTabbed, isEmptyLine, trim, trimWhere_of_all h]

theorem isMisaligned_of_blank (width : Nat) : isMisaligned width line = false := by
  simp [isMisaligned, isEmptyLine, trim, trimWhere_of_all h]

theorem isSignificant_of_blank : isSignificant (trim line) = false := by
  rw [trim, trimWhere_of_all h]
  rfl

/-- A blank line moves what is found behind it. -/
theorem findings_blank (rules : StyleRules) (ext : String) (before after : List (List Char)) :
    findings rules ext (before ++ line :: after)
      = (findings rules ext (before ++ after)).map (Finding.moved before.length) := by
  have hquotes : dominantQuote (before ++ line :: after) = dominantQuote (before ++ after) :=
    dominantQuote_insert
      (.inr ⟨not_mem_of_all h (by decide), not_mem_of_all h (by decide)⟩) before after
  have hmisaligned : firstMisaligned rules.indentWidth (before ++ line :: after)
      = (firstMisaligned rules.indentWidth (before ++ after)).map
          (Prod.map (shifted before.length) id) := by
    rw [firstMisaligned, firstMisaligned, firstLine_insert (isMisaligned_of_blank h _)]
    split
    · rfl
    · simp [Function.comp_def]
  rw [findings, firstLine_insert (isTabbed_of_blank h), hmisaligned, hquotes,
    firstMissingComma_insert (isSignificant_of_blank h), findings]
  simp only [List.map_append, ← Option.toList_map, Option.map_map, apply_ite (Option.map _),
    Option.map_none]
  rfl

end

/--
Other line ends leave the issues of a source as they are.  One more line of white space, at any place
between the lines of the source, before or behind them, leaves the kinds and severities of the issues
as they are, and adds one to the numbers of the lines that come behind it.
-/
theorem checkSource_spaced {source : List Char} (hreturn : '\r' ∉ source) (rules : StyleRules)
    (path ext : String) :
    checkSource rules path ext (withReturns source) = checkSource rules path ext source ∧
      checkSource rules path ext source
        = (findings rules ext (lines source)).map (Finding.issue rules path) ∧
      ∀ {line longer : List Char} {count : Nat}, (∀ c ∈ line, isBlank c = true ∧ c ≠ '\n') →
        Inserted line source longer count →
          checkSource rules path ext longer
              = ((findings rules ext (lines source)).map (Finding.moved count)).map
                  (Finding.issue rules path) ∧
            (checkSource rules path ext longer).map Issue.severity
              = (checkSource rules path ext source).map Issue.severity := by
  refine ⟨?_, checkSource_eq rules path ext source, ?_⟩
  · rw [checkSource_eq, checkSource_eq, lines_withReturns hreturn]
  · intro line longer count hline hinserted
    obtain ⟨before, inserted, after, hsource, hlonger, rfl, hsubset⟩ :=
      hinserted.lines_eq (fun hmem => (hline _ hmem).2 rfl) hreturn
    have hblank : ∀ c ∈ inserted, isBlank c = true := fun c hc => (hline c (hsubset hc)).1
    have hmoved : checkSource rules path ext longer
        = ((findings rules ext (lines source)).map (Finding.moved before.length)).map
            (Finding.issue rules path) := by
      rw [checkSource_eq, hlonger, hsource, findings_blank hblank]
    refine ⟨hmoved, ?_⟩
    rw [hmoved, checkSource_eq, List.map_map, List.map_map, List.map_map]
    refine List.map_congr_left fun finding _ => ?_
    cases finding <;> rfl

def sampleRules : StyleRules :=
  { quoteStyle := .double, requireTrailingComma := true }

def sampleSource : List Char :=
  "const o = \x7b\n   'a': 1\n\x7d;\n\tf();".toList

theorem checkSource_spaced_sample :
    '\r' ∉ sampleSource ∧
      Inserted " \t".toList sampleSource "const o = \x7b\n   'a': 1\n \t\n\x7d;\n\tf();".toList 2 ∧
      checkSource sampleRules "a.ts" "ts" sampleSource
        = [.tabs 4, .misaligned 2 3, .quotes .single, .comma 2].map
            (Finding.issue sampleRules "a.ts") ∧
      checkSource sampleRules "a.ts" "ts" "const o = \x7b\n   'a': 1\n \t\n\x7d;\n\tf();".toList
        = [.tabs 5, .misaligned 2 3, .quotes .single, .comma 2].map
            (Finding.issue sampleRules "a.ts") := by
  have hreturn : '\r' ∉ sampleSource := by decide
  have hfindings : findings sampleRules "ts" (lines sampleSource)
      = [.tabs 4, .misaligned 2 3, .quotes .single, .comma 2] := by decide
  have hended : Ended "const o = \x7b\n   'a': 1\n".toList := by decide
  have hinserted : Inserted " \t".toList sampleSource
      "const o = \x7b\n   'a': 1\n \t\n\x7d;\n\tf();".toList 2 :=
    .between hended "\x7d;\n\tf();".toList
  obtain ⟨_, hsource, hlonger⟩ := checkSource_spaced hreturn sampleRules "a.ts" "ts"
  refine ⟨hreturn, hinserted, ?_, ?_⟩
  · rw [hsource, hfindings]
  · rw [(hlonger (by simp [isBlank]) hinserted).1, hfindings]
    rfl

end Style
end Rules
end ProjectConsistency
