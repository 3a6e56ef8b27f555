import Mathlib.Data.List.TakeWhile
import ProjectConsistency.Project.ConfigFile
import ProjectConsistency.Proofs.Json.Printed
import ProjectConsistency.Proofs.Json.Tidied
import ProjectConsistency.Proofs.Text.Lines

/-!
# Comments — a configuration file without comments is read as JSON

This file defines:

* `ConfigFile.Commented` — a text with comments between its lines.

Lines in a configuration file that are comments do not count.  What is left is the same text with
other ends of its lines, up to the first such line (`tidied_stripComments`), and no JSON text has one:
a line of a JSON text begins with blanks and a token.  So JSON is read as what it is
(`ofText_of_parse`), with or without comments between its lines (`ofText_of_commented`).
-/

namespace ProjectConsistency
namespace ConfigFile

open Text

/-! ## Comments -/

/-- A comment is two slashes after blanks at most. -/
theorem isComment_iff {cs : List Char} : isComment cs = true ↔
    ∃ blanks more, cs = blanks ++ '/' :: '/' :: more ∧ ∀ c ∈ blanks, isBlank c = true := by
  rw [isComment, startsWith, List.isPrefixOf_iff_prefix, trimStart]
  constructor
  · rintro ⟨more, hmore⟩
    refine ⟨cs.takeWhile isBlank, more, ?_, fun c hc => List.mem_takeWhile_imp hc⟩
    conv_lhs => rw [← List.takeWhile_append_dropWhile (p := isBlank) (l := cs), ← hmore]
    rfl
  · rintro ⟨blanks, more, rfl, hblanks⟩
    rw [List.dropWhile_append_of_pos hblanks]
    exact ⟨more, rfl⟩

theorem isComment_append {line : List Char} (h : isComment line = true) (rest : List Char) :
    isComment (line ++ rest) = true := by
  obtain ⟨blanks, more, rfl, hblanks⟩ := isComment_iff.1 h
  exact isComment_iff.2 ⟨blanks, more ++ rest, by simp, hblanks⟩

theorem isComment_of_dropReturn {line : List Char} (h : isComment (dropReturn line) = true) :
    isComment line = true := by
  obtain ⟨tail, htail⟩ := exists_eq_dropReturn line
  rw [htail]
  exact isComment_append h tail

/-- A text that has lines, all of which are comments, begins with a comment. -/
theorem isComment_of_lines {cs : List Char} (h : ∀ line ∈ lines cs, isComment line = true)
    (hne : cs ≠ []) : isComment cs = true := by
  induction cs using lines_induction with
  | last line hfeed =>
      rw [lines_of_feed_not_mem hfeed hne] at h
      exact h line (by simp)
  | more line rest hfeed _ =>
      rw [lines_line hfeed] at h
      exact isComment_append (isComment_of_dropReturn (h _ (by simp))) _

/-- White space that is no blank of JSON begins no token. -/
theorem alien_of_isBlank {c : Char} (hblank : isBlank c = true) (hgap : Json.isGap c = false) :
    Json.Alien c := by
  have hdigit : Json.digit? c = none := by
    rw [Json.digit?, if_neg]
    rintro ⟨hlow, hhigh⟩
    have hlow : 48 ≤ c.toNat := hlow
    have hhigh : c.toNat ≤ 57 := hhigh
    simp [isBlank] at hblank
    omega
  have htoken : ∀ d ∈ ['n', 't', 'f', '"', '[', ']', '{', '}', ',', ':', '-'], isBlank d = false := by
    simp [isBlank]
  refine ⟨hgap, hdigit, fun hmem => ?_⟩
  rw [htoken c hmem] at hblank
  cases hblank

/-- No token begins a comment. -/
theorem exists_alien_of_isComment {cs : List Char} (h : isComment cs = true) :
    ∃ gap c more, cs = gap ++ c :: more ∧ Json.Blank gap ∧ Json.Alien c := by
  obtain ⟨blanks, more, rfl, hblanks⟩ := isComment_iff.1 h
  have hsplit := List.takeWhile_append_dropWhile (p := Json.isGap) (l := blanks)
  have hgap : Json.Blank (blanks.takeWhile Json.isGap) := fun c hc => List.mem_takeWhile_imp hc
  cases hrest : blanks.dropWhile Json.isGap with
  | nil =>
      rw [hrest, List.append_nil] at hsplit
      rw [hsplit] at hgap
      exact ⟨blanks, '/', '/' :: more, rfl, hgap, by decide⟩
  | cons c after =>
      rw [hrest] at hsplit
      have hc : isBlank c = true := hblanks c (by rw [← hsplit]; simp)
      refine ⟨blanks.takeWhile Json.isGap, c, after ++ '/' :: '/' :: more, ?_, hgap,
        alien_of_isBlank hc (Json.isGap_of_skipGap hrest)⟩
      conv_lhs => rw [← hsplit]
      simp

/-! ## Texts without comments -/

/-- The lines that are no comments, each after a line feed. -/
def tail (rest : List Char) : List Char :=
  ((lines rest).filter fun line => !isComment line).flatMap (['\n'] ++ ·)

/-- A line that is no comment stays, without its carriage return. -/
theorem stripComments_line {line : List Char} (hfeed : '\n' ∉ line)
    (hcomment : isComment (dropReturn line) = false) (rest : List Char) :
    stripComments (line ++ '\n' :: rest) = dropReturn line ++ tail rest := by
  rw [stripComments, lines_line hfeed, List.filter_cons_of_pos (by simp [hcomment]), joinLines,
    Json.intercalate_cons, tail]

/-- Either there is no line left or what is left comes after a line feed. -/
theorem tail_eq (rest : List Char) :
    tail rest = [] ∧ (∀ line ∈ lines rest, isComment line = true) ∨
      tail rest = '\n' :: stripComments rest := by
  rw [tail, stripComments, joinLines]
  cases hkept : (lines rest).filter fun line => !isComment line with
  | nil =>
      refine .inl ⟨rfl, fun line hline => ?_⟩
      simpa using List.filter_eq_nil_iff.1 hkept line hline
  | cons line kept => exact .inr (by rw [Json.intercalate_cons]; rfl)

/-- Dropping the carriage return of a line tidies the text. -/
theorem tidied_line {rest after : List Char} (h : Json.Tidied ('\n' :: rest) after)
    (line : List Char) : Json.Tidied (line ++ '\n' :: rest) (dropReturn line ++ after) := by
  by_cases hlast : line.getLast? = some '\r'
  · obtain ⟨before, rfl⟩ := List.getLast?_eq_some_iff.1 hlast
    rw [dropReturn_concat, List.append_assoc]
    exact Json.Tidied.append before (.returned h)
  · rw [dropReturn_of_last hlast]
    exact Json.Tidied.append line h

/-- Up to its first comment a text is the same without comments, but for the ends of its lines. -/
theorem tidied_stripComments {cs : List Char} (h : isComment cs = false) :
    Json.Tidied cs (stripComments cs) := by
  induction cs using lines_induction with
  | last line hfeed =>
      by_cases hne : line = []
      · subst hne
        exact .nil
      · have hsame : stripComments line = line := by
          simp [stripComments, lines_of_feed_not_mem hfeed hne, h, joinLines]
        rw [hsame]
        exact .refl line
  | more line rest hfeed ih =>
      have hline : isComment (dropReturn line) = false := by
        by_contra hcomment
        have hall := isComment_append (isComment_of_dropReturn (by simpa using hcomment))
          ('\n' :: rest)
        rw [h] at hall
        cases hall
      rw [stripComments_line hfeed hline]
      refine tidied_line ?_ line
      by_cases hrest : isComment rest = true
      -- A comment follows: no value can go on there, and the texts may differ from here on.
      · obtain ⟨gap, c, more, rfl, hgap, halien⟩ := exists_alien_of_isComment hrest
        refine .astray gap more hgap halien ?_
        rcases tail_eq (gap ++ c :: more) with ⟨heq, _⟩ | heq
        · simp [heq]
        · simp [heq]
      -- Else the next line stays, unless nothing but its end is left.
      · rcases tail_eq rest with ⟨heq, hall⟩ | heq
        · by_cases hne : rest = []
          · subst hne
            exact .last
          · exact absurd (isComment_of_lines hall hne) hrest
        · rw [heq]
          exact .same '\n' (ih (by simpa using hrest))

/-- JSON is read as what it is. -/
theorem ofText_of_parse {text : String} {x : Json} (h : Json.parse text = .ok x) :
    ofText text = .parsed x := by
  have hcomment : isComment text.toList = false := by
    by_contra hcomment
    obtain ⟨gap, c, more, heq, hgap, halien⟩ := exists_alien_of_isComment (by simpa using hcomment)
    rw [Json.parse, heq] at h
    exact Json.parseChars_alien hgap halien h
  rw [ofText, Json.parseChars_of_tidied (tidied_stripComments hcomment) h]

/-! ## Texts with comments -/

theorem isComment_dropReturn {line : List Char} (h : isComment line = true) :
    isComment (dropReturn line) = true := by
  obtain ⟨blanks, more, rfl, hblanks⟩ := isComment_iff.1 h
  have hlast : (blanks ++ ['/', '/']).getLast? ≠ some '\r' := by simp
  have hline : blanks ++ '/' :: '/' :: more = (blanks ++ ['/', '/']) ++ more := by simp
  rw [hline, dropReturn_append hlast]
  exact isComment_iff.2 ⟨blanks, dropReturn more, by simp, hblanks⟩

/-- The second text is the first one with comments between its lines, before and after them. -/
inductive Commented (cs : List Char) : List Char → Prop where
  | plain : Commented cs cs
  | line {before after comment : List Char} (rest : Commented cs (before ++ after))
      (hbefore : Ended before) (hfeed : '\n' ∉ comment) (hcomment : isComment comment = true) :
      Commented cs (before ++ (comment ++ '\n' :: after))
  | last {before comment : List Char} (rest : Commented cs before) (hbefore : Ended before)
      (hfeed : '\n' ∉ comment) (hcomment : isComment comment = true) :
      Commented cs (before ++ comment)

/-- The comments between the lines of a text are what it loses. -/
theorem stripComments_of_commented {cs ds : List Char} (h : Commented cs ds) :
    stripComments ds = stripComments cs := by
  have hlines : (lines ds).filter (fun line => !isComment line)
      = (lines cs).filter fun line => !isComment line := by
    induction h with
    | plain => rfl
    | @line before after comment _ hbefore hfeed hcomment ih =>
        have hdropped : isComment (dropReturn comment) = true := isComment_dropReturn hcomment
        rw [lines_append hbefore, List.filter_append] at ih
        rw [lines_append hbefore, lines_line hfeed, List.filter_append,
          List.filter_cons_of_neg (by simp [hdropped]), ih]
    | @last before comment _ hbefore hfeed hcomment ih =>
        have hne : comment ≠ [] := by
          rintro rfl
          cases hcomment
        rw [lines_append hbefore, lines_of_feed_not_mem hfeed hne, List.filter_append,
          List.filter_cons_of_neg (by simp [hcomment]), ih, List.filter_nil, List.append_nil]
  rw [stripComments, hlines, stripComments]

/-- JSON is read as what it is, and comments between its lines change nothing. -/
theorem ofText_of_commented {text : String} {x : Json} (h : Json.parse text = .ok x) :
    ofText text = .parsed x ∧
      ∀ file : String, Commented text.toList file.toList → ofText file = .parsed x := by
  have hplain := ofText_of_parse h
  refine ⟨hplain, ?_⟩
  intro file hfile
  rw [← hplain, ofText, ofText, stripComments_of_commented hfile]

/-- An object with two slashes in a string at the start of a line, and other ends of lines. -/
def slashedText : String :=
  "\x7b\"a\":\r\n\t\"//\",\r\n  \"b\": [1, null]\r\n\x7d\n"

theorem ofText_of_commented_slashed :
    ∃ x, Json.parse slashedText = .ok x ∧ ofText slashedText = .parsed x ∧
      ofText ("  // settings\n" ++ slashedText ++ "// end") = .parsed x := by
  have hparse : Json.parse slashedText = .ok (.object
      [("a", .string "//"), ("b", .array [.number (.integer 1), .null])]) := by rfl
  obtain ⟨hplain, hcommented⟩ := ofText_of_commented hparse
  refine ⟨_, hparse, hplain, hcommented _ ?_⟩
  have hend : Commented slashedText.toList (slashedText.toList ++ "// end".toList) :=
    .last .plain (by decide) (by decide) (by decide)
  have hboth : Commented slashedText.toList
      ([] ++ ("  // settings".toList ++ '\n' :: (slashedText.toList ++ "// end".toList))) :=
    .line hend (by decide) (by decide) (by decide)
  simpa using hboth

end ConfigFile
end ProjectConsistency
