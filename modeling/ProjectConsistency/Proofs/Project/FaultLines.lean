import ProjectConsistency.Proofs.Json.Positions
import ProjectConsistency.Proofs.Project.Comments

/-!
# FaultLines — the line that is named for a configuration file that is no JSON

This file defines:

* `ConfigFile.placeFrom` — where a place in the lines that count stands among all lines;
* `ConfigFile.located?` — the error of a file, with the line and column that it has in the file;
* `ConfigFile.counted` — the lines that are no comments.

The lines of a configuration file that are comments are left out before the others are read, and the
message counts the lines that are left (`place_of_offset`, `exists_located`).  So the line that it names
comes too early by one for each comment before it, and is the line where reading stopped just if there
are none (`refused_names_line_iff`).
-/

namespace ProjectConsistency
namespace ConfigFile

open Text

/-! ## Places -/

/-- The line and column of the place that comes `offset` bytes after the start of the lines that are no
comments.  The first line has the number `n`, and comments are numbered too. -/
def placeFrom (n offset : Nat) : List (List Char) → Option (Nat × Nat)
  | [] => none
  | line :: rest =>
      if isComment line then placeFrom (n + 1) offset rest
      else if offset ≤ Json.byteLength line then some (n, offset)
      else placeFrom (n + 1) (offset - Json.byteLength line - 1) rest

/-- The error of a content that is refused, with its line and column in the content. -/
def located? (cs : List Char) : Option Json.SyntaxError :=
  (Json.stop? (stripComments cs)).bind fun stop =>
    (placeFrom 1 (stop.offset (stripComments cs)) (lines cs)).map fun (line, column) =>
      ⟨stop.fault, line, column⟩

def counted (ls : List (List Char)) : List (List Char) :=
  ls.filter fun line => !isComment line

theorem stripComments_eq (cs : List Char) : stripComments cs = joinLines (counted (lines cs)) := rfl

/-- A comment line is not counted. -/
theorem counted_comment {line : List Char} (h : isComment line = true) (ls : List (List Char)) :
    counted (line :: ls) = counted ls := by
  simp [counted, h]

theorem counted_cons {line : List Char} (h : isComment line = false) (ls : List (List Char)) :
    counted (line :: ls) = line :: counted ls := by
  simp [counted, h]

/-- No place lies in lines that are all comments. -/
theorem placeFrom_of_comments {ls : List (List Char)} (h : ∀ line ∈ ls, isComment line = true)
    (n offset : Nat) : placeFrom n offset ls = none := by
  induction ls generalizing n with
  | nil => rfl
  | cons line ls ih =>
      obtain ⟨hline, hls⟩ := List.forall_mem_cons.1 h
      rw [placeFrom, if_pos hline, ih hls]

/-- A place in the lines that count has its column in a line of them.  Its number there counts the
lines before it that are no comments, and its number among all lines counts all of them. -/
theorem place_of_offset {ls : List (List Char)} (hfeed : ∀ line ∈ ls, '\n' ∉ line)
    (hcounted : counted ls ≠ []) (n m : Nat) {offset : Nat}
    (hoffset : offset ≤ Json.byteLength (joinLines (counted ls))) :
    ∃ before line after column, ls = before ++ line :: after ∧ isComment line = false ∧
      column ≤ Json.byteLength line ∧
      placeFrom n offset ls = some (n + before.length, column) ∧
      Json.positionFrom m 0 offset (joinLines (counted ls))
        = (m + (counted before).length, column) := by
  induction ls generalizing n m offset with
  | nil => exact absurd rfl hcounted
  | cons first ls ih =>
      obtain ⟨hfirst, hfeed⟩ := List.forall_mem_cons.1 hfeed
      -- A comment line is counted in the content only, any other line in both texts.
      by_cases hcomment : isComment first = true
      · rw [counted_comment hcomment] at hcounted hoffset ⊢
        obtain ⟨before, line, after, column, rfl, hline, hcolumn, hplace, hposition⟩ :=
          ih hfeed hcounted (n + 1) m hoffset
        refine ⟨first :: before, line, after, column, rfl, hline, hcolumn, ?_, ?_⟩
        · rw [placeFrom, if_pos hcomment, hplace, List.length_cons, Nat.add_right_comm, Nat.add_assoc]
        · rw [hposition, counted_comment hcomment]
      · have hcomment : isComment first = false := by simpa using hcomment
        rw [counted_cons hcomment] at hoffset ⊢
        rcases Json.positionFrom_joinLines hfirst (counted ls) m hoffset with
          ⟨hwithin, hposition⟩ | ⟨more, rfl, hmore, hrest, hposition⟩
        · refine ⟨[], first, ls, offset, rfl, hcomment, hwithin, ?_, hposition⟩
          simp [placeFrom, hcomment, hwithin]
        · obtain ⟨before, line, after, column, rfl, hline, hcolumn, hplace, hposition'⟩ :=
            ih hfeed hrest (n + 1) (m + 1) hmore
          refine ⟨first :: before, line, after, column, rfl, hline, hcolumn, ?_, ?_⟩
          · have hpast : ¬ Json.byteLength first + (more + 1) ≤ Json.byteLength first := by omega
            have hmore : Json.byteLength first + (more + 1) - Json.byteLength first - 1 = more := by
              omega
            rw [placeFrom, if_neg (by simp [hcomment]), if_neg hpast, hmore, hplace,
              List.length_cons, Nat.add_right_comm, Nat.add_assoc]
          · rw [hposition, hposition', counted_cons hcomment, List.length_cons, Nat.add_right_comm,
              Nat.add_assoc]

/-! ## Messages -/

/-- Two messages that differ in nothing but the line name the same line. -/
theorem message_line_inj (fault : Json.Fault) (m n column : Nat) :
    (Json.SyntaxError.mk fault m column).message = (Json.SyntaxError.mk fault n column).message ↔
      m = n := by
  constructor
  · intro h
    simp only [Json.SyntaxError.message, String.append_assoc, String.append_right_inj] at h
    simp only [← String.append_assoc, String.append_left_inj] at h
    have hdigits : Nat.toDigits 10 m = Nat.toDigits 10 n := by
      simpa using congrArg String.toList h
    have hvalue := congrArg (Nat.ofDigitChars 10 · 0) hdigits
    simpa [Nat.ofDigitChars_toDigits] using hvalue
  · rintro rfl
    rfl

/-- A content is refused with the message of the place where the parser stops. -/
theorem ofText_eq_invalid_iff {text message : String} :
    ofText text = .invalid message ↔
      (Json.stop? (stripComments text.toList)).map
        (fun stop => (stop.toSyntaxError (stripComments text.toList)).message) = some message := by
  rw [Option.map_eq_some_iff, ofText]
  cases hparse : Json.parseChars (stripComments text.toList) with
  | ok x =>
      constructor
      · intro h
        cases h
      · rintro ⟨stop, hstop, _⟩
        rw [Json.parseChars_eq_error_iff.2 ⟨stop, hstop, rfl⟩] at hparse
        cases hparse
  | error e =>
      obtain ⟨stop, hstop, rfl⟩ := Json.parseChars_eq_error_iff.1 hparse
      simp [hstop]

/-- If not all lines are comments, the error of a content stands in one that is none, and the message
names the number that this line has without the comments. -/
theorem exists_located {text message : String} (h : ofText text = .invalid message)
    (hcounted : counted (lines text.toList) ≠ []) :
    ∃ e before line after, located? text.toList = some e ∧
      lines text.toList = before ++ line :: after ∧ isComment line = false ∧
      e.line = before.length + 1 ∧ e.column ≤ Json.byteLength line ∧
      message = { e with line := (counted before).length + 1 }.message := by
  obtain ⟨stop, hstop, rfl⟩ := Option.map_eq_some_iff.1 (ofText_eq_invalid_iff.1 h)
  obtain ⟨before, line, after, column, hlines, hline, hcolumn, hplace, hposition⟩ :=
    place_of_offset (feed_not_mem_lines text.toList) hcounted 1 1
      (stop.offset_le (stripComments text.toList))
  refine ⟨⟨stop.fault, 1 + before.length, column⟩, before, line, after, ?_, hlines, hline,
    Nat.add_comm _ _, hcolumn, ?_⟩
  · rw [located?, hstop, Option.bind_some, hplace, Option.map_some]
  · rw [← stripComments_eq] at hposition
    rw [Json.Stop.toSyntaxError_eq, Json.positionAt, hposition, Nat.add_comm]

/-- If all lines are comments, there is no line where reading stops, and the message names the first. -/
theorem located_of_comments {text : String} (h : counted (lines text.toList) = []) :
    located? text.toList = none ∧
      ofText text = .invalid "EOF while parsing a value at line 1 column 0" := by
  have hall : ∀ line ∈ lines text.toList, isComment line = true := by
    simpa using List.filter_eq_nil_iff.1 h
  have hstripped : stripComments text.toList = [] := by
    rw [stripComments_eq, h]
    rfl
  refine ⟨?_, ?_⟩
  · simp [located?, placeFrom_of_comments hall]
  · rw [ofText, hstripped, Json.parseChars_nil]
    rfl

/--
A content that is refused has an error in a line that is no comment, unless all of its lines are
comments.  The message names this line by its number among the lines that are no comments.  That is its
number in the content just if no comment comes before it.
-/
theorem refused_names_line_iff {text message : String} (h : ofText text = .invalid message) :
    ((∀ line ∈ lines text.toList, isComment line = true) ∧ located? text.toList = none ∧
        message = "EOF while parsing a value at line 1 column 0") ∨
      ∃ e before line after, located? text.toList = some e ∧
        lines text.toList = before ++ line :: after ∧ isComment line = false ∧
        e.line = before.length + 1 ∧ e.column ≤ Json.byteLength line ∧
        message = { e with line := (counted before).length + 1 }.message ∧
        (message = e.message ↔ ∀ other ∈ before, isComment other = false) := by
  by_cases hcounted : counted (lines text.toList) = []
  · obtain ⟨hlocated, hrefused⟩ := located_of_comments hcounted
    rw [hrefused] at h
    cases h
    exact .inl ⟨by simpa using List.filter_eq_nil_iff.1 hcounted, hlocated, rfl⟩
  · obtain ⟨⟨fault, n, column⟩, before, line, after, hlocated, hlines, hline, rfl, hcolumn, rfl⟩ :=
      exists_located h hcounted
    refine .inr ⟨_, before, line, after, hlocated, hlines, hline, rfl, hcolumn, rfl, ?_⟩
    rw [message_line_inj, Nat.add_right_cancel_iff, counted, List.length_filter_eq_length_iff]
    simp

/-- A list that is not closed, with comments before and after the place where this shows. -/
def openText : String :=
  "\x7b\n  \"files\": [\n    \"a.ts\"\n  // and so on\n\x7d\n// end"

/-- A comment before the fault keeps the message from naming its line. -/
theorem refused_names_line_iff_open :
    ofText openText = .invalid "expected `,` or `]` at line 4 column 1" ∧
      located? openText.toList = some ⟨.expectedListSeparator, 5, 1⟩ ∧
      "expected `,` or `]` at line 4 column 1"
        ≠ (Json.SyntaxError.mk .expectedListSeparator 5 1).message := by
  have hrefused : ofText openText = .invalid "expected `,` or `]` at line 4 column 1" :=
    ofText_eq_invalid_iff.2 (by decide +kernel)
  have hplace : located? openText.toList = some ⟨.expectedListSeparator, 5, 1⟩ := by decide
  refine ⟨hrefused, hplace, ?_⟩
  rcases refused_names_line_iff hrefused with
    ⟨_, hnone, _⟩ | ⟨e, before, line, after, hlocated, hlines, _, hnumber, _, _, hnames⟩
  · rw [hplace] at hnone
    cases hnone
  · obtain rfl : _ = e := Option.some.inj (hplace.symm.trans hlocated)
    have hlength : before.length = 4 := (Nat.succ.inj hnumber).symm
    have hbefore : before = (lines openText.toList).take 4 := by
      rw [hlines, ← hlength, List.take_left]
    rw [Ne, hnames, hbefore]
    decide

/-- A comment on the first line makes the message name the line before that of the fault. -/
theorem refused_names_other_line :
    ∃ text fault named line column,
      ofText text = .invalid (Json.SyntaxError.mk fault named column).message ∧
        located? text.toList = some ⟨fault, line, column⟩ ∧ named ≠ line := by
  refine ⟨"// settings\n\x7b", .endInObject, 1, 2, 1, ?_, ?_, ?_⟩
  · exact ofText_eq_invalid_iff.2 (by decide +kernel)
  · decide
  · decide

end ConfigFile
end ProjectConsistency
