import Mathlib.Data.List.Basic
import ProjectConsistency.Proofs.Text.Lines
import ProjectConsistency.Proofs.Text.Trim

/-!
# LineEnds — other ends of lines, and one more line

This file defines:

* `Text.withReturns` — a text with a carriage return before each line feed;
* `Text.closed` — a text whose last line is ended;
* `Text.Inserted` — one text is another one with one more line.

A text without carriage returns has the same lines with such returns (`lines_withReturns`), and with a
line feed after its last line (`lines_closed`); where lines are trimmed, the returns make no difference
at all (`trim_dropReturn`).  One more line in a text is one more line among its lines, wherever it
begins and whether or not something follows it (`Inserted.lines_eq`).
-/

namespace ProjectConsistency
namespace Text

/-! ## Carriage returns -/

/-- A text with a carriage return before each line feed. -/
def withReturns (cs : List Char) : List Char :=
  cs.flatMap fun c => if c = '\n' then ['\r', '\n'] else [c]

theorem withReturns_of_feed_not_mem {line : List Char} (h : '\n' ∉ line) : withReturns line = line := by
  have hkept : ∀ c ∈ line, (if c = '\n' then ['\r', '\n'] else [c]) = [c] := by
    intro c hc
    refine if_neg ?_
    rintro rfl
    exact h hc
  rw [withReturns, List.flatMap_congr hkept, List.flatMap_singleton']

/-- Each line feed gets a carriage return in front. -/
theorem withReturns_line {line : List Char} (h : '\n' ∉ line) (rest : List Char) :
    withReturns (line ++ '\n' :: rest) = (line ++ ['\r']) ++ '\n' :: withReturns rest := by
  rw [withReturns, List.flatMap_append, ← withReturns, withReturns_of_feed_not_mem h]
  simp [withReturns]

theorem dropReturn_of_not_mem {line : List Char} (h : '\r' ∉ line) : dropReturn line = line :=
  dropReturn_of_last fun hlast => h (List.mem_of_getLast? hlast)

/-- A carriage return at the end of a line is white space. -/
theorem trim_dropReturn (line : List Char) : trim (dropReturn line) = trim line := by
  by_cases hlast : line.getLast? = some '\r'
  · obtain ⟨before, rfl⟩ := List.getLast?_eq_some_iff.1 hlast
    rw [dropReturn_concat, trim_append_right (List.forall_mem_singleton.2 (by decide))]
  · rw [dropReturn_of_last hlast]

/-- The returns belong to the ends of the lines. -/
theorem lines_withReturns {cs : List Char} (h : '\r' ∉ cs) : lines (withReturns cs) = lines cs := by
  induction cs using lines_induction with
  | last line hfeed => rw [withReturns_of_feed_not_mem hfeed]
  | more line rest hfeed ih =>
      obtain ⟨hline, hrest⟩ : '\r' ∉ line ∧ '\r' ∉ rest := by simpa using h
      have hreturned : '\n' ∉ line ++ ['\r'] := by simpa using hfeed
      rw [withReturns_line hfeed, lines_line hreturned, lines_line hfeed, dropReturn_concat,
        dropReturn_of_not_mem hline, ih hrest]

/-! ## Open lines -/

/-- A text with a line feed at its end, if a line is open there. -/
def closed (cs : List Char) : List Char :=
  if Ended cs then cs else cs ++ ['\n']

theorem ended_concat (cs : List Char) : Ended (cs ++ ['\n']) := by
  simp [Ended]

theorem ended_closed (cs : List Char) : Ended (closed cs) := by
  rw [closed]
  split
  · assumption
  · exact ended_concat cs

/-- The end of an open line adds no line. -/
theorem lines_concat {cs : List Char} (hopen : ¬ Ended cs) (h : '\r' ∉ cs) :
    lines (cs ++ ['\n']) = lines cs := by
  induction cs using lines_induction with
  | last line hfeed =>
      have hne : line ≠ [] := by
        rintro rfl
        exact hopen (by simp [Ended])
      rw [lines_line hfeed, lines_of_feed_not_mem hfeed hne, dropReturn_of_not_mem h]
      rfl
  | more line rest hfeed ih =>
      -- The line that is open is in the rest, for behind the line feed none is open.
      have hrest : ¬ Ended rest := by
        intro hended
        cases rest with
        | nil => exact hopen (ended_concat line)
        | cons c more =>
            refine hopen fun d hd => hended d ?_
            simpa [List.getLast?_append] using hd
      rw [List.append_assoc, List.cons_append, lines_line hfeed, lines_line hfeed,
        ih hrest fun hmem => h (by simp [hmem])]

/-- A final line feed adds no line. -/
theorem lines_closed {cs : List Char} (h : '\r' ∉ cs) : lines (closed cs) = lines cs := by
  rw [closed]
  split
  · rfl
  · exact lines_concat (by assumption) h

/-! ## Inserted lines -/

/-- The second text is the first one with one more line, which comes behind `count` lines.  It stands
where a line begins, or behind the last line, with or without a line feed at its end. -/
inductive Inserted (line : List Char) : List Char → List Char → Nat → Prop where
  | between {before : List Char} (hbefore : Ended before) (after : List Char) :
      Inserted line (before ++ after) (before ++ (line ++ '\n' :: after)) (lines before).length
  | last (cs : List Char) {stop : List Char} (hstop : stop = [] ∨ stop = ['\n'])
      (hne : line ++ stop ≠ []) :
      Inserted line cs (closed cs ++ (line ++ stop)) (lines cs).length

/-- One more line in a text is one more among its lines, but for a carriage return at its end. -/
theorem Inserted.lines_eq {line cs longer : List Char} {count : Nat}
    (h : Inserted line cs longer count) (hfeed : '\n' ∉ line) (hreturn : '\r' ∉ cs) :
    ∃ before inserted after, lines cs = before ++ after ∧ lines longer = before ++ inserted :: after ∧
      before.length = count ∧ inserted ⊆ line := by
  have hsubset : dropReturn line ⊆ line := by
    obtain ⟨tail, htail⟩ := exists_eq_dropReturn line
    intro c hc
    rw [htail]
    exact List.mem_append_left _ hc
  cases h with
  | @between before hbefore after =>
      refine ⟨lines before, dropReturn line, lines after, lines_append hbefore after, ?_, rfl, hsubset⟩
      rw [lines_append hbefore, lines_line hfeed]
  | last _ hstop hne =>
      have hlines : ∀ more, lines (closed cs ++ more) = lines cs ++ lines more := by
        intro more
        rw [lines_append (ended_closed cs), lines_closed hreturn]
      rcases hstop with rfl | rfl
      · rw [List.append_nil] at hne ⊢
        refine ⟨lines cs, line, [], (List.append_nil _).symm, ?_, rfl, fun _ hc => hc⟩
        rw [hlines, lines_of_feed_not_mem hfeed hne]
      · refine ⟨lines cs, dropReturn line, [], (List.append_nil _).symm, ?_, rfl, hsubset⟩
        rw [hlines, lines_line hfeed]
        rfl

end Text
end ProjectConsistency
