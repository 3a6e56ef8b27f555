import ProjectConsistency.Text.Lines

/-!
# Lines — texts and the lines that they consist of

This file defines:

* `Text.dropReturn` — a line without a carriage return at its end;
* `Text.Ended` — a text at whose end no line is open.

Lines with a line feed after each are found again, if no line has a line feed: without such a carriage
return (`lines_of_feeds`), or as they are if none ends with one (`lines_of_ended`).  Statements about
the lines of a text go by `lines_induction`, with `lines_line` for each line and `lines_of_feed_not_mem`
for the last.  Where no line is open, the lines of what follows come after those before
(`lines_append`).  What a text begins with, its first line begins with (`lines_cons`).
-/

namespace ProjectConsistency
namespace Text

/-- A line is finished at its line feed. -/
theorem linesFrom_line {line : List Char} (h : '\n' ∉ line) (back : List Char)
    (found : List (List Char)) (rest : List Char) :
    linesFrom back found (line ++ '\n' :: rest)
      = linesFrom [] (endedLine (line.reverse ++ back) :: found) rest := by
  induction line generalizing back with
  | nil => rfl
  | cons c line ih =>
      obtain ⟨hc, hline⟩ : ¬ '\n' = c ∧ '\n' ∉ line := by simpa using h
      rw [List.cons_append, linesFrom, ih hline, List.reverse_cons, List.append_assoc]
      · rfl
      · exact fun heq => hc heq.symm

/-- A line without a carriage return at its end. -/
def dropReturn (line : List Char) : List Char :=
  endedLine line.reverse

theorem dropReturn_of_last {line : List Char} (h : line.getLast? ≠ some '\r') :
    dropReturn line = line := by
  rw [dropReturn, endedLine.eq_def]
  split
  · rename_i back hback
    rw [List.getLast?_eq_head?_reverse, hback] at h
    exact absurd rfl h
  · exact List.reverse_reverse line

theorem dropReturn_concat (line : List Char) : dropReturn (line ++ ['\r']) = line := by
  simp [dropReturn, endedLine]

theorem exists_eq_dropReturn (line : List Char) : ∃ tail, line = dropReturn line ++ tail := by
  by_cases hlast : line.getLast? = some '\r'
  · obtain ⟨before, rfl⟩ := List.getLast?_eq_some_iff.1 hlast
    exact ⟨['\r'], by rw [dropReturn_concat]⟩
  · exact ⟨[], by rw [dropReturn_of_last hlast, List.append_nil]⟩

/-- Only what stands at the end is dropped. -/
theorem dropReturn_append {a : List Char} (h : a.getLast? ≠ some '\r') (b : List Char) :
    dropReturn (a ++ b) = a ++ dropReturn b := by
  by_cases hb : b.getLast? = some '\r'
  · obtain ⟨line, rfl⟩ := List.getLast?_eq_some_iff.1 hb
    rw [← List.append_assoc, dropReturn_concat, dropReturn_concat]
  · have hlast : (a ++ b).getLast? ≠ some '\r' := by
      rw [List.getLast?_append]
      cases hlast : b.getLast? with
      | none => simpa using h
      | some c => simpa [hlast] using hb
    rw [dropReturn_of_last hb, dropReturn_of_last hlast]

/-- Lines with a line feed after each are found again, but for a carriage return at their ends. -/
theorem lines_of_feeds {ls : List (List Char)} (h : ∀ line ∈ ls, '\n' ∉ line) :
    lines (ls.flatMap (· ++ ['\n'])) = ls.map dropReturn := by
  have hfrom : ∀ found,
      linesFrom [] found (ls.flatMap (· ++ ['\n'])) = found.reverse ++ ls.map dropReturn := by
    induction ls with
    | nil => simp [linesFrom]
    | cons line rest ih =>
        intro found
        obtain ⟨hfeed, hrest⟩ := List.forall_mem_cons.1 h
        rw [List.flatMap_cons, List.append_assoc, List.singleton_append, linesFrom_line hfeed,
          List.append_nil, ih hrest]
        simp [dropReturn]
  exact hfrom []

/-- Lines with a line feed after each are found again. -/
theorem lines_of_ended {ls : List (List Char)}
    (h : ∀ line ∈ ls, '\n' ∉ line ∧ line.getLast? ≠ some '\r') :
    lines (ls.flatMap (· ++ ['\n'])) = ls := by
  rw [lines_of_feeds fun line hline => (h line hline).1]
  refine (List.map_congr_left fun line hline => ?_).trans (List.map_id' ls)
  exact dropReturn_of_last (h line hline).2

/-- The finished lines come first. -/
theorem linesFrom_found (back : List Char) (found : List (List Char)) (cs : List Char) :
    linesFrom back found cs = found.reverse ++ linesFrom back [] cs := by
  induction cs generalizing back found with
  | nil => cases back <;> simp [linesFrom]
  | cons c rest ih =>
      by_cases hc : c = '\n'
      · subst hc
        rw [linesFrom, ih, linesFrom, ih [] [endedLine back]]
        simp
      · rw [linesFrom, ih, linesFrom]
        · exact hc
        · exact hc

/-- The lines of a text are its first line and those behind the line feed. -/
theorem lines_line {line : List Char} (h : '\n' ∉ line) (rest : List Char) :
    lines (line ++ '\n' :: rest) = dropReturn line :: lines rest := by
  rw [lines, linesFrom_line h, List.append_nil, linesFrom_found, lines, dropReturn]
  rfl

theorem lines_of_feed_not_mem {line : List Char} (h : '\n' ∉ line) (hne : line ≠ []) :
    lines line = [line] := by
  have hfrom : ∀ back, linesFrom back [] line
      = if (line.reverse ++ back).isEmpty then [] else [back.reverse ++ line] := by
    clear hne
    induction line with
    | nil => intro back; simp [linesFrom]
    | cons c rest ih =>
        intro back
        obtain ⟨hc, hrest⟩ : ¬ '\n' = c ∧ '\n' ∉ rest := by simpa using h
        rw [linesFrom, ih hrest]
        · simp
        · exact fun heq => hc heq.symm
  rw [lines, hfrom]
  simp [hne]

/-- A text is a line without a line feed, or such a line, a line feed and a text. -/
@[elab_as_elim]
theorem lines_induction {motive : List Char → Prop}
    (last : ∀ line, '\n' ∉ line → motive line)
    (more : ∀ line rest, '\n' ∉ line → motive rest → motive (line ++ '\n' :: rest))
    (cs : List Char) : motive cs := by
  induction hlength : cs.length using Nat.strongRecOn generalizing cs with
  | ind n ih =>
      by_cases hmem : '\n' ∈ cs
      · obtain ⟨line, rest, rfl, hline⟩ := List.eq_append_cons_of_mem hmem
        refine more line rest hline (ih rest.length ?_ rest rfl)
        rw [← hlength, List.length_append, List.length_cons]
        omega
      · exact last cs hmem

/-- The lines of a text have no line feeds. -/
theorem feed_not_mem_lines (cs : List Char) : ∀ line ∈ lines cs, '\n' ∉ line := by
  induction cs using lines_induction with
  | last line hfeed =>
      by_cases hne : line = []
      · subst hne
        nofun
      · simpa [lines_of_feed_not_mem hfeed hne] using hfeed
  | more line rest hfeed ih =>
      rw [lines_line hfeed]
      refine List.forall_mem_cons.2 ⟨?_, ih⟩
      obtain ⟨tail, htail⟩ := exists_eq_dropReturn line
      intro hmem
      rw [htail] at hfeed
      exact hfeed (List.mem_append_left _ hmem)

/-- The text is empty or ends with a line feed, so that what follows begins a line. -/
def Ended (cs : List Char) : Prop :=
  ∀ c ∈ cs.getLast?, c = '\n'

instance : DecidablePred Ended :=
  fun cs => Option.decidableForallMem cs.getLast?

/-- A text that has ended and holds no line feed is empty. -/
theorem Ended.eq_nil {line : List Char} (h : Ended line) (hfeed : '\n' ∉ line) : line = [] := by
  cases hlast : line.getLast? with
  | none => exact List.getLast?_eq_none_iff.1 hlast
  | some c =>
      rw [h c hlast] at hlast
      exact absurd (List.mem_of_getLast? hlast) hfeed

theorem Ended.of_append {cs rest : List Char} (h : Ended (cs ++ rest)) : Ended rest := by
  intro c hc
  refine h c ?_
  rw [List.getLast?_append, Option.mem_def.1 hc]
  rfl

/-- After finished lines come the lines of the rest. -/
theorem lines_append {cs : List Char} (h : Ended cs) (rest : List Char) :
    lines (cs ++ rest) = lines cs ++ lines rest := by
  induction cs using lines_induction with
  | last line hfeed =>
      rw [h.eq_nil hfeed]
      rfl
  | more line more hfeed ih =>
      have hmore : Ended more := by
        have hend : Ended ((line ++ ['\n']) ++ more) := by simpa using h
        exact hend.of_append
      rw [List.append_assoc, List.cons_append, lines_line hfeed, lines_line hfeed, ih hmore,
        List.cons_append]

/-- The first line begins with what the text begins with. -/
theorem lines_cons {c : Char} (hfeed : c ≠ '\n') (hreturn : c ≠ '\r') (rest : List Char) :
    ∃ more ls, lines (c :: rest) = (c :: more) :: ls := by
  -- Only a carriage return at the very end is dropped, and the first character is none.
  have hended : ∀ back, ∃ more, endedLine (back ++ [c]) = c :: more := by
    intro back
    rw [endedLine.eq_def]
    split
    · rename_i back' heq
      cases back with
      | nil =>
          cases heq
          exact absurd rfl hreturn
      | cons b back =>
          cases heq
          exact ⟨back.reverse, by simp⟩
    · exact ⟨back.reverse, by simp⟩
  have hfrom : ∀ back, ∃ more ls, linesFrom (back ++ [c]) [] rest = (c :: more) :: ls := by
    induction rest with
    | nil => exact fun back => ⟨back.reverse, [], by simp [linesFrom]⟩
    | cons d rest ih =>
        intro back
        by_cases hd : d = '\n'
        · subst hd
          obtain ⟨more, hmore⟩ := hended back
          exact ⟨more, linesFrom [] [] rest, by rw [linesFrom, linesFrom_found, hmore]; rfl⟩
        · rw [linesFrom]
          · exact ih (d :: back)
          · exact hd
  rw [lines, linesFrom]
  · exact hfrom []
  · exact hfeed

end Text
end ProjectConsistency
