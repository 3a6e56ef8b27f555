import ProjectConsistency.Json.Parser
import ProjectConsistency.Text.Lines

/-!
# Positions — the place in a text that a syntax error names

This file defines:

* `Json.stop?` — the fault that a text is refused for, and what is left of the text there;
* `Json.Stop.offset` — how many bytes come before it.

A text is refused just if there is such a fault (`parseChars_eq_error_iff`), and the error names the
line and column that the offset has (`Stop.toSyntaxError_eq`).  They are found line by line: an offset
that is past a line and its line feed is looked for in the rest of the text
(`positionFrom_joinLines`).
-/

namespace ProjectConsistency
namespace Json

open Text

/-! ## Bytes -/

theorem byteLength_cons (c : Char) (cs : List Char) :
    byteLength (c :: cs) = c.utf8Size + byteLength cs := by
  have hfrom : ∀ start, cs.foldl (fun n c => n + c.utf8Size) start = start + byteLength cs := by
    unfold byteLength
    induction cs with
    | nil => simp
    | cons d cs ih =>
        intro start
        rw [List.foldl_cons, List.foldl_cons, ih, ih (0 + d.utf8Size)]
        omega
  rw [byteLength, List.foldl_cons, hfrom, Nat.zero_add]

theorem byteLength_pos (c : Char) (rest : List Char) : 0 < byteLength (c :: rest) := by
  rw [byteLength_cons]
  exact Nat.add_pos_left c.utf8Size_pos _

theorem byteLength_append (cs ds : List Char) :
    byteLength (cs ++ ds) = byteLength cs + byteLength ds := by
  induction cs with
  | nil => simp [byteLength]
  | cons c cs ih => rw [List.cons_append, byteLength_cons, byteLength_cons, ih, Nat.add_assoc]

/-! ## Where the parser stops -/

/-- The fault that a text is refused for, and what is left of the text there. -/
def stop? (cs : List Char) : Option Stop :=
  match value (cs.length + 1) levelLimit cs with
  | .error stop => some stop
  | .ok (_, rest) =>
      match skipGap rest with
      | [] => none
      | rest' => some (.ahead .trailingCharacters rest')

/-- The number of bytes of a text before the place where the parser stops. -/
def Stop.offset (cs : List Char) (stop : Stop) : Nat :=
  min (byteLength cs) (byteLength cs - byteLength stop.rest + stop.past)

/-- The reader stops within the text. -/
theorem Stop.offset_le (cs : List Char) (stop : Stop) : stop.offset cs ≤ byteLength cs :=
  Nat.min_le_left _ _

theorem Stop.toSyntaxError_eq (cs : List Char) (stop : Stop) : stop.toSyntaxError cs
    = ⟨stop.fault, (positionAt (stop.offset cs) cs).1, (positionAt (stop.offset cs) cs).2⟩ := rfl

/-- A refused text is one that stops the reader; the error names where it stopped. -/
theorem parseChars_eq_error_iff {cs : List Char} {e : SyntaxError} :
    parseChars cs = .error e ↔ ∃ stop, stop? cs = some stop ∧ e = stop.toSyntaxError cs := by
  rw [parseChars, stop?]
  rcases value (cs.length + 1) levelLimit cs with stop | ⟨x, rest⟩
  · constructor
    · intro h
      exact ⟨stop, rfl, (Except.error.inj h).symm⟩
    · rintro ⟨_, hstop, rfl⟩
      cases hstop
      rfl
  · dsimp only
    rcases skipGap rest with _ | ⟨c, more⟩
    · exact ⟨nofun, nofun⟩
    · constructor
      · intro h
        exact ⟨_, rfl, (Except.error.inj h).symm⟩
      · rintro ⟨_, hstop, rfl⟩
        cases hstop
        rfl

/-- An empty text is refused at its end. -/
theorem parseChars_nil : parseChars [] = .error ⟨.endInValue, 1, 0⟩ := by
  have hvalue : value 1 levelLimit [] = .error (.here .endInValue []) := by
    rw [value.eq_def]
    rfl
  have hposition : positionAt 0 [] = (1, 0) := by simp [positionAt, positionFrom]
  simp [parseChars, hvalue, Stop.toSyntaxError, Stop.here, byteLength, hposition]

/-! ## Lines and columns -/

/-- A line that the offset is past is passed over. -/
theorem positionFrom_append {line : List Char} (hfeed : '\n' ∉ line) (n column offset : Nat)
    (rest : List Char) : positionFrom n column (byteLength line + offset) (line ++ rest)
      = positionFrom n (column + byteLength line) offset rest := by
  induction line generalizing column with
  | nil => simp [byteLength]
  | cons c line ih =>
      obtain ⟨hc, hline⟩ : ¬ '\n' = c ∧ '\n' ∉ line := by simpa using hfeed
      have hsize := c.utf8Size_pos
      obtain ⟨k, hk⟩ : ∃ k, byteLength (c :: line) + offset = k + 1 := by
        rw [byteLength_cons]
        exact Nat.exists_eq_add_one.2 (by omega)
      rw [hk, List.cons_append, positionFrom, if_neg (Ne.symm hc), ← hk, byteLength_cons,
        if_pos (by omega), ← Nat.add_assoc, ← ih hline]
      congr 1
      omega

/-- A place within a line, or at its end. -/
theorem positionFrom_within {line : List Char} (hfeed : '\n' ∉ line) (n column : Nat) {offset : Nat}
    (hoffset : offset ≤ byteLength line) (rest : List Char) :
    positionFrom n column offset (line ++ rest) = (n, column + offset) := by
  induction line generalizing column offset with
  | nil =>
      obtain rfl : offset = 0 := by simpa [byteLength] using hoffset
      cases rest <;> simp [positionFrom]
  | cons c line ih =>
      obtain ⟨hc, hline⟩ : ¬ '\n' = c ∧ '\n' ∉ line := by simpa using hfeed
      rw [byteLength_cons] at hoffset
      cases offset with
      | zero => simp [positionFrom]
      | succ offset =>
          rw [List.cons_append, positionFrom, if_neg (Ne.symm hc)]
          split
          · rw [ih hline _ (by omega)]
            congr 1
            omega
          · rfl

/-- Past a line feed the line grows by one and the column starts anew. -/
theorem positionFrom_feed (n column offset : Nat) (rest : List Char) :
    positionFrom n column (offset + 1) ('\n' :: rest) = positionFrom (n + 1) 0 offset rest := by
  rw [positionFrom, if_pos rfl]

/-- A place in lines is in the first of them or in the others. -/
theorem positionFrom_joinLines {line : List Char} (hfeed : '\n' ∉ line) (ls : List (List Char))
    (n : Nat) {offset : Nat} (hoffset : offset ≤ byteLength (joinLines (line :: ls))) :
    offset ≤ byteLength line ∧ positionFrom n 0 offset (joinLines (line :: ls)) = (n, offset) ∨
      ∃ more, offset = byteLength line + (more + 1) ∧ more ≤ byteLength (joinLines ls) ∧ ls ≠ [] ∧
        positionFrom n 0 offset (joinLines (line :: ls)) = positionFrom (n + 1) 0 more (joinLines ls) := by
  by_cases hwithin : offset ≤ byteLength line
  · obtain ⟨rest, hrest⟩ : ∃ rest, joinLines (line :: ls) = line ++ rest := by
      cases ls with
      | nil => exact ⟨[], by simp [joinLines]⟩
      | cons next ls => exact ⟨'\n' :: joinLines (next :: ls), by simp [joinLines]⟩
    refine .inl ⟨hwithin, ?_⟩
    rw [hrest, positionFrom_within hfeed n 0 hwithin, Nat.zero_add]
  · cases ls with
    | nil =>
        have hline : joinLines [line] = line := by simp [joinLines]
        rw [hline] at hoffset
        exact absurd hoffset hwithin
    | cons next ls =>
        have hlines : joinLines (line :: next :: ls) = line ++ '\n' :: joinLines (next :: ls) := by
          simp [joinLines]
        have hfeed' : '\n'.utf8Size = 1 := rfl
        obtain ⟨more, rfl⟩ : ∃ more, offset = byteLength line + (more + 1) :=
          ⟨offset - byteLength line - 1, by omega⟩
        rw [hlines, byteLength_append, byteLength_cons, hfeed'] at hoffset
        refine .inr ⟨more, rfl, by omega, List.cons_ne_nil _ _, ?_⟩
        rw [hlines, positionFrom_append hfeed, positionFrom_feed]

end Json
end ProjectConsistency
