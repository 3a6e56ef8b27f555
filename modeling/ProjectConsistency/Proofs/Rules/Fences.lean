import Mathlib.Algebra.Ring.Parity
import ProjectConsistency.Proofs.Text.Trim
import ProjectConsistency.Rules.Documentation

/-!
# Fences — blocks of code, and the headings that are read in them

This file defines:

* `Rules.Documentation.Fence` — the marks that a block of code is opened with;
* `Rules.Documentation.blockStep` — the block that is open after one more line;
* `Rules.Documentation.strays` — how many fences are among the lines that blocks hold;
* `Rules.Documentation.added` — the headings that a line adds to those of the lines before it.

A block is closed by its own kind of fence only, but the headings are read with one flag, which every
fence turns.  So each fence that is part of a block turns the flag the wrong way until the next one
turns it back (`fencedAfter_eq`), and a line adds its heading if it is outside just if an even number
of them came before it, and if it is inside just if an odd number did (`added_ne_nil_iff`).
-/

namespace ProjectConsistency
namespace Rules
namespace Documentation

open Text

/-! ## Runs of marks -/

/-- How often a mark is repeated at the start of a text. -/
def run (mark : Char) (cs : List Char) : Nat :=
  (cs.takeWhile (· = mark)).length

/-- A run is as long as the marks that the line starts with. -/
theorem le_run_iff {mark : Char} {n : Nat} {cs : List Char} :
    n ≤ run mark cs ↔ startsWith (List.replicate n mark) cs = true := by
  induction n generalizing cs with
  | zero => simp [startsWith]
  | succ n ih =>
      rw [List.replicate_succ]
      cases cs with
      | nil => simp [run, startsWith]
      | cons c cs =>
          have htail : startsWith (mark :: List.replicate n mark) (c :: cs)
              = (mark == c && startsWith (List.replicate n mark) cs) := rfl
          rw [htail, Bool.and_eq_true, ← ih, beq_iff_eq]
          by_cases hc : c = mark
          · subst hc
            simp [run]
          · simp [run, hc, Ne.symm hc]

/-! ## Blocks of code -/

/-- The marks that a block of code is opened with. -/
structure Fence where
  /-- The mark that is repeated. -/
  mark : Char
  /-- How often it is repeated. -/
  length : Nat
  isMark : mark = '`' ∨ mark = '~'
  long : 3 ≤ length

def opening? (line : List Char) : Option Fence :=
  let t := trimStart line
  if h : 3 ≤ run '`' t then some ⟨'`', run '`' t, .inl rfl, h⟩
  else if h : 3 ≤ run '~' t then some ⟨'~', run '~' t, .inr rfl, h⟩
  else none

/-- The line closes the block: it holds the same mark only, at least as often. -/
def Fence.closedBy (fence : Fence) (line : List Char) : Bool :=
  let t := trim line
  t.all (· = fence.mark) && fence.length ≤ t.length

/-- The block that is open after one more line. -/
def blockStep : Option Fence → List Char → Option Fence
  | none, line => opening? line
  | some fence, line => if fence.closedBy line then none else some fence

def blockAfter (block : Option Fence) (ls : List (List Char)) : Option Fence :=
  ls.foldl blockStep block

/-- The line is part of the block that is open after the lines before it. -/
def isInside (before : List (List Char)) (line : List Char) : Bool :=
  (blockAfter none before).any fun fence => !fence.closedBy line

/-- The line is a fence, but part of the block that is open. -/
def isStray (block : Option Fence) (line : List Char) : Bool :=
  block.any fun fence => isFence line && !fence.closedBy line

/-- How many fences are among the lines that blocks hold. -/
def strays (block : Option Fence) : List (List Char) → Nat
  | [] => 0
  | line :: rest => (isStray block line).toNat + strays (blockStep block line) rest

/-- Three marks of one kind at the start of a line make a fence. -/
theorem isFence_iff {line : List Char} :
    isFence line = true ↔ 3 ≤ run '`' (trimStart line) ∨ 3 ≤ run '~' (trimStart line) := by
  rw [le_run_iff, le_run_iff, isFence, Bool.or_eq_true]
  rfl

/-- Exactly the fences open a block. -/
theorem isSome_opening? (line : List Char) : (opening? line).isSome = isFence line := by
  rw [Bool.eq_iff_iff, isFence_iff, opening?]
  split
  · simp [*]
  · split <;> simp [*]

/-- What closes a block is a fence too. -/
theorem Fence.isFence_of_closedBy {fence : Fence} {line : List Char}
    (h : fence.closedBy line = true) : isFence line = true := by
  obtain ⟨hmarks, hlength⟩ : (∀ c ∈ trim line, c = fence.mark) ∧ fence.length ≤ (trim line).length := by
    simpa [Fence.closedBy] using h
  obtain ⟨tail, htail, _⟩ := exists_eq_trimEndWhere isBlank (line.dropWhile isBlank)
  have hrun : 3 ≤ run fence.mark (trimStart line) := by
    have hall : ∀ c ∈ trim line, decide (c = fence.mark) = true := by simpa using hmarks
    have hstart : trimStart line = trim line ++ tail := htail
    rw [run, hstart, List.takeWhile_append_of_pos hall, List.length_append]
    exact Nat.le_trans (Nat.le_trans fence.long hlength) (Nat.le_add_right _ _)
  rw [isFence_iff]
  rcases fence.isMark with hmark | hmark
  · exact .inl (hmark ▸ hrun)
  · exact .inr (hmark ▸ hrun)

/-! ## The flag -/

/-- Whether a block is taken to be open after more lines. -/
def fencedAfter (fenced : Bool) (ls : List (List Char)) : Bool :=
  ls.foldl (fun fenced line => fenced ^^ isFence line) fenced

/-- A fence that is part of a block turns the flag, and the block stays. -/
theorem flag_step (block : Option Fence) (line : List Char) :
    (block.isSome ^^ isFence line) = ((blockStep block line).isSome ^^ isStray block line) := by
  cases block with
  | none => simp [blockStep, isStray, isSome_opening?]
  | some fence =>
      by_cases hclosed : fence.closedBy line = true
      · simp [blockStep, isStray, hclosed, fence.isFence_of_closedBy hclosed]
      · simp [blockStep, isStray, hclosed]

/-- The flag is wrong after an odd number of fences that are part of a block. -/
theorem fencedAfter_eq (block : Option Fence) (wrong : Bool) (ls : List (List Char)) :
    fencedAfter (block.isSome ^^ wrong) ls
      = ((blockAfter block ls).isSome ^^ (wrong ^^ decide (Odd (strays block ls)))) := by
  induction ls generalizing block wrong with
  | nil => simp [fencedAfter, blockAfter, strays]
  | cons line ls ih =>
      have hflag : (block.isSome ^^ wrong ^^ isFence line)
          = ((blockStep block line).isSome ^^ (wrong ^^ isStray block line)) := by
        rw [Bool.xor_assoc, Bool.xor_comm wrong, ← Bool.xor_assoc, flag_step, Bool.xor_assoc,
          Bool.xor_comm wrong]
      have hodd : decide (Odd (strays block (line :: ls)))
          = (isStray block line ^^ decide (Odd (strays (blockStep block line) ls))) := by
        rw [strays]
        cases isStray block line with
        | false => simp
        | true =>
            rw [Bool.toNat_true, Nat.add_comm, Bool.true_xor, ← decide_not, decide_eq_decide]
            exact Nat.odd_add_one
      rw [fencedAfter, List.foldl_cons, hflag, ← fencedAfter, ih, hodd, Bool.xor_assoc]
      rfl

/-! ## Headings -/

/-- The headings that a line adds to those of the lines before it. -/
def added (before : List (List Char)) (line : List Char) : List (List Char) :=
  headingsFrom (fencedAfter false before) [line]

/-- The second part is read in the state that the first one leaves. -/
theorem headingsFrom_append (fenced : Bool) (before after : List (List Char)) :
    headingsFrom fenced (before ++ after)
      = headingsFrom fenced before ++ headingsFrom (fencedAfter fenced before) after := by
  induction before generalizing fenced with
  | nil => rfl
  | cons line before ih =>
      rw [List.cons_append, headingsFrom, headingsFrom, fencedAfter, List.foldl_cons]
      by_cases hfence : isFence line = true
      · rw [if_pos hfence, if_pos hfence, ih, hfence, Bool.xor_true, fencedAfter]
      · rw [if_neg hfence, if_neg hfence, Bool.eq_false_iff.2 hfence, Bool.xor_false]
        cases fenced with
        | false => rw [if_neg (by decide), if_neg (by decide), ih, List.append_assoc, fencedAfter]
        | true => rw [if_pos rfl, if_pos rfl, ih, fencedAfter]

/-- The headings of a document are those that its lines add. -/
theorem headings_eq {document line : List Char} {before after : List (List Char)}
    (h : lines document = before ++ line :: after) :
    headings document = headingsFrom false before ++
      (added before line ++ headingsFrom (fencedAfter false (before ++ [line])) after) := by
  have hsplit : before ++ line :: after = before ++ ([line] ++ after) := rfl
  rw [headings, h, hsplit, headingsFrom_append, headingsFrom_append, ← added, fencedAfter, fencedAfter,
    ← List.foldl_append]
  rfl

/-- A fence begins with its marks, and a heading with hash signs. -/
theorem heading?_of_isFence {line : List Char} (h : isFence line = true) : heading? line = none := by
  have hstart : trimStart (line.dropWhile (· = ' ')) = trimStart line := by
    have hspaces : ∀ c ∈ line.takeWhile (· = ' '), isBlank c = true := by
      intro c hc
      obtain rfl : c = ' ' := by simpa using List.mem_takeWhile_imp hc
      rfl
    conv_rhs => rw [← List.takeWhile_append_dropWhile (p := (· = ' ')) (l := line)]
    rw [trimStart, trimStart, List.dropWhile_append_of_pos hspaces]
  rw [isFence, ← hstart] at h
  rw [heading?]
  cases hbody : line.dropWhile (· = ' ') with
  | nil => simp
  | cons c rest =>
      by_cases hhash : c = '#'
      · subst hhash
        rw [hbody, trimStart, List.dropWhile_cons_of_neg (by decide)] at h
        cases h
      · simp [hhash]

/-- What may be a heading closes no block. -/
theorem isInside_of_heading {line : List Char} (h : heading? line ≠ none)
    (before : List (List Char)) : isInside before line = (blockAfter none before).isSome := by
  rw [isInside]
  cases blockAfter none before with
  | none => rfl
  | some fence =>
      have hopen : fence.closedBy line = false := by
        rw [Bool.eq_false_iff]
        intro hclosed
        exact h (heading?_of_isFence (fence.isFence_of_closedBy hclosed))
      simp [hopen]

/-- A line adds its heading unless the toggle stands on a fence. -/
theorem added_eq (before : List (List Char)) (line : List Char) :
    added before line = if fencedAfter false before then [] else (heading? line).toList := by
  rw [added, headingsFrom]
  by_cases hfence : isFence line = true
  · simp [hfence, heading?_of_isFence hfence, headingsFrom]
  · simp [hfence, headingsFrom]

/-- A heading is read just if an odd number of fences that are part of a block came before it, when it
is inside a block itself, and an even number, when it is not. -/
theorem added_ne_nil_iff (before : List (List Char)) (line : List Char) :
    added before line ≠ [] ↔
      heading? line ≠ none ∧ (isInside before line = true ↔ Odd (strays none before)) := by
  have hflag : fencedAfter false before
      = ((blockAfter none before).isSome ^^ decide (Odd (strays none before))) := by
    simpa using fencedAfter_eq none false before
  rw [added_eq, hflag]
  by_cases hheading : heading? line = none
  · simp [hheading]
  · rw [isInside_of_heading hheading]
    obtain ⟨text, htext⟩ := Option.ne_none_iff_exists'.1 hheading
    by_cases hodd : Odd (strays none before) <;> cases (blockAfter none before).isSome <;>
      simp [htext, hodd]

/--
The headings of a document are what its lines add.  A line inside a block of code adds nothing just if
it does not look like a heading, or if an even number of fences that are part of a block came before it.
-/
theorem added_inside_iff {document line : List Char} {before after : List (List Char)}
    (h : lines document = before ++ line :: after) (hinside : isInside before line = true) :
    headings document = headingsFrom false before ++
        (added before line ++ headingsFrom (fencedAfter false (before ++ [line])) after) ∧
      (added before line = [] ↔ heading? line = none ∨ Even (strays none before)) := by
  refine ⟨headings_eq h, ?_⟩
  rw [← not_iff_not, ← ne_eq, added_ne_nil_iff, iff_true_left hinside, not_or, Nat.not_even_iff_odd]

/-- A block whose lines hold a block of a shorter fence.  What it holds after that one adds nothing. -/
theorem added_inside_iff_nested :
    let document := "````\n```js\n```\n# Usage\n````\n# License\n".toList
    let before := ["````".toList, "```js".toList, "```".toList]
    let after := ["````".toList, "# License".toList]
    lines document = before ++ "# Usage".toList :: after ∧
      isInside before "# Usage".toList = true ∧ added before "# Usage".toList = [] ∧
      headings document = ["License".toList] := by
  intro document before after
  have hlines : lines document = before ++ "# Usage".toList :: after := by decide
  have hinside : isInside before "# Usage".toList = true := by decide
  obtain ⟨hheadings, hadded⟩ := added_inside_iff hlines hinside
  have hnothing : added before "# Usage".toList = [] := hadded.2 (.inr (by decide))
  refine ⟨hlines, hinside, hnothing, ?_⟩
  rw [hheadings, hnothing]
  decide

/-- A single line of three marks in a block of a longer fence makes what follows it in the block count
as headings. -/
theorem exists_added_inside :
    ∃ document before line after, lines document = before ++ line :: after ∧
      isInside before line = true ∧ added before line ≠ [] ∧ headings document = ["Usage".toList] := by
  refine ⟨"````\n```\n# Usage\n```\n````\n".toList, ["````".toList, "```".toList],
    "# Usage".toList, ["```".toList, "````".toList], ?_, ?_, ?_, ?_⟩ <;> decide

end Documentation
end Rules
end ProjectConsistency
