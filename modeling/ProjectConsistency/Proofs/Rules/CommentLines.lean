import Mathlib.Data.Option.Basic
import ProjectConsistency.Proofs.Text.Trim
import ProjectConsistency.Rules.Style

/-!
# CommentLines — a comment between the lines of a source

This file defines:

* `Rules.Style.IsSlashComment`, `Rules.Style.IsBlockComment` — a line that is a comment up to its end,
  or between marks;
* `Rules.Style.shifted` — the number that a line has after one more line is put between the lines;
* `Rules.Style.significant` — the lines that are looked at for commas;
* `Rules.Style.lacking?` — what a line and the next one report;
* `Rules.Style.Unnoticed` — a line that counts but needs no comma may stand between two parts.

Quotes in comments do not count (`dominantQuote_comment`), and a comment up to the end of its line is
passed over when commas are looked for (`firstMissingComma_slash`).  But a comment between marks is
taken for an element: it hides the line before it from a closing bracket, and lacks a comma itself
before a square one (`firstLacking_block`).  So it makes a difference next to the end of a literal, if
nothing was found before that (`comment_unnoticed_iff`).
-/

namespace ProjectConsistency
namespace Rules
namespace Style

open Text

/-! ## Comments -/

def IsSlashComment (line : List Char) : Prop :=
  ∃ indent text, line = indent ++ '/' :: '/' :: text ∧ ∀ c ∈ indent, isBlank c = true

def marked (text : List Char) : List Char :=
  '/' :: '*' :: (text ++ ['*', '/'])

/-- The line begins and ends as a comment between marks. -/
def IsBlockComment (line : List Char) : Prop :=
  ∃ indent text after, line = indent ++ (marked text ++ after) ∧
    (∀ c ∈ indent, isBlank c = true) ∧ ∀ c ∈ after, isBlank c = true

theorem IsSlashComment.trim_eq {line : List Char} (h : IsSlashComment line) :
    ∃ text, trim line = '/' :: '/' :: text := by
  obtain ⟨indent, text, rfl, hindent⟩ := h
  refine ⟨trimEndWhere isBlank text, ?_⟩
  rw [trim, trimWhere_append_left hindent, trimWhere_cons (by decide), trimEndWhere_cons (by decide)]

theorem IsBlockComment.trim_eq {line : List Char} (h : IsBlockComment line) :
    ∃ text, trim line = marked text := by
  obtain ⟨indent, text, after, rfl, hindent, hafter⟩ := h
  refine ⟨text, ?_⟩
  have hmarks : marked text = ('/' :: '*' :: (text ++ ['*'])) ++ ['/'] := by simp [marked]
  rw [trim, trimWhere_append_left hindent, trimWhere_append_right hafter, hmarks,
    trimWhere_concat (by decide), List.dropWhile_cons_of_neg (by decide)]

/-! ## Quotes -/

/-- Both kinds of comment lines are skipped where quotes are counted. -/
theorem isQuoteComment_of_comment {line : List Char} (h : IsSlashComment line ∨ IsBlockComment line) :
    isQuoteComment line = true := by
  rcases h with ⟨indent, text, rfl, hindent⟩ | ⟨indent, text, after, rfl, hindent, _⟩
  · simp [isQuoteComment, trimStart, List.dropWhile_append_of_pos hindent, isBlank, startsWith]
  · simp [isQuoteComment, trimStart, List.dropWhile_append_of_pos hindent, isBlank, startsWith, marked]

/-- A line whose quotes do not count, or that has none, does not change which quotes prevail. -/
theorem dominantQuote_insert {line : List Char}
    (h : isQuoteComment line = true ∨ '\'' ∉ line ∧ '"' ∉ line) (before after : List (List Char)) :
    dominantQuote (before ++ line :: after) = dominantQuote (before ++ after) := by
  have hcount : ∀ c, isQuoteComment line = true ∨ c ∉ line →
      countOutside c (before ++ line :: after) = countOutside c (before ++ after) := by
    intro c hc
    by_cases hcomment : isQuoteComment line = true
    · simp [countOutside, List.filter_append, hcomment]
    · have hnone : line.count c = 0 := List.count_eq_zero.2 (hc.resolve_left hcomment)
      simp [countOutside, List.filter_append, hcomment, hnone]
  rw [dominantQuote, dominantQuote, hcount _ (h.imp_right And.left), hcount _ (h.imp_right And.right)]

/-- Quotes in comments do not count. -/
theorem dominantQuote_comment {comment : List Char} (h : IsSlashComment comment ∨ IsBlockComment comment)
    (before after : List (List Char)) :
    dominantQuote (before ++ comment :: after) = dominantQuote (before ++ after) :=
  dominantQuote_insert (.inl (isQuoteComment_of_comment h)) before after

/-! ## Numbers of lines -/

/-- The number of a line after one more line is put behind the first `count` lines. -/
def shifted (count n : Nat) : Nat :=
  if n ≤ count then n else n + 1

theorem shifted_of_le {count n : Nat} (h : n ≤ count) : shifted count n = n :=
  if_pos h

theorem shifted_of_lt {count n : Nat} (h : count < n) : shifted count n = n + 1 :=
  if_neg (Nat.not_le.2 h)

/-- The significant lines of two parts are numbered on. -/
theorem significantFrom_append (n : Nat) (before after : List (List Char)) :
    significantFrom n (before ++ after)
      = significantFrom n before ++ significantFrom (n + before.length) after := by
  induction before generalizing n with
  | nil => rfl
  | cons line before ih =>
      have hnumber : n + 1 + before.length = n + (line :: before).length := by
        rw [List.length_cons]
        omega
      rw [List.cons_append, significantFrom, significantFrom, ih, hnumber]
      split <;> rfl

/-- Starting one line later moves every number by one. -/
theorem significantFrom_succ (n : Nat) (ls : List (List Char)) :
    significantFrom (n + 1) ls = (significantFrom n ls).map (Prod.map (· + 1) id) := by
  induction ls generalizing n with
  | nil => rfl
  | cons line ls ih =>
      rw [significantFrom, significantFrom, ih]
      split <;> simp

/-- The numbers lie within the lines read. -/
theorem number_of_mem {n : Nat} {ls : List (List Char)} {e : Nat × List Char}
    (h : e ∈ significantFrom n ls) : n ≤ e.1 ∧ e.1 < n + ls.length := by
  induction ls generalizing n with
  | nil => cases h
  | cons line ls ih =>
      have hrest : e ∈ significantFrom (n + 1) ls → n ≤ e.1 ∧ e.1 < n + (line :: ls).length := by
        intro hmem
        obtain ⟨hlow, hhigh⟩ := ih hmem
        rw [List.length_cons]
        omega
      rw [significantFrom] at h
      split at h
      · rcases List.mem_cons.1 h with rfl | hmem
        · simp
        · exact hrest hmem
      · exact hrest h

def significant (ls : List (List Char)) : List (List Char) :=
  (ls.map trim).filter isSignificant

theorem map_significantFrom (n : Nat) (ls : List (List Char)) :
    (significantFrom n ls).map Prod.snd = significant ls := by
  induction ls generalizing n with
  | nil => rfl
  | cons line ls ih =>
      rw [significantFrom, significant, List.map_cons, List.filter_cons, ← significant]
      split <;> simp [ih]

/-! ## Commas -/

/-- The number of a line that lacks a comma before the next one. -/
def lacking? (line next : Nat × List Char) : Option Nat :=
  if lacksComma line.2 next.2 then some line.1 else none

/-- A line is judged against the next significant one. -/
theorem firstLacking_cons (e : Nat × List Char) (rest : List (Nat × List Char)) :
    firstLacking (e :: rest) = (rest.head?.bind (lacking? e)).or (firstLacking rest) := by
  cases rest with
  | nil => rfl
  | cons next rest =>
      rw [firstLacking, List.head?_cons, Option.bind_some, lacking?]
      split <;> rfl

/-- Renumbering the lines renumbers the one that is found. -/
theorem firstLacking_map (f : Nat → Nat) (es : List (Nat × List Char)) :
    firstLacking (es.map (Prod.map f id)) = (firstLacking es).map f := by
  have hlacking : ∀ e next, lacking? (Prod.map f id e) (Prod.map f id next) = (lacking? e next).map f := by
    intro e next
    by_cases hlacks : lacksComma e.2 next.2 = true <;> simp [lacking?, hlacks]
  induction es with
  | nil => rfl
  | cons e es ih =>
      rw [List.map_cons, firstLacking_cons, firstLacking_cons, ih, List.head?_map]
      cases es.head? with
      | none => simp
      | some next => simp [hlacking, Option.map_or]

/-- A pair of lines is in the first part, or it is in the rest or begins there. -/
theorem firstLacking_append (es : List (Nat × List Char)) (e : Nat × List Char)
    (rest : List (Nat × List Char)) :
    firstLacking (es ++ e :: rest) = (firstLacking (es ++ [e])).or (firstLacking (e :: rest)) := by
  induction es with
  | nil => rfl
  | cons first es ih =>
      have hhead : (es ++ e :: rest).head? = (es ++ [e]).head? := by cases es <;> rfl
      rw [List.cons_append, List.cons_append, firstLacking_cons, firstLacking_cons, ih, hhead,
        Option.or_assoc]

/-- One more line at the end matters to the last line only. -/
theorem firstLacking_concat (es : List (Nat × List Char)) (e : Nat × List Char) :
    firstLacking (es ++ [e]) = (firstLacking es).or (es.getLast?.bind fun last => lacking? last e) := by
  rcases List.eq_nil_or_concat' es with rfl | ⟨es, last, rfl⟩
  · rfl
  · rw [List.append_assoc, List.singleton_append, firstLacking_append, firstLacking_cons,
      List.getLast?_concat, List.head?_cons, Option.bind_some, Option.bind_some]
    simp [firstLacking]

/-- A line found is found whatever follows. -/
theorem firstLacking_of_append {es : List (Nat × List Char)} {n : Nat} (h : firstLacking es = some n)
    (rest : List (Nat × List Char)) : firstLacking (es ++ rest) = some n := by
  cases rest with
  | nil => rw [List.append_nil, h]
  | cons e rest => rw [firstLacking_append, firstLacking_concat, h, Option.some_or, Option.some_or]

theorem exists_of_firstLacking {es : List (Nat × List Char)} {n : Nat} (h : firstLacking es = some n) :
    ∃ e ∈ es, e.1 = n := by
  induction es with
  | nil => cases h
  | cons e es ih =>
      rw [firstLacking_cons, Option.or_eq_some_iff] at h
      rcases h with hfirst | ⟨_, hrest⟩
      · obtain ⟨next, _, hlacking⟩ := Option.bind_eq_some_iff.1 hfirst
        obtain ⟨_, rfl⟩ : _ ∧ e.1 = n := by simpa [lacking?] using hlacking
        exact ⟨e, List.mem_cons_self, rfl⟩
      · obtain ⟨found, hfound, hn⟩ := ih hrest
        exact ⟨found, List.mem_cons_of_mem e hfound, hn⟩

/-! ## Comments between marks -/

/-- A line of a block comment counts as a line of code here. -/
theorem isSignificant_marked (text : List Char) : isSignificant (marked text) = true := by
  simp [marked, isSignificant, startsWith, List.isPrefixOf_cons_cons]

/-- No line lacks a comma because of a comment that follows it. -/
theorem lacksComma_before (line text : List Char) :
    lacksComma line (marked text) = false := by
  simp [marked, lacksComma, startsWith]

/-- What is before the first colon of a comment begins with a slash, which no key does. -/
theorem isProperty_marked (text : List Char) : isProperty (marked text) = false := by
  rw [marked, isProperty]
  generalize '*' :: (text ++ ['*', '/']) = body
  cases hsplit : splitOnce ':' ('/' :: body) with
  | none => rfl
  | some sides =>
      obtain ⟨key, value⟩ := sides
      obtain ⟨rest, rfl⟩ : ∃ rest, key = '/' :: rest := by
        rw [splitOnce] at hsplit
        split at hsplit
        · cases hsplit
        · cases hsplit
          exact ⟨_, List.takeWhile_cons_of_pos (by decide)⟩
      have hkey : trimWhere (fun c => c = '\'' || c = '"') (trim ('/' :: rest))
          = '/' :: trimEndWhere (fun c => c = '\'' || c = '"') (trimEndWhere isBlank rest) := by
        rw [trim, trimWhere_cons (by decide), trimWhere_cons (by decide)]
      have hslash : isKeyChar '/' = false := by decide
      simp [hkey, hslash]

/-- A comment lacks a comma itself before a square bracket. -/
theorem lacksComma_after (text next : List Char) :
    lacksComma (marked text) next = startsWith [']'] next := by
  have hlast : (marked text).getLast? = some '/' := by simp [marked, List.getLast?_cons]
  simp [lacksComma, isProperty_marked, isOpenEnded, hlast]

/-- A comment between marks counts as a line that no comma is missing before, and that lacks one
itself before a square bracket. -/
theorem firstLacking_block (es rest : List (Nat × List Char)) (n : Nat) (text : List Char) :
    firstLacking (es ++ (n, marked text) :: rest)
      = (firstLacking es).or
          (if rest.head?.any fun next => startsWith [']'] next.2 then some n
            else firstLacking rest) := by
  have hbefore : (es.getLast?.bind fun last => lacking? last (n, marked text)) = none := by
    cases es.getLast? with
    | none => rfl
    | some last => simp [lacking?, lacksComma_before]
  rw [firstLacking_append, firstLacking_concat, hbefore, Option.or_none]
  cases rest with
  | nil => simp [firstLacking]
  | cons next rest => rw [firstLacking, lacksComma_after, List.head?_cons, Option.any_some]

/-- A comment between marks makes no difference if a comma is missing before it, or if what follows it
is no square bracket and completes no pair with what comes before it. -/
theorem firstLacking_block_iff {es rest : List (Nat × List Char)} {n : Nat}
    (hes : ∀ e ∈ es, e.1 < n) (hrest : ∀ e ∈ rest, n < e.1) (text : List Char) :
    firstLacking (es ++ (n, marked text) :: rest) = firstLacking (es ++ rest) ↔
      (firstLacking es).isSome = true ∨
        ∀ next ∈ rest.head?, startsWith [']'] next.2 = false ∧
          ∀ last ∈ es.getLast?, lacksComma last.2 next.2 = false := by
  rw [firstLacking_block]
  cases hfound : firstLacking es with
  | some m => simp [firstLacking_of_append hfound]
  | none =>
      cases rest with
      | nil => simp [hfound, firstLacking]
      | cons next rest =>
          -- The comment's own number is reported in no other way.
          have hother : firstLacking (es ++ next :: rest) ≠ some n := by
            intro hn
            obtain ⟨e, he, rfl⟩ := exists_of_firstLacking hn
            rcases List.mem_append.1 he with he | he
            · exact Nat.lt_irrefl _ (hes e he)
            · exact Nat.lt_irrefl _ (hrest e he)
          by_cases hbracket : startsWith [']'] next.2 = true
          · simp [hbracket, hother.symm]
          · rw [firstLacking_append, firstLacking_concat, hfound]
            cases hlast : es.getLast? with
            | none => simp [hbracket]
            | some last =>
                by_cases hlacks : lacksComma last.2 next.2 = true
                · have hlater : firstLacking (next :: rest) ≠ some last.1 := by
                    intro hn
                    obtain ⟨e, he, hnumber⟩ := exists_of_firstLacking hn
                    have hlow := hes last (List.mem_of_getLast? hlast)
                    have hhigh := hrest e he
                    omega
                  simp [hbracket, lacking?, hlacks, hlater]
                · simp [hbracket, lacking?, hlacks]

/-! ## Inserted comments -/

/-- A line that counts is not noticed between two parts of a source: a comma is missing in the first
part, or no square bracket follows, and no comma is missing where the parts meet. -/
def Unnoticed (before after : List (List Char)) : Prop :=
  (firstMissingComma before).isSome = true ∨
    ∀ next ∈ (significant after).head?, startsWith [']'] next = false ∧
      ∀ last ∈ (significant before).getLast?, lacksComma last next = false

instance (before after : List (List Char)) : Decidable (Unnoticed before after) :=
  inferInstanceAs (Decidable (_ ∨ _))

/-- The numbers of the first part stay, and those of the second grow by one. -/
theorem map_shifted (before after : List (List Char)) :
    (significantFrom 1 (before ++ after)).map (Prod.map (shifted before.length) id)
      = significantFrom 1 before ++ significantFrom (before.length + 2) after := by
  have hbefore : ∀ e ∈ significantFrom 1 before, Prod.map (shifted before.length) id e = e := by
    intro e he
    have hlow : e.1 ≤ before.length := by
      have hnumber := number_of_mem he
      omega
    simp [Prod.map, shifted, hlow]
  have hafter : ∀ e ∈ significantFrom (before.length + 1) after,
      Prod.map (shifted before.length) id e = Prod.map (· + 1) id e := by
    intro e he
    have hhigh : ¬ e.1 ≤ before.length := by
      have hnumber := number_of_mem he
      omega
    simp [Prod.map, shifted, hhigh]
  rw [significantFrom_append, List.map_append, List.map_congr_left hbefore, List.map_id',
    Nat.add_comm 1, List.map_congr_left hafter, ← significantFrom_succ]

/-- A line that does not count makes no difference when commas are looked for. -/
theorem firstMissingComma_insert {line : List Char} (h : isSignificant (trim line) = false)
    (before after : List (List Char)) :
    firstMissingComma (before ++ line :: after)
      = (firstMissingComma (before ++ after)).map (shifted before.length) := by
  have hnumber : 1 + before.length + 1 = before.length + 2 := by omega
  rw [firstMissingComma, significantFrom_append, significantFrom, h, hnumber,
    firstMissingComma, ← firstLacking_map, map_shifted]
  rfl

/-- A comment up to the end of its line makes no difference when commas are looked for. -/
theorem firstMissingComma_slash {comment : List Char} (h : IsSlashComment comment)
    (before after : List (List Char)) :
    firstMissingComma (before ++ comment :: after)
      = (firstMissingComma (before ++ after)).map (shifted before.length) := by
  obtain ⟨text, htrim⟩ := h.trim_eq
  exact firstMissingComma_insert (by simp [htrim, isSignificant, startsWith]) before after

/-- A comment between marks makes no difference just if a line that counts is not noticed. -/
theorem firstMissingComma_block {comment : List Char} (h : IsBlockComment comment)
    (before after : List (List Char)) :
    firstMissingComma (before ++ comment :: after)
        = (firstMissingComma (before ++ after)).map (shifted before.length) ↔
      Unnoticed before after := by
  obtain ⟨text, htrim⟩ := h.trim_eq
  have hnumber : 1 + before.length + 1 = before.length + 2 := by omega
  have hlow : ∀ e ∈ significantFrom 1 before, e.1 < 1 + before.length :=
    fun e he => (number_of_mem he).2
  have hhigh : ∀ e ∈ significantFrom (before.length + 2) after, 1 + before.length < e.1 := by
    intro e he
    have hnumber := number_of_mem he
    omega
  rw [firstMissingComma, significantFrom_append, significantFrom, htrim,
    if_pos (isSignificant_marked text), hnumber, firstMissingComma, ← firstLacking_map, map_shifted,
    firstLacking_block_iff hlow hhigh, Unnoticed, firstMissingComma,
    ← map_significantFrom (before.length + 2) after, ← map_significantFrom 1 before]
  simp only [List.head?_map, List.getLast?_map, Option.forall_mem_map]

/--
A comment that is inserted as a line of its own never changes which quotes are found to prevail.  It
leaves the line that lacks a comma as it is, its number aside, just if it is a comment up to the end of
its line or one between marks that is not noticed.
-/
theorem comment_unnoticed_iff {source commented comment : List Char}
    {before after : List (List Char)} (hsource : lines source = before ++ after)
    (hcommented : lines commented = before ++ comment :: after)
    (h : IsSlashComment comment ∨ IsBlockComment comment) :
    dominantQuote (lines commented) = dominantQuote (lines source) ∧
      (firstMissingComma (lines commented)
          = (firstMissingComma (lines source)).map (shifted before.length) ↔
        IsSlashComment comment ∨ Unnoticed before after) := by
  rw [hsource, hcommented]
  refine ⟨dominantQuote_comment h before after, ?_⟩
  rcases h with hslash | hblock
  · exact iff_of_true (firstMissingComma_slash hslash before after) (.inl hslash)
  · have hother : ¬ IsSlashComment comment := by
      intro hslash
      obtain ⟨text, htext⟩ := hslash.trim_eq
      obtain ⟨text', htext'⟩ := hblock.trim_eq
      simp [htext', marked] at htext
    rw [firstMissingComma_block hblock, or_iff_right hother]

/-- A comment between the elements of a list moves the line that lacks a comma, and nothing else. -/
theorem comment_unnoticed_iff_list :
    let source := "export const names = [\n  'a',\n  'b'\n];\n".toList
    let commented := "export const names = [\n  'a',\n  /* it's the last */\n  'b'\n];\n".toList
    firstMissingComma (lines source) = some 3 ∧ dominantQuote (lines source) = some .single ∧
      firstMissingComma (lines commented) = some 4 ∧
      dominantQuote (lines commented) = some .single := by
  intro source commented
  have hblock : IsBlockComment "  /* it's the last */".toList :=
    ⟨"  ".toList, " it's the last ".toList, [], rfl, by simp [isBlank], by simp⟩
  have hmissing : firstMissingComma (lines source) = some 3 := by decide
  have hquote : dominantQuote (lines source) = some .single := by decide
  have hsource : lines source
      = ["export const names = [".toList, "  'a',".toList] ++ ["  'b'".toList, "];".toList] := by
    decide
  have hcommented : lines commented = ["export const names = [".toList, "  'a',".toList]
      ++ "  /* it's the last */".toList :: ["  'b'".toList, "];".toList] := by decide
  obtain ⟨hsame, hmoved⟩ := comment_unnoticed_iff hsource hcommented (.inr hblock)
  refine ⟨hmissing, hquote, ?_, hsame.trans hquote⟩
  rw [hmoved.2 (.inr (by decide)), hmissing]
  rfl

/-- A comment between marks before the brace that closes an object hides that a comma is missing. -/
theorem exists_comment_noticed :
    ∃ source commented before comment after, lines source = before ++ after ∧
      lines commented = before ++ comment :: after ∧ IsBlockComment comment ∧
      firstMissingComma (lines source) = some 2 ∧ firstMissingComma (lines commented) = none := by
  refine ⟨"const o = \x7b\n  port: 80\n\x7d;\n".toList,
    "const o = \x7b\n  port: 80\n  /* the end */\n\x7d;\n".toList,
    ["const o = \x7b".toList, "  port: 80".toList], "  /* the end */".toList, ["\x7d;".toList],
    ?_, ?_, ⟨"  ".toList, " the end ".toList, [], rfl, by simp [isBlank], by simp⟩, ?_, ?_⟩ <;> decide

end Style
end Rules
end ProjectConsistency
