import ProjectConsistency.Proofs.Naming.Words

/-!
# Segments — where the words of a name begin and end

This file defines:

* `Naming.PartedAt` — one word ends and the next begins between two texts;
* `Naming.StartsWord` — the rule for a capital directly after another character, as a proposition;
* `Naming.Segments` — the words of a name, by what they hold and where they are parted;
* `Naming.Progress` and `Naming.wordsByPosition?` — the words as they are read by position, where the
  character before a capital is looked up in the name.

Two letters or numbers with no other one between them are in different words just if there is something
else between them, or the second starts a word (`segments_splitWords`).  As this settles every place,
the words of a name are the only ones like that (`Segments.unique`).  The look-up by position never
misses: a word is open only after a character that went into it (`readFrom?_eq`).
-/

namespace ProjectConsistency
namespace Naming

open Text

/-! ## Words apart -/

/-- Of the letters of some words, `front` and `back` are in different ones. -/
def PartedAt (words : List (List Char)) (front back : List Char) : Prop :=
  ∃ first rest, words = first ++ rest ∧ first.flatten = front ∧ rest.flatten = back

/-- A word that goes on over a place is not parted there. -/
theorem not_partedAt_within (done : List (List Char)) {rest : List (List Char)}
    {x y back : List Char} (hx : x ≠ []) (hy : y ≠ []) :
    ¬ PartedAt (done ++ (x ++ y) :: rest) (done.flatten ++ x) back := by
  rintro ⟨first, others, hwords, hfirst, _⟩
  have hlength := congrArg List.length hfirst
  have hxpos := List.length_pos_iff.2 hx
  have hypos := List.length_pos_iff.2 hy
  -- The first words are fewer than `done`, just these, or more; their letters are never as many.
  rcases List.append_eq_append_iff.1 hwords with ⟨more, rfl, hmore⟩ | ⟨more, rfl, _⟩
  · cases more with
    | nil =>
        simp only [List.append_nil, List.length_append] at hlength
        omega
    | cons word more =>
        obtain ⟨rfl, _⟩ := List.cons.inj hmore
        simp only [List.flatten_append, List.flatten_cons, List.length_append] at hlength
        omega
  · simp only [List.flatten_append, List.length_append] at hlength
    omega

/-- The two sides of a parting make up the words. -/
theorem PartedAt.flatten {words : List (List Char)} {front back : List Char}
    (h : PartedAt words front back) : words.flatten = front ++ back := by
  obtain ⟨first, rest, rfl, rfl, rfl⟩ := h
  exact List.flatten_append

theorem partedAt_cons_iff (word : List Char) (words : List (List Char)) {front back : List Char}
    (hfront : front ≠ []) :
    PartedAt (word :: words) (word ++ front) back ↔ PartedAt words front back := by
  constructor
  · rintro ⟨first, rest, hwords, hfirst, hrest⟩
    cases first with
    | nil => simp_all
    | cons other first =>
        obtain ⟨rfl, rfl⟩ := List.cons.inj hwords
        exact ⟨first, rest, rfl, List.append_cancel_left hfirst, hrest⟩
  · rintro ⟨first, rest, rfl, rfl, rfl⟩
    exact ⟨word :: first, rest, rfl, rfl, rfl⟩

/-- Words are told by their letters and the places where they are parted. -/
theorem eq_of_partedAt_iff {words words' : List (List Char)} (hwords : ∀ word ∈ words, word ≠ [])
    (hwords' : ∀ word ∈ words', word ≠ []) (hflatten : words.flatten = words'.flatten)
    (hparted : ∀ front back, front ≠ [] → back ≠ [] → words.flatten = front ++ back →
      (PartedAt words front back ↔ PartedAt words' front back)) : words = words' := by
  induction words generalizing words' with
  | nil =>
      refine (List.eq_nil_iff_forall_not_mem.2 fun word hword => ?_).symm
      exact hwords' word hword (List.flatten_eq_nil_iff.1 hflatten.symm word hword)
  | cons word words ih =>
      cases words' with
      | nil => exact absurd (List.flatten_eq_nil_iff.1 hflatten word (by simp)) (hwords word (by simp))
      | cons word' words' =>
          obtain ⟨hword, hmore⟩ := List.forall_mem_cons.1 hwords
          obtain ⟨hword', hmore'⟩ := List.forall_mem_cons.1 hwords'
          -- Were one of the first words longer, only the other list would be parted inside it.
          obtain ⟨rfl, hrest⟩ : word = word' ∧ words.flatten = words'.flatten := by
            rcases List.append_eq_append_iff.1 hflatten with ⟨y, rfl, hrest⟩ | ⟨y, rfl, hrest⟩
            · by_cases hy : y = []
              · simpa [hy] using hrest
              · have hback : words.flatten ≠ [] := by simp [hrest, hy]
                have hparted' := (hparted word words.flatten hword hback rfl).1
                  ⟨[word], words, rfl, by simp, rfl⟩
                exact absurd hparted' (not_partedAt_within [] hword hy)
            · by_cases hy : y = []
              · simpa [hy] using hrest.symm
              · have hback : words'.flatten ≠ [] := by simp [hrest, hy]
                have hparted' := (hparted word' words'.flatten hword' hback hflatten).2
                  ⟨[word'], words', rfl, by simp, rfl⟩
                exact absurd hparted' (not_partedAt_within [] hword' hy)
          have hsame : words = words' := by
            refine ih hmore hmore' hrest fun front back hfront hback hsplit => ?_
            rw [← partedAt_cons_iff word words hfront, ← partedAt_cons_iff word words' hfront]
            exact hparted _ back (by simp [hfront]) hback (by simp [hsplit])
          rw [hsame]

/-! ## The boundary rule -/

/-- A capital starts a word directly after a lower-case character, after a number, and after a capital
when a lower-case character follows it. -/
def StartsWord (prev c : Char) (after : List Char) : Prop :=
  isUppercase c = true ∧ (isLowercase prev = true ∨ isNumeric prev = true ∨
    isUppercase prev = true ∧ ∃ next ∈ after.head?, isLowercase next = true)

/-- The check made on each character is the rule for where a word starts. -/
theorem startsWord_iff {prev c : Char} {after : List Char} :
    startsWord prev c after = true ↔ StartsWord prev c after := by
  have hnext : nextIsLowercase after = true ↔ ∃ next ∈ after.head?, isLowercase next = true := by
    cases after <;> simp [nextIsLowercase]
  simp [startsWord, StartsWord, hnext, or_assoc]

/-- The words of a name hold its letters and numbers in their order, and are parted between two of them
with no other one between just if there is something else between, or the second starts a word. -/
structure Segments (name : List Char) (words : List (List Char)) : Prop where
  ne_nil : ∀ word ∈ words, word ≠ []
  alphanumeric : ∀ word ∈ words, ∀ c ∈ word, isAlphanumeric c = true
  flatten : words.flatten = name.filter isAlphanumeric
  parted : ∀ before prev gap c after, name = before ++ prev :: (gap ++ c :: after) →
    isAlphanumeric prev = true → isAlphanumeric c = true → (∀ g ∈ gap, isAlphanumeric g = false) →
    (PartedAt words (before.filter isAlphanumeric ++ [prev]) (c :: after.filter isAlphanumeric) ↔
      gap ≠ [] ∨ StartsWord prev c after)

/-! ## What is read -/

/-- The open word is the beginning of the next word. -/
theorem exists_wordsFrom_eq {back : List Char} (hback : back ≠ []) (cs : List Char) :
    ∃ more rest, wordsFrom back cs = (back.reverse ++ more) :: rest := by
  induction cs generalizing back with
  | nil => exact ⟨[], [], by simp [wordsFrom, consWord, hback]⟩
  | cons c cs ih =>
      obtain ⟨prev, mid, rfl⟩ := List.exists_cons_of_ne_nil hback
      by_cases halnum : isAlphanumeric c = true
      · by_cases hstarts : startsWord prev c cs = true
        · exact ⟨[], wordsFrom [c] cs, by simp [wordsFrom, halnum, hstarts]⟩
        · obtain ⟨more, rest, hmore⟩ := ih (List.cons_ne_nil c (prev :: mid))
          exact ⟨c :: more, rest, by simp [wordsFrom, halnum, hstarts, hmore]⟩
      · exact ⟨[], wordsFrom [] cs, by simp [wordsFrom, halnum, consWord]⟩

/-- After a letter or number, the open word ends with it. -/
theorem exists_wordsFrom_append {prev : Char} (hprev : isAlphanumeric prev = true)
    (back before rest : List Char) :
    ∃ done mid, wordsFrom back (before ++ prev :: rest) = done ++ wordsFrom (prev :: mid) rest ∧
      done.flatten ++ mid.reverse = back.reverse ++ before.filter isAlphanumeric := by
  -- A word is open or not when the next character is read.
  induction before generalizing back with
  | nil =>
      cases back with
      | nil => exact ⟨[], [], by simp [wordsFrom, hprev], rfl⟩
      | cons last mid =>
          by_cases hstarts : startsWord last prev rest = true
          · exact ⟨[(last :: mid).reverse], [], by simp [wordsFrom, hprev, hstarts], by simp⟩
          · exact ⟨[], last :: mid, by simp [wordsFrom, hprev, hstarts], by simp⟩
  | cons c before ih =>
      by_cases halnum : isAlphanumeric c = true
      · cases back with
        | nil =>
            obtain ⟨done, mid, hwords, hletters⟩ := ih [c]
            exact ⟨done, mid, by simp [wordsFrom, halnum, hwords], by simp [hletters, halnum]⟩
        | cons last open' =>
            by_cases hstarts : startsWord last c (before ++ prev :: rest) = true
            · obtain ⟨done, mid, hwords, hletters⟩ := ih [c]
              exact ⟨(last :: open').reverse :: done, mid,
                by simp [wordsFrom, halnum, hstarts, hwords], by simp [hletters, halnum]⟩
            · obtain ⟨done, mid, hwords, hletters⟩ := ih (c :: last :: open')
              exact ⟨done, mid, by simp [wordsFrom, halnum, hstarts, hwords],
                by simp [hletters, halnum]⟩
      · obtain ⟨done, mid, hwords, hletters⟩ := ih []
        refine ⟨consWord back [] ++ done, mid, ?_, ?_⟩
        · by_cases hback : back = [] <;> simp [wordsFrom, halnum, hwords, consWord, hback]
        · simp [flatten_consWord, halnum, hletters]

/-- The words of a name are a segmentation of its letters and digits. -/
theorem segments_splitWords (name : List Char) : Segments name (splitWords name) where
  ne_nil _ := ne_nil_of_mem_splitWords
  alphanumeric _ := isAlphanumeric_of_mem_splitWords
  flatten := flatten_splitWords name
  parted := by
    rintro before prev gap c after rfl hprev hc hgap
    obtain ⟨done, mid, hwords, hletters⟩ := exists_wordsFrom_append hprev [] before (gap ++ c :: after)
    have hfront : before.filter isAlphanumeric ++ [prev] = done.flatten ++ (mid.reverse ++ [prev]) := by
      rw [← List.append_assoc, hletters]
      rfl
    rw [splitWords, hwords, hfront]
    cases gap with
    | cons g gap =>
        refine iff_of_true ?_ (.inl (by simp))
        refine ⟨done ++ [mid.reverse ++ [prev]], wordsFrom [] (gap ++ c :: after), ?_, by simp, ?_⟩
        · simp [wordsFrom, hgap g (by simp), consWord]
        · obtain ⟨_, hgap⟩ := List.forall_mem_cons.1 hgap
          have hnone : gap.filter isAlphanumeric = [] := by simpa using hgap
          simp [flatten_wordsFrom, hnone, hc]
    | nil =>
        rw [← startsWord_iff]
        by_cases hstarts : startsWord prev c after = true
        · refine iff_of_true ?_ (.inr hstarts)
          refine ⟨done ++ [mid.reverse ++ [prev]], wordsFrom [c] after, ?_, by simp, ?_⟩
          · simp [wordsFrom, hc, hstarts]
          · simp [flatten_wordsFrom]
        · refine iff_of_false ?_ (by simp [hstarts])
          obtain ⟨more, rest, hmore⟩ := exists_wordsFrom_eq (List.cons_ne_nil c (prev :: mid)) after
          have hopen : wordsFrom (prev :: mid) ([] ++ c :: after)
              = ((mid.reverse ++ [prev]) ++ (c :: more)) :: rest := by
            simp [wordsFrom, hc, hstarts, hmore]
          rw [hopen]
          exact not_partedAt_within done (by simp) (by simp)

/-- Between two letters or numbers of a name there is a place in the name. -/
theorem exists_place {name front back : List Char} (hfront : front ≠ []) (hback : back ≠ [])
    (h : name.filter isAlphanumeric = front ++ back) :
    ∃ before prev gap c after, name = before ++ prev :: (gap ++ c :: after) ∧
      isAlphanumeric prev = true ∧ isAlphanumeric c = true ∧
      (∀ g ∈ gap, isAlphanumeric g = false) ∧ front = before.filter isAlphanumeric ++ [prev] ∧
      back = c :: after.filter isAlphanumeric := by
  obtain ⟨left, right, rfl, hleft, hright⟩ := List.filter_eq_append_iff.1 h
  -- The last letter of the left part, and the first one of the right part.
  obtain ⟨front, prev, rfl⟩ : ∃ init last, front = init ++ [last] :=
    ⟨_, _, (List.dropLast_concat_getLast hfront).symm⟩
  obtain ⟨c, back, rfl⟩ := List.exists_cons_of_ne_nil hback
  obtain ⟨before, tail, rfl, hbefore, htail⟩ := List.filter_eq_append_iff.1 hleft
  obtain ⟨skipped, gap, rfl, hskipped, hprev, hgap⟩ := List.filter_eq_cons_iff.1 htail
  obtain ⟨gap', after, rfl, hgap', hc, hafter⟩ := List.filter_eq_cons_iff.1 hright
  refine ⟨before ++ skipped, prev, gap ++ gap', c, after, by simp, hprev, hc, ?_, ?_, ?_⟩
  · have hnone : ∀ g ∈ gap, isAlphanumeric g = false := by simpa using hgap
    intro g hg
    rcases List.mem_append.1 hg with hg | hg
    · exact hnone g hg
    · simpa using hgap' g hg
  · have hnone : skipped.filter isAlphanumeric = [] := by simpa using hskipped
    simp [hbefore, hnone]
  · rw [hafter]

/-- The words of a name are the only ones that hold its letters and are parted by the rule. -/
theorem Segments.unique {name : List Char} {words words' : List (List Char)}
    (h : Segments name words) (h' : Segments name words') : words = words' := by
  refine eq_of_partedAt_iff h.ne_nil h'.ne_nil (h.flatten.trans h'.flatten.symm) ?_
  intro front back hfront hback hsplit
  obtain ⟨before, prev, gap, c, after, hname, hprev, hc, hgap, rfl, rfl⟩ :=
    exists_place hfront hback (h.flatten.symm.trans hsplit)
  rw [h.parted before prev gap c after hname hprev hc hgap,
    h'.parted before prev gap c after hname hprev hc hgap]

/-! ## Reading by position -/

/-- How far a name is read: the words that are closed, and the open one. -/
structure Progress where
  closed : List (List Char)
  current : List Char

/-- Closes the open word, unless it is empty. -/
def Progress.close (p : Progress) : Progress :=
  if p.current.isEmpty then p else ⟨p.closed ++ [p.current], []⟩

/-- The character before a position of a name, which has to be there. -/
def charBefore? (name : List Char) : Nat → Option Char
  | 0 => none
  | i + 1 => name[i]?

/-- Reads the character at a position. A capital after an open word looks the one before it up. -/
def Progress.read? (name : List Char) (p : Progress) (i : Nat) (c : Char) : Option Progress :=
  if !isAlphanumeric c then some p.close
  else if isUppercase c && !p.current.isEmpty then
    (charBefore? name i).map fun prev =>
      let nextIsLower := name[i + 1]?.any isLowercase
      let p := if isLowercase prev || isNumeric prev || (isUppercase prev && nextIsLower) then p.close
        else p
      { p with current := p.current ++ [c] }
  else some { p with current := p.current ++ [c] }

/-- Reads the characters of a name from a position on. -/
def readFrom? (name : List Char) (p : Progress) (i : Nat) : List Char → Option Progress
  | [] => some p.close
  | c :: rest => (p.read? name i c).bind fun p => readFrom? name p (i + 1) rest

/-- The words of a name, read by position; nothing if a look-up misses. -/
def wordsByPosition? (name : List Char) : Option (List (List Char)) :=
  (readFrom? name ⟨[], []⟩ 0 name).map Progress.closed

/-- The words that a reading comes to, if the rest of the name follows. -/
def Progress.words (p : Progress) (rest : List Char) : List (List Char) :=
  p.closed ++ wordsFrom p.current.reverse rest

/-- Once the current word is closed, reading goes on with none open. -/
theorem Progress.words_close (p : Progress) (rest : List Char) :
    p.close.words rest = p.closed ++ consWord p.current.reverse (wordsFrom [] rest) := by
  by_cases hopen : p.current = []
  · simp [words, close, consWord, hopen]
  · simp [words, close, consWord, hopen]

/-- Where the look-up finds a character, an open word is closed before one that starts a word. -/
theorem Progress.read?_after {name after : List Char} {p : Progress} {i : Nat} {prev c : Char}
    (halnum : isAlphanumeric c = true) (hopen : p.current ≠ [])
    (hbefore : charBefore? name i = some prev)
    (hnext : name[i + 1]?.any isLowercase = nextIsLowercase after) :
    p.read? name i c = some (if startsWord prev c after then ⟨p.closed ++ [p.current], [c]⟩
      else ⟨p.closed, p.current ++ [c]⟩) := by
  by_cases hupper : isUppercase c = true
  · by_cases hrule : (isLowercase prev = true ∨ isNumeric prev = true) ∨
        isUppercase prev = true ∧ nextIsLowercase after = true
    · simp [read?, startsWord, halnum, hupper, hopen, hbefore, hnext, hrule, close]
    · simp [read?, startsWord, halnum, hupper, hopen, hbefore, hnext, hrule]
  · simp [read?, startsWord, halnum, hupper]

/-- An open word ends with the character before the position, so the look-up finds it, and the words
come to the same after the character is read. -/
theorem Progress.read?_eq_some (c : Char) (rest : List Char) {before : List Char} {p : Progress}
    (hlast : p.current = [] ∨ p.current.getLast? = before.getLast?) :
    ∃ p', p.read? (before ++ c :: rest) before.length c = some p' ∧
      p'.words rest = p.words (c :: rest) ∧
      (p'.current = [] ∨ p'.current.getLast? = (before ++ [c]).getLast?) := by
  by_cases halnum : isAlphanumeric c = true
  · by_cases hopen : p.current = []
    · exact ⟨⟨p.closed, [c]⟩, by simp [read?, halnum, hopen],
        by simp [words, hopen, wordsFrom, halnum], by simp⟩
    · obtain ⟨start, prev, hcurrent⟩ : ∃ start prev, p.current = start ++ [prev] :=
        ⟨_, _, (List.dropLast_concat_getLast hopen).symm⟩
      obtain ⟨front, rfl⟩ : ∃ front, before = front ++ [prev] := by
        have hprev : before.getLast? = some prev := by
          rw [← hlast.resolve_left hopen, hcurrent, List.getLast?_concat]
        exact List.getLast?_eq_some_iff.1 hprev
      have hbefore : charBefore? (front ++ [prev] ++ c :: rest) (front ++ [prev]).length
          = some prev := by simp [charBefore?]
      have hnext : (front ++ [prev] ++ c :: rest)[(front ++ [prev]).length + 1]?.any isLowercase
          = nextIsLowercase rest := by
        rw [List.getElem?_append_right (Nat.le_add_right _ 1), Nat.add_sub_cancel_left]
        cases rest <;> rfl
      refine ⟨_, p.read?_after halnum hopen hbefore hnext, ?_, ?_⟩
      · by_cases hstarts : startsWord prev c rest = true
        · simp [words, hcurrent, wordsFrom, halnum, hstarts]
        · simp [words, hcurrent, wordsFrom, halnum, hstarts]
      · split <;> simp
  · have hclosed : p.close.current = [] := by
      by_cases hopen : p.current = [] <;> simp [close, hopen]
    refine ⟨p.close, by simp [read?, halnum], ?_, .inl hclosed⟩
    rw [words_close]
    simp [words, wordsFrom, halnum]

/-- From every position on, the rest of a name is read without a look-up that misses. -/
theorem readFrom?_eq {before rest : List Char} {p : Progress}
    (hlast : p.current = [] ∨ p.current.getLast? = before.getLast?) :
    (readFrom? (before ++ rest) p before.length rest).map Progress.closed = some (p.words rest) := by
  induction rest generalizing before p with
  | nil =>
      have hend : p.close.words [] = p.words [] := p.words_close []
      have hclosed : p.close.current = [] := by
        by_cases hopen : p.current = [] <;> simp [Progress.close, hopen]
      simpa [readFrom?, Progress.words, hclosed, wordsFrom, consWord] using hend
  | cons c rest ih =>
      obtain ⟨p', hread, hwords, hlast'⟩ := Progress.read?_eq_some c rest hlast
      have hrest := ih hlast'
      rw [List.append_assoc, List.length_append] at hrest
      rw [readFrom?, hread, Option.bind_some, ← hwords]
      exact hrest

/--
The words of a name are not empty, hold its letters and numbers in their order and nothing else, and two
letters or numbers next to each other are in different words just if the second is a capital, and the
first is a lower-case character, a number, or a capital and a lower-case character follows.  No other
words are like that.  Read by position, the character before a capital is always found in the name.
-/
theorem splitWords_segments (name : List Char) :
    (∀ words, Segments name words ↔ words = splitWords name) ∧
      wordsByPosition? name = some (splitWords name) := by
  refine ⟨fun words => ⟨fun h => h.unique (segments_splitWords name), ?_⟩, ?_⟩
  · rintro rfl
    exact segments_splitWords name
  · have hopen : (Progress.mk [] []).current = [] ∨
        (Progress.mk [] []).current.getLast? = ([] : List Char).getLast? := .inl rfl
    exact readFrom?_eq hopen

/-- An acronym before a word, a number before a capital, and separators. -/
example : splitWords "__HTMLParser v2Api".toList
    = ["HTML".toList, "Parser".toList, "v2".toList, "Api".toList] := by decide +kernel

end Naming
end ProjectConsistency
