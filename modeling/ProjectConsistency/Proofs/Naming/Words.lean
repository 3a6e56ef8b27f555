import ProjectConsistency.Proofs.Naming.Conversion

/-!
# Words — what a text is cut into

A text is read into words by one pass that keeps the open word back to front.  Whatever the boundary
rules decide, the words hold the letters and numbers of the text in their order and nothing else
(`flatten_splitWords`).  So do the texts between which a separator is put (`filter_intercalate`).
-/

namespace ProjectConsistency
namespace Naming

open Text

theorem flatten_consWord (back : List Char) (words : List (List Char)) :
    (consWord back words).flatten = back.reverse ++ words.flatten := by
  by_cases hback : back.isEmpty = true
  · obtain rfl : back = [] := by simpa using hback
    rfl
  · simp [consWord, hback]

/-- The words of a name, put together, are its letters and digits in order. -/
theorem flatten_wordsFrom (back cs : List Char) :
    (wordsFrom back cs).flatten = back.reverse ++ cs.filter isAlphanumeric := by
  induction cs generalizing back with
  | nil => simp [wordsFrom, flatten_consWord]
  | cons c rest ih =>
      by_cases halnum : isAlphanumeric c = true
      · cases back with
        | nil => simp [wordsFrom, halnum, ih]
        | cons prev before =>
            -- A boundary closes the open word, and otherwise the character goes on with it.
            by_cases hstarts : startsWord prev c rest = true
            · simp [wordsFrom, halnum, hstarts, ih]
            · simp [wordsFrom, halnum, hstarts, ih]
      · simp [wordsFrom, halnum, flatten_consWord, ih]

/-- The words of a name, one after the other, are its letters and numbers. -/
theorem flatten_splitWords (name : List Char) :
    (splitWords name).flatten = name.filter isAlphanumeric :=
  flatten_wordsFrom [] name

section

variable {name word : List Char}

theorem ne_nil_of_mem_splitWords (h : word ∈ splitWords name) : word ≠ [] :=
  (chars_of_mem_wordsFrom h).1

theorem isAlphanumeric_of_mem_splitWords (h : word ∈ splitWords name) :
    ∀ c ∈ word, isAlphanumeric c = true := by
  intro c hc
  have hin : c ∈ name.filter isAlphanumeric := by
    rw [← flatten_splitWords]
    exact List.mem_flatten_of_mem h hc
  exact (List.mem_filter.1 hin).2

/-- A name has no words exactly if it has neither letters nor numbers. -/
theorem splitWords_eq_nil_iff : splitWords name = [] ↔ ∀ c ∈ name, isAlphanumeric c = false := by
  constructor
  · intro h c hc
    have hnone : name.filter isAlphanumeric = [] := by rw [← flatten_splitWords, h, List.flatten_nil]
    simpa using List.filter_eq_nil_iff.1 hnone c hc
  · intro h
    have hflat : (splitWords name).flatten = [] := by
      rw [flatten_splitWords, List.filter_eq_nil_iff]
      simpa using h
    refine List.eq_nil_iff_forall_not_mem.2 fun word hword => ?_
    exact ne_nil_of_mem_splitWords hword (List.flatten_eq_nil_iff.1 hflat word hword)

end

/-- A separator is no part of a word. -/
theorem filter_intercalate {sep : Char} (hsep : isAlphanumeric sep = false)
    (texts : List (List Char)) :
    ([sep].intercalate texts).filter isAlphanumeric
      = (texts.map (List.filter isAlphanumeric)).flatten := by
  induction texts with
  | nil => rfl
  | cons text rest ih =>
      by_cases hrest : rest = []
      · simp [hrest]
      · simp [List.intercalate_cons_of_ne_nil hrest, hsep, ih]

end Naming
end ProjectConsistency
