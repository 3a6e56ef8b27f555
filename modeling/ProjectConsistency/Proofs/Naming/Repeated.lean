import ProjectConsistency.Proofs.Naming.Compliance
import ProjectConsistency.Proofs.Naming.Words
import ProjectConsistency.Proofs.Text.CaseImages

/-!
# Repeated — which names a conversion leaves as they are

A converted name that is converted once more should stay as it is, and for ASCII names it does.  In
general the case mappings stand in the way: a dotted capital I is lowered to an i with a mark that no
word holds, and a capital without a lower-case form may open a word that it did not open before.  This
file defines:

* `caseWords`, `glue` — the two steps in which words are joined into a name;
* `WrittenAsRead` — a name is put together from its own words, which keep their case.

A conversion leaves a name with words as it is exactly if it is compliant or written as it is read
(`convert_eq_self_iff`).  Nothing but the number of letters is needed to see that: a word that is
cased has no fewer of them than before, so where the whole name is the same, so is every word.
-/

namespace ProjectConsistency
namespace Naming

open Text

/-! ## Joining in two steps -/

/-- The words as they are written in a convention. -/
def caseWords (casing : Casing) (words : List (List Char)) : List (List Char) :=
  match casing with
  | .kebab => words.map lower
  | .snake => words.map lower
  | .screamingSnake => words.map upper
  | .camel => match words with
    | first :: rest => lower first :: rest.map capitalize
    | [] => []
  | .pascal => words.map capitalize

/-- Texts with what a convention puts between words. -/
def glue (casing : Casing) (texts : List (List Char)) : List Char :=
  match casing with
  | .kebab => ['-'].intercalate texts
  | .snake => ['_'].intercalate texts
  | .screamingSnake => ['_'].intercalate texts
  | .camel => texts.flatten
  | .pascal => texts.flatten

theorem joinWords_eq (casing : Casing) (words : List (List Char)) :
    joinWords casing words = glue casing (caseWords casing words) := by
  cases casing with
  | kebab => rfl
  | snake => rfl
  | screamingSnake => rfl
  | camel =>
      cases words with
      | nil => rfl
      | cons first rest => simp [joinWords, glue, caseWords, List.flatMap_def]
  | pascal => exact List.flatMap_def

/-- The glue between the words holds no letter or digit. -/
theorem filter_glue (casing : Casing) (texts : List (List Char)) :
    (glue casing texts).filter isAlphanumeric
      = (texts.map (List.filter isAlphanumeric)).flatten := by
  cases casing with
  | kebab => exact filter_intercalate (by decide) texts
  | snake => exact filter_intercalate (by decide) texts
  | screamingSnake => exact filter_intercalate (by decide) texts
  | camel => exact List.filter_flatten
  | pascal => exact List.filter_flatten

/-! ## Cased words -/

/-- The ways in which a convention writes a word. -/
inductive Cased (word : List Char) : List Char → Prop where
  | lower : Cased word (lower word)
  | upper : Cased word (upper word)
  | capitalize : Cased word (capitalize word)

/-- Each word is cased on its own. -/
theorem cased_caseWords (casing : Casing) (words : List (List Char)) :
    List.Forall₂ Cased words (caseWords casing words) := by
  have hall : ∀ {f : List Char → List Char}, (∀ word, Cased word (f word)) →
      ∀ words : List (List Char), List.Forall₂ Cased words (words.map f) := by
    intro f hf words
    induction words with
    | nil => exact .nil
    | cons word rest ih => exact .cons (hf word) ih
  cases casing with
  | kebab => exact hall (fun _ => .lower) words
  | snake => exact hall (fun _ => .lower) words
  | screamingSnake => exact hall (fun _ => .upper) words
  | camel =>
      cases words with
      | nil => exact .nil
      | cons first rest => exact .cons .lower (hall (fun _ => .capitalize) rest)
  | pascal => exact hall (fun _ => .capitalize) words

section

variable {word text : List Char}

/-- A capitalized word is the lowered one with another first letter. -/
theorem capitalize_cases (hne : word ≠ []) (h : ∀ c ∈ word, isAlphanumeric c = true) :
    ∃ c rest d more, lower word = c :: rest ∧ capitalize word = d :: (more ++ rest) ∧
      upperChar c = d :: more ∧ isAlphanumeric d = true ∧
        word.length = (rest.filter isAlphanumeric).length + 1 := by
  have hlength := length_filter_lowerAfter h []
  rcases List.exists_cons_of_ne_nil hne with ⟨first, others, rfl⟩
  obtain ⟨c, rest, hlower, hc⟩ := lowerAfter_cons_alphanumeric (h first (by simp)) [] others
  obtain ⟨d, more, hupper, hd⟩ := upperChar_alphanumeric hc
  have hcapital : capitalize (first :: others) = d :: (more ++ rest) := by
    simp [capitalize, lower, hlower, hupper]
  refine ⟨c, rest, d, more, hlower, hcapital, hupper, hd, ?_⟩
  rw [← hlength, hlower, List.filter_cons_of_pos hc, List.length_cons]

/-- A cased word has no fewer letters and numbers than the word. -/
theorem length_le_of_cased (h : ∀ c ∈ word, isAlphanumeric c = true) (hcased : Cased word text) :
    word.length ≤ (text.filter isAlphanumeric).length := by
  cases hcased with
  | lower => exact Nat.le_of_eq (length_filter_lowerAfter h []).symm
  | upper => exact length_le_filter_upper h
  | capitalize =>
      by_cases hne : word = []
      · simp [hne]
      · obtain ⟨c, rest, d, more, _, hcapital, _, hd, hlength⟩ := capitalize_cases hne h
        rw [hcapital, List.filter_cons_of_pos hd, List.filter_append]
        simp only [List.length_cons, List.length_append]
        omega

/-- A word whose letters and numbers are not changed by a capital is not changed at all. -/
theorem capitalize_eq_of_same (h : ∀ c ∈ word, isAlphanumeric c = true)
    (hsame : word = (capitalize word).filter isAlphanumeric) : capitalize word = word := by
  by_cases hne : word = []
  · subst hne
    rfl
  · obtain ⟨c, rest, d, more, hlower, hcapital, hupper, hd, hlength⟩ := capitalize_cases hne h
    rw [hcapital, List.filter_cons_of_pos hd, List.filter_append] at hsame
    -- The length leaves no letters beside the first one of its image.
    have hmore : more.filter isAlphanumeric = [] := by
      have hlength' := congrArg List.length hsame
      simp only [List.length_cons, List.length_append] at hlength'
      exact List.length_eq_zero_iff.1 (by omega)
    have hword : word = d :: rest.filter isAlphanumeric := by rwa [hmore, List.nil_append] at hsame
    -- What follows it was lowered before, so that lowering the word again changes only the first.
    have hlow : ∀ e ∈ rest.filter isAlphanumeric, Low e := by
      intro e he
      have hrest : e ∈ lower word := by
        rw [hlower]
        exact List.mem_cons_of_mem _ (List.mem_filter.1 he).1
      exact low_of_mem_lowerAfter hrest
    have hagain : lowerChar d ++ rest.filter isAlphanumeric = c :: rest := by
      rw [← hlower, hword]
      simp [lower, lowerAfter, nextIsCased, lowerAfter_of_low hlow]
    obtain ⟨e, marks, hlowerChar, _⟩ := lowerChar_alphanumeric hd
    obtain ⟨rfl, hrest⟩ : e = c ∧ marks ++ rest.filter isAlphanumeric = rest := by
      simpa [hlowerChar] using hagain
    obtain ⟨rfl, rfl⟩ := single_of_mutual hupper hlowerChar
    calc
      capitalize word = d :: rest := by rw [hcapital, List.nil_append]
      _ = d :: rest.filter isAlphanumeric := congrArg (d :: ·) hrest.symm
      _ = word := hword.symm

/-- A word whose letters and numbers are not changed by its case is not changed at all. -/
theorem eq_of_cased (h : ∀ c ∈ word, isAlphanumeric c = true) (hcased : Cased word text)
    (hsame : word = text.filter isAlphanumeric) : text = word := by
  -- All letters of the word are in the cased text, so none of them has another case.
  have hin : ∀ c ∈ word, c ∈ text := by
    intro c hc
    rw [hsame] at hc
    exact (List.mem_filter.1 hc).1
  cases hcased with
  | lower => exact lowerAfter_of_low (fun c hc => low_of_mem_lowerAfter (hin c hc)) []
  | upper => exact upper_of_high fun c hc => high_of_mem_upper (hin c hc)
  | capitalize => exact capitalize_eq_of_same h hsame

end

section

variable {words texts : List (List Char)}

/-- Casing loses no letter or digit. -/
theorem length_flatten_le (hcased : List.Forall₂ Cased words texts)
    (h : ∀ word ∈ words, ∀ c ∈ word, isAlphanumeric c = true) :
    words.flatten.length ≤ (texts.map (List.filter isAlphanumeric)).flatten.length := by
  induction hcased with
  | nil => simp
  | cons hword _ ih =>
      obtain ⟨hfirst, hrest⟩ := List.forall_mem_cons.1 h
      rw [List.flatten_cons, List.map_cons, List.flatten_cons, List.length_append,
        List.length_append]
      exact Nat.add_le_add (length_le_of_cased hfirst hword) (ih hrest)

/-- Words whose letters and numbers are not changed by their case are not changed at all. -/
theorem eq_of_flatten_eq (hcased : List.Forall₂ Cased words texts)
    (h : ∀ word ∈ words, ∀ c ∈ word, isAlphanumeric c = true)
    (hsame : words.flatten = (texts.map (List.filter isAlphanumeric)).flatten) :
    texts = words := by
  induction hcased with
  | nil => rfl
  | @cons word text words texts hword hwords ih =>
      obtain ⟨hfirst, hrest⟩ := List.forall_mem_cons.1 h
      rw [List.flatten_cons, List.map_cons, List.flatten_cons] at hsame
      -- Neither the first word nor the others can have gained a letter, so both are as long as before.
      have hle := length_le_of_cased hfirst hword
      have hles := length_flatten_le hwords hrest
      have hlength := congrArg List.length hsame
      rw [List.length_append, List.length_append] at hlength
      obtain ⟨hhead, htail⟩ := List.append_inj hsame (by omega)
      rw [eq_of_cased hfirst hword hhead, ih hrest htail]

end

/-! ## Conversions -/

/-- The name is put together from its own words, and the convention leaves each of them as it is. -/
def WrittenAsRead (casing : Casing) (name : List Char) : Prop :=
  caseWords casing (splitWords name) = splitWords name ∧ glue casing (splitWords name) = name

instance (casing : Casing) (name : List Char) : Decidable (WrittenAsRead casing name) :=
  inferInstanceAs (Decidable (_ ∧ _))

section

variable {name : List Char} {casing : Casing}

/-- A name that does not comply is joined from its words. -/
theorem convert_of_words (hcompliant : isCompliant name casing = false)
    (hwords : splitWords name ≠ []) :
    convert name casing = joinWords casing (splitWords name) := by
  cases hsplit : splitWords name with
  | nil => exact absurd hsplit hwords
  | cons first rest => simp [convert, hcompliant, hsplit]

theorem convert_of_not_words (hwords : splitWords name = []) : convert name casing = name := by
  simp [convert, hwords]

/-- A name is written as it is read when its own words join to it. -/
theorem writtenAsRead_iff :
    WrittenAsRead casing name ↔ joinWords casing (splitWords name) = name := by
  constructor
  · rintro ⟨hwords, hname⟩
    rw [joinWords_eq, hwords, hname]
  · intro hname
    rw [joinWords_eq] at hname
    -- The letters of the name are those of its words, and those of the cased words.
    have hflatten : (splitWords name).flatten
        = ((caseWords casing (splitWords name)).map (List.filter isAlphanumeric)).flatten := by
      rw [flatten_splitWords, ← filter_glue casing, hname]
    have hwords := eq_of_flatten_eq (cased_caseWords casing (splitWords name))
      (fun _ => isAlphanumeric_of_mem_splitWords) hflatten
    rw [hwords] at hname
    exact ⟨hwords, hname⟩

/-- A conversion leaves a name as it is exactly if the name has no words, follows the convention, or is
written as it is read. -/
theorem convert_eq_self_iff :
    convert name casing = name ↔
      splitWords name = [] ∨ isCompliant name casing = true ∨ WrittenAsRead casing name := by
  by_cases hwords : splitWords name = []
  · simp [convert_of_not_words hwords, hwords]
  · by_cases hcompliant : isCompliant name casing = true
    · simp [convert, hcompliant]
    · rw [convert_of_words (Bool.eq_false_iff.2 hcompliant) hwords, writtenAsRead_iff]
      simp [hwords, hcompliant]

/-- A conversion keeps a name from having no words. -/
theorem splitWords_convert_eq_nil_iff : splitWords (convert name casing) = [] ↔ splitWords name = [] := by
  constructor
  · intro hnone
    by_contra hwords
    by_cases hcompliant : isCompliant name casing = true
    · simp [convert, hcompliant, hwords] at hnone
    · rw [convert_of_words (Bool.eq_false_iff.2 hcompliant) hwords] at hnone
      have hempty : ((caseWords casing (splitWords name)).map (List.filter isAlphanumeric)).flatten
          = [] := by
        rw [← filter_glue casing, ← joinWords_eq, ← flatten_splitWords, hnone, List.flatten_nil]
      have hle := length_flatten_le (cased_caseWords casing (splitWords name))
        fun _ => isAlphanumeric_of_mem_splitWords
      rw [hempty, List.length_nil, Nat.le_zero, List.length_eq_zero_iff,
        List.flatten_eq_nil_iff] at hle
      rcases List.exists_mem_of_ne_nil _ hwords with ⟨word, hword⟩
      exact ne_nil_of_mem_splitWords hword (hle word hword)
  · intro hwords
    rw [convert_of_not_words hwords, hwords]

end

/-- A converted name is not converted any further exactly if it has no words, follows the convention
or is written as it is read.  The converted name of an ASCII name never is. -/
theorem convert_again_iff (name : List Char) (casing : Casing) :
    (convert (convert name casing) casing = convert name casing ↔
      splitWords name = [] ∨ isCompliant (convert name casing) casing = true ∨
        WrittenAsRead casing (convert name casing)) ∧
    (Ascii name → convert (convert name casing) casing = convert name casing) := by
  constructor
  · rw [convert_eq_self_iff, splitWords_convert_eq_nil_iff]
  · intro hascii
    rcases isCompliant_convert hascii casing with hsame | hcompliant
    · rw [hsame, hsame]
    · exact convert_eq_self_iff.2 (.inr (.inl hcompliant))

/-- An ASCII name, a bold capital that no lower-case form is known of and that is read as one word,
and a word before such a capital, which is cut in two by the second conversion. -/
theorem convert_again_iff_bold :
    let plain := "MyFile".toList
    let bold := [Char.ofNat 0x1D400]
    let mixed := ['A', Char.ofNat 0x1D400]
    Ascii plain ∧ convert (convert plain .kebab) .kebab = convert plain .kebab ∧
      isCompliant (convert bold .kebab) .kebab = false ∧
      convert (convert bold .kebab) .kebab = convert bold .kebab ∧
      ¬ WrittenAsRead .kebab (convert mixed .kebab) ∧
      convert (convert mixed .kebab) .kebab ≠ convert mixed .kebab := by
  intro plain bold mixed
  have hascii : Ascii plain := by decide
  have hread : WrittenAsRead .kebab (convert bold .kebab) := by decide +kernel
  have hsplit : splitWords mixed ≠ [] := by decide +kernel
  have hcompliant : isCompliant (convert mixed .kebab) .kebab = false := by decide +kernel
  have hcut : ¬ WrittenAsRead .kebab (convert mixed .kebab) := by decide +kernel
  refine ⟨hascii, (convert_again_iff plain .kebab).2 hascii, by decide +kernel,
    (convert_again_iff bold .kebab).1.2 (.inr (.inr hread)), hcut, fun hagain => ?_⟩
  rcases (convert_again_iff mixed .kebab).1.1 hagain with hnone | hfollows | hread
  · exact hsplit hnone
  · simp [hcompliant] at hfollows
  · exact hcut hread

/-- The mark of a lowered dotted capital I is no part of a word, so the second conversion puts a
hyphen in its place. -/
theorem convert_again_differs :
    ¬ ∀ (name : List Char) (casing : Casing),
      convert (convert name casing) casing = convert name casing := by
  intro hall
  have hagain := hall [Char.ofNat 0x130, 'a'] .kebab
  have honce : convert [Char.ofNat 0x130, 'a'] .kebab = ['i', Char.ofNat 0x307, 'a'] := by
    decide +kernel
  have htwice : convert ['i', Char.ofNat 0x307, 'a'] .kebab = ['i', '-', 'a'] := by
    decide +kernel
  rw [honce, htwice] at hagain
  revert hagain
  decide

end Naming
end ProjectConsistency
