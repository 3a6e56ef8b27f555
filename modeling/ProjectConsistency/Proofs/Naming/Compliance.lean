import ProjectConsistency.Proofs.Naming.Conversion

/-!
# Compliance — a converted ASCII name follows its convention

Some letters have no case, or are mapped to texts that begin with other signs, so a converted name
may break its convention again.  Among ASCII characters this does not happen.  This file defines:

* `Text.Ascii` — all characters of a text are ASCII;
* `Naming.AsciiWord` — a word that is cut from such a text.

The case mappings work character by character there (`lower_eq_map`, `upper_eq_map`), and every
convention reads back the words that it was given (`isCompliant_joinWords`).  So a conversion changes
nothing or ends in a compliant name (`isCompliant_convert`), and no rule about names asks for another
name again (`directoryName_of_wanted`, `fileName_of_wanted`).
-/

namespace ProjectConsistency

/-! ## Case mappings -/

namespace Text

def Ascii (cs : List Char) : Prop :=
  ∀ c ∈ cs, c.toNat < 128

instance (cs : List Char) : Decidable (Ascii cs) :=
  List.decidableBAll (fun c : Char => c.toNat < 128) cs

variable {cs : List Char}

/-- In ASCII, lowering a character does not depend on those before it. -/
theorem lowerAfter_eq_map (h : Ascii cs) (before : List Char) :
    lowerAfter before cs = cs.map Char.toLower := by
  induction cs generalizing before with
  | nil => rfl
  | cons c rest ih =>
      obtain ⟨hc, hrest⟩ := List.forall_mem_cons.1 h
      -- A capital sigma, whose image depends on its place, is not ASCII.
      have hsigma : ¬ c.toNat = 0x3A3 := by omega
      simp [lowerAfter, hsigma, lowerChar, hc, ih hrest]

theorem lower_eq_map (h : Ascii cs) : lower cs = cs.map Char.toLower :=
  lowerAfter_eq_map h []

theorem upper_eq_map (h : Ascii cs) : upper cs = cs.map Char.toUpper := by
  induction cs with
  | nil => rfl
  | cons c rest ih =>
      obtain ⟨hc, hrest⟩ := List.forall_mem_cons.1 h
      have hupper : upper (c :: rest) = upperChar c ++ upper rest := rfl
      rw [hupper, ih hrest]
      simp [upperChar, hc]

end Text

/-! ## Characters of words -/

namespace Naming

open Text

structure AsciiWord (word : List Char) : Prop where
  ne_nil : word ≠ []
  ascii : Ascii word
  alphanumeric : ∀ c ∈ word, isAlphanumeric c = true

section

variable {c : Char}

theorem isLowerOrDigit_toLower (hc : c.toNat < 128) (h : isAlphanumeric c = true) :
    isLowerOrDigit c.toLower = true := by
  revert h
  exact forall_ascii (p := fun c => isAlphanumeric c = true → isLowerOrDigit c.toLower = true)
    (by decide) hc

theorem isUpperOrDigit_toUpper (hc : c.toNat < 128) (h : isAlphanumeric c = true) :
    isUpperOrDigit c.toUpper = true := by
  revert h
  exact forall_ascii (p := fun c => isAlphanumeric c = true → isUpperOrDigit c.toUpper = true)
    (by decide) hc

/-- A letter is raised to the same capital whether it was lowered before or not. -/
theorem toUpper_toLower (hc : c.toNat < 128) : c.toLower.toUpper = c.toUpper :=
  forall_ascii (p := fun c => c.toLower.toUpper = c.toUpper) (by decide) hc

theorem toNat_toLower_lt (hc : c.toNat < 128) : c.toLower.toNat < 128 :=
  forall_ascii (p := fun c => c.toLower.toNat < 128) (by decide) hc

theorem isAlphanumeric_of_isLowerOrDigit (h : isLowerOrDigit c = true) :
    isAlphanumeric c = true := by
  simp only [isLowerOrDigit, Bool.or_eq_true, Bool.and_eq_true] at h
  rcases h with h | ⟨h, _⟩
  · simp [isAlphanumeric, h]
  · simp [isAlphanumeric, h]

theorem isAlphanumeric_of_isUpperOrDigit (h : isUpperOrDigit c = true) :
    isAlphanumeric c = true := by
  simp only [isUpperOrDigit, Bool.or_eq_true, Bool.and_eq_true] at h
  rcases h with h | ⟨h, _⟩
  · simp [isAlphanumeric, h]
  · simp [isAlphanumeric, h]

end

/-- The words of an ASCII text are ASCII words. -/
theorem asciiWord_of_mem_splitWords {cs word : List Char} (h : Ascii cs)
    (hword : word ∈ splitWords cs) : AsciiWord word := by
  obtain ⟨hne, hchars⟩ := chars_of_mem_wordsFrom hword
  have hin : ∀ c ∈ word, c ∈ cs ∧ isAlphanumeric c = true := by
    intro c hc
    rcases hchars c hc with hnil | hin
    · simp at hnil
    · exact hin
  exact ⟨hne, fun c hc => h c (hin c hc).1, fun c hc => (hin c hc).2⟩

section

variable {word : List Char}

/-- A lowered word is of lower-case letters and digits, and not empty. -/
theorem AsciiWord.all_lower (h : AsciiWord word) :
    lower word ≠ [] ∧ ∀ c ∈ lower word, isLowerOrDigit c = true := by
  rw [lower_eq_map h.ascii]
  refine ⟨by simpa using h.ne_nil, ?_⟩
  intro c hc
  rcases List.mem_map.1 hc with ⟨d, hd, rfl⟩
  exact isLowerOrDigit_toLower (h.ascii d hd) (h.alphanumeric d hd)

/-- A raised word is of upper-case letters and digits, and not empty. -/
theorem AsciiWord.all_upper (h : AsciiWord word) :
    upper word ≠ [] ∧ ∀ c ∈ upper word, isUpperOrDigit c = true := by
  rw [upper_eq_map h.ascii]
  refine ⟨by simpa using h.ne_nil, ?_⟩
  intro c hc
  rcases List.mem_map.1 hc with ⟨d, hd, rfl⟩
  exact isUpperOrDigit_toUpper (h.ascii d hd) (h.alphanumeric d hd)

/-- A word is capitalized by raising its first character and lowering the others. -/
theorem AsciiWord.capitalize_cons {first : Char} {others : List Char}
    (h : AsciiWord (first :: others)) :
    capitalize (first :: others) = first.toUpper :: others.map Char.toLower := by
  have hascii := h.ascii first (by simp)
  have hlower : lower (first :: others) = first.toLower :: others.map Char.toLower := by
    rw [lower_eq_map h.ascii, List.map_cons]
  have hupper : upperChar first.toLower = [first.toUpper] := by
    simp [upperChar, toNat_toLower_lt hascii, toUpper_toLower hascii]
  simp [capitalize, hlower, hupper]

/-- A capitalized word is a capital or a digit, and letters and digits after it. -/
theorem AsciiWord.capitalize_eq (h : AsciiWord word) :
    ∃ c rest, capitalize word = c :: rest ∧ isUpperOrDigit c = true ∧
      ∀ d ∈ rest, isAlphanumeric d = true := by
  rcases List.exists_cons_of_ne_nil h.ne_nil with ⟨first, others, rfl⟩
  refine ⟨first.toUpper, others.map Char.toLower, h.capitalize_cons,
    isUpperOrDigit_toUpper (h.ascii first (by simp)) (h.alphanumeric first (by simp)), ?_⟩
  intro d hd
  rcases List.mem_map.1 hd with ⟨e, he, rfl⟩
  exact isAlphanumeric_of_isLowerOrDigit (isLowerOrDigit_toLower
    (h.ascii e (List.mem_cons_of_mem _ he)) (h.alphanumeric e (List.mem_cons_of_mem _ he)))

/-- Capitalised words hold letters and digits only. -/
theorem alphanumeric_flatMap_capitalize {words : List (List Char)}
    (h : ∀ word ∈ words, AsciiWord word) :
    ∀ c ∈ words.flatMap capitalize, isAlphanumeric c = true := by
  intro c hc
  rcases List.mem_flatMap.1 hc with ⟨word, hword, hc⟩
  obtain ⟨first, rest, heq, hfirst, hrest⟩ := (h word hword).capitalize_eq
  rw [heq] at hc
  rcases List.mem_cons.1 hc with rfl | hc
  · exact isAlphanumeric_of_isUpperOrDigit hfirst
  · exact hrest c hc

end

/-! ## Conventions -/

/-- Words with separators between them are read back, if no word holds the separator. -/
theorem isSeparated_intercalate {sep : Char} {p : Char → Bool} (hsep : p sep = false)
    {words : List (List Char)} (hne : words ≠ [])
    (h : ∀ word ∈ words, word ≠ [] ∧ ∀ c ∈ word, p c = true) :
    isSeparated sep p ([sep].intercalate words) = true := by
  have hsplit : splitOn sep ([sep].intercalate words) = words := by
    refine splitOn_intercalate hne fun word hword hmem => ?_
    have hp := (h word hword).2 sep hmem
    simp [hsep] at hp
  rw [isSeparated, hsplit, List.all_eq_true]
  intro word hword
  obtain ⟨hnil, hall⟩ := h word hword
  simpa [hnil] using hall

/-- A joined name is a fitting first letter before letters and digits. -/
theorem isJoined_cons {p : Char → Bool} {c : Char} {rest : List Char} (hc : p c = true)
    (halnum : isAlphanumeric c = true) (hrest : ∀ d ∈ rest, isAlphanumeric d = true) :
    isJoined p (c :: rest) = true := by
  simpa [isJoined, hc, halnum] using hrest

/-- A name that is joined from ASCII words follows its convention. -/
theorem isCompliant_joinWords (casing : Casing) {words : List (List Char)} (hne : words ≠ [])
    (h : ∀ word ∈ words, AsciiWord word) :
    isCompliant (joinWords casing words) casing = true := by
  have hsolid : ∀ word ∈ words, Solid word := fun word hword =>
    ⟨(h word hword).ne_nil,
      fun c hc => pastSlash_of_isAlphanumeric ((h word hword).alphanumeric c hc)⟩
  have hname : joinWords casing words ≠ [] := (joinWords_written casing hne hsolid).1
  have hlower : ∀ word ∈ words.map lower, word ≠ [] ∧ ∀ c ∈ word, isLowerOrDigit c = true := by
    intro word hword
    rcases List.mem_map.1 hword with ⟨w, hw, rfl⟩
    exact (h w hw).all_lower
  have hupper : ∀ word ∈ words.map upper, word ≠ [] ∧ ∀ c ∈ word, isUpperOrDigit c = true := by
    intro word hword
    rcases List.mem_map.1 hword with ⟨w, hw, rfl⟩
    exact (h w hw).all_upper
  refine Bool.and_eq_true_iff.2 ⟨by simpa using hname, ?_⟩
  -- Words with separators are read back one by one, joined words by their first character only.
  cases casing with
  | kebab => exact isSeparated_intercalate (by decide) (by simpa using hne) hlower
  | snake => exact isSeparated_intercalate (by decide) (by simpa using hne) hlower
  | screamingSnake => exact isSeparated_intercalate (by decide) (by simpa using hne) hupper
  | camel =>
      cases words with
      | nil => exact absurd rfl hne
      | cons word others =>
          obtain ⟨hword, hothers⟩ := List.forall_mem_cons.1 h
          obtain ⟨hnil, hall⟩ := hword.all_lower
          rcases List.exists_cons_of_ne_nil hnil with ⟨c, rest, heq⟩
          rw [heq] at hall
          obtain ⟨hc, hrest⟩ := List.forall_mem_cons.1 hall
          rw [joinWords, heq, List.cons_append]
          refine isJoined_cons hc (isAlphanumeric_of_isLowerOrDigit hc)
            (List.forall_mem_append.2 ⟨fun d hd => ?_, alphanumeric_flatMap_capitalize hothers⟩)
          exact isAlphanumeric_of_isLowerOrDigit (hrest d hd)
  | pascal =>
      cases words with
      | nil => exact absurd rfl hne
      | cons word others =>
          obtain ⟨hword, hothers⟩ := List.forall_mem_cons.1 h
          obtain ⟨c, rest, heq, hc, hrest⟩ := hword.capitalize_eq
          rw [joinWords, List.flatMap_cons, heq, List.cons_append]
          exact isJoined_cons hc (isAlphanumeric_of_isUpperOrDigit hc)
            (List.forall_mem_append.2 ⟨hrest, alphanumeric_flatMap_capitalize hothers⟩)

/-- A conversion of an ASCII name leaves it as it is, or ends in a name that is compliant. -/
theorem isCompliant_convert {name : List Char} (h : Ascii name) (casing : Casing) :
    convert name casing = name ∨ isCompliant (convert name casing) casing = true := by
  by_cases hcompliant : isCompliant name casing = true
  · exact .inl (by simp [convert, hcompliant])
  · cases hwords : splitWords name with
    | nil => exact .inl (by simp [convert, hcompliant, hwords])
    | cons first rest =>
        have hconvert : convert name casing = joinWords casing (first :: rest) := by
          simp [convert, hcompliant, hwords]
        rw [hconvert]
        refine .inr (isCompliant_joinWords casing (by simp) fun word hword => ?_)
        rw [← hwords] at hword
        exact asciiWord_of_mem_splitWords h hword

end Naming

/-! ## Rules -/

namespace Rules.Naming

open ProjectConsistency.Naming Text

variable {rules : NamingRules} {name wanted : String}

/-- The name that a directory ought to have is not to be changed again. -/
theorem directoryName_of_wanted (hascii : Ascii name.toList)
    (h : directoryName rules name = some wanted) (hne : wanted ≠ name) :
    directoryName rules wanted = none := by
  by_cases hok : (isExempt rules name || isCompliant name.toList rules.directoryCasing) = true
  · simp [directoryName, hok] at h
  · obtain rfl : String.ofList (convert name.toList rules.directoryCasing) = wanted := by
      simpa [directoryName, hok] using h
    rcases isCompliant_convert hascii rules.directoryCasing with hsame | hcompliant
    · exact absurd (by simp [hsame]) hne
    · simp [directoryName, hcompliant]

/-- A stem without dots is cut off before the extensions of a file again. -/
theorem splitStem_append {stem extensions : List Char} (hstem : '.' ∉ stem)
    (hextensions : extensions = [] ∨ extensions.head? = some '.') :
    splitStem (stem ++ extensions) = (stem, extensions) := by
  have hall : ∀ c ∈ stem, decide (c ≠ '.') = true := by
    intro c hc
    simpa using fun heq : c = '.' => hstem (heq ▸ hc)
  rw [splitStem, List.takeWhile_append_of_pos hall, List.dropWhile_append_of_pos hall]
  cases extensions with
  | nil => simp
  | cons c rest =>
      obtain rfl : c = '.' := by simpa using hextensions
      simp

/-- The name that a file ought to have is not to be changed again. -/
theorem fileName_of_wanted (hascii : Ascii name.toList)
    (h : fileName rules name = some wanted) (hne : wanted ≠ name) :
    fileName rules wanted = none := by
  let stem := (splitStem name.toList).1
  let extensions := (splitStem name.toList).2
  by_cases hok : (isExempt rules name || isCompliant stem rules.fileCasing) = true
  · simp [fileName, stem, hok] at h
  · obtain rfl : String.ofList (convert stem rules.fileCasing ++ extensions) = wanted := by
      simpa [fileName, stem, extensions, hok] using h
    have hsplit : stem ++ extensions = name.toList := List.takeWhile_append_dropWhile
    have hstem : Ascii stem := fun c hc =>
      hascii c (hsplit ▸ List.mem_append_left extensions hc)
    have hchanged : convert stem rules.fileCasing ≠ stem := fun hsame =>
      hne (by simp [hsame, hsplit])
    rcases isCompliant_convert hstem rules.fileCasing with hsame | hcompliant
    · exact absurd hsame hchanged
    · -- A conversion writes no dot, so the new name is cut where the old one was.
      have hdot : '.' ∉ convert stem rules.fileCasing := by
        intro hmem
        rcases convert_cases stem rules.fileCasing with hsame | ⟨_, hwritten⟩
        · exact hchanged hsame
        · exact absurd (hwritten '.' hmem) (by simp [Written, PastSlash])
      have hextensions : extensions = [] ∨ extensions.head? = some '.' := by
        have hhead := List.head?_dropWhile_not (fun c => decide (c ≠ '.')) name.toList
        cases hcut : extensions with
        | nil => exact .inl rfl
        | cons c rest =>
            have hdrop : name.toList.dropWhile (fun c => decide (c ≠ '.')) = c :: rest := hcut
            rw [hdrop] at hhead
            simpa using hhead
      simp [fileName, splitStem_append hdot hextensions, hcompliant]

end Rules.Naming
end ProjectConsistency
