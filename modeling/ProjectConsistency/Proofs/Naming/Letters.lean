import Mathlib.Data.List.Basic
import ProjectConsistency.Proofs.Naming.Compliance
import ProjectConsistency.Proofs.Naming.Words

/-!
# Letters — a conversion of an ASCII name changes cases and separators only

A name in another convention is still the same name to its reader: the words are cut, cased and
joined, and none of the three steps loses a letter, adds one or moves one.  This file defines:

* `letters` — the letters and digits of a text, lower-cased and in order.

Cutting keeps the letters by `flatten_splitWords`, the case mappings keep those of an ASCII word
(`AsciiWord.letters_lower`, `AsciiWord.letters_upper`, `AsciiWord.letters_capitalize`), and a
separator has none.
-/

namespace ProjectConsistency
namespace Naming

open Text

/-- The letters and digits of a text, lower-cased and in order. -/
def letters (cs : List Char) : List Char :=
  (cs.filter isAlphanumeric).map Char.toLower

/-! ## Texts -/

theorem letters_append (cs ds : List Char) : letters (cs ++ ds) = letters cs ++ letters ds := by
  simp [letters]

theorem letters_flatMap (words : List (List Char)) (f : List Char → List Char) :
    letters (words.flatMap f) = words.flatMap fun word => letters (f word) := by
  induction words with
  | nil => rfl
  | cons word rest ih => simp [letters_append, ih]

/-- A separator that is no letter adds none. -/
theorem letters_intercalate {sep : Char} (hsep : isAlphanumeric sep = false)
    (texts : List (List Char)) : letters ([sep].intercalate texts) = texts.flatMap letters := by
  rw [letters, filter_intercalate hsep, ← List.flatMap_def, List.map_flatMap]
  rfl

/-- The letters of a name are those of its words. -/
theorem flatMap_letters_splitWords (name : List Char) :
    (splitWords name).flatMap letters = letters name := by
  calc
    (splitWords name).flatMap letters
        = letters ((splitWords name).flatMap id) := (letters_flatMap _ id).symm
    _ = letters (name.filter isAlphanumeric) := by rw [List.flatMap_id, flatten_splitWords]
    _ = letters name := by simp [letters]

/-! ## Words -/

section

variable {c : Char}

theorem letters_toLower (hc : c.toNat < 128) (h : isAlphanumeric c = true) :
    letters [c.toLower] = [c.toLower] := by
  revert h
  exact forall_ascii
    (p := fun c => isAlphanumeric c = true → letters [c.toLower] = [c.toLower]) (by decide) hc

theorem letters_toUpper (hc : c.toNat < 128) (h : isAlphanumeric c = true) :
    letters [c.toUpper] = [c.toLower] := by
  revert h
  exact forall_ascii
    (p := fun c => isAlphanumeric c = true → letters [c.toUpper] = [c.toLower]) (by decide) hc

end

/-- A mapping that keeps the letter of each character of a word keeps the letters of the word. -/
theorem AsciiWord.letters_map {f : Char → Char}
    (hf : ∀ c : Char, c.toNat < 128 → isAlphanumeric c = true → letters [f c] = [c.toLower])
    {word : List Char} (h : AsciiWord word) : letters (word.map f) = letters word := by
  have hall : ∀ cs : List Char, Ascii cs → (∀ c ∈ cs, isAlphanumeric c = true) →
      letters (cs.map f) = cs.map Char.toLower := by
    intro cs hascii halnum
    induction cs with
    | nil => rfl
    | cons c rest ih =>
        obtain ⟨hc, hrest⟩ := List.forall_mem_cons.1 hascii
        obtain ⟨hc', hrest'⟩ := List.forall_mem_cons.1 halnum
        calc
          letters ((c :: rest).map f) = letters [f c] ++ letters (rest.map f) :=
            letters_append [f c] (rest.map f)
          _ = [c.toLower] ++ rest.map Char.toLower := by rw [hf c hc hc', ih hrest hrest']
          _ = (c :: rest).map Char.toLower := rfl
  have hself : letters word = word.map Char.toLower := by
    rw [letters, List.filter_eq_self.2 h.alphanumeric]
  rw [hall word h.ascii h.alphanumeric, hself]

section

variable {word : List Char}

theorem AsciiWord.letters_lower (h : AsciiWord word) : letters (lower word) = letters word := by
  rw [lower_eq_map h.ascii]
  exact h.letters_map fun _ => letters_toLower

theorem AsciiWord.letters_upper (h : AsciiWord word) : letters (upper word) = letters word := by
  rw [upper_eq_map h.ascii]
  exact h.letters_map fun _ => letters_toUpper

/-- Capitalising a word keeps its letters. -/
theorem AsciiWord.letters_capitalize (h : AsciiWord word) :
    letters (capitalize word) = letters word := by
  rcases List.exists_cons_of_ne_nil h.ne_nil with ⟨first, rest, rfl⟩
  have hascii := h.ascii first (by simp)
  have halnum := h.alphanumeric first (by simp)
  -- Only the first character of the lowered word is raised, and it keeps its letter.
  calc
    letters (capitalize (first :: rest))
        = letters [first.toUpper] ++ letters (rest.map Char.toLower) := by
          rw [h.capitalize_cons, ← letters_append, List.singleton_append]
    _ = letters [first.toLower] ++ letters (rest.map Char.toLower) := by
          rw [letters_toUpper hascii halnum, letters_toLower hascii halnum]
    _ = letters ((first :: rest).map Char.toLower) := (letters_append _ _).symm
    _ = letters (first :: rest) := h.letters_map fun _ => letters_toLower

end

/-! ## Conversions -/

/-- Joining words keeps their letters, in every casing. -/
theorem letters_joinWords (casing : Casing) {words : List (List Char)}
    (h : ∀ word ∈ words, AsciiWord word) :
    letters (joinWords casing words) = words.flatMap letters := by
  have hlower : words.flatMap (fun word => letters (lower word)) = words.flatMap letters :=
    List.flatMap_congr fun word hword => (h word hword).letters_lower
  have hupper : words.flatMap (fun word => letters (upper word)) = words.flatMap letters :=
    List.flatMap_congr fun word hword => (h word hword).letters_upper
  have hcapitalize : ∀ {rest : List (List Char)}, (∀ word ∈ rest, AsciiWord word) →
      letters (rest.flatMap capitalize) = rest.flatMap letters := by
    intro rest hrest
    rw [letters_flatMap]
    exact List.flatMap_congr fun word hword => (hrest word hword).letters_capitalize
  cases casing with
  | kebab => rw [joinWords, letters_intercalate (by decide), List.flatMap_map, hlower]
  | snake => rw [joinWords, letters_intercalate (by decide), List.flatMap_map, hlower]
  | screamingSnake => rw [joinWords, letters_intercalate (by decide), List.flatMap_map, hupper]
  | camel =>
      cases words with
      | nil => rfl
      | cons first rest =>
          obtain ⟨hfirst, hrest⟩ := List.forall_mem_cons.1 h
          rw [joinWords, letters_append, hfirst.letters_lower, hcapitalize hrest,
            List.flatMap_cons]
  | pascal => exact hcapitalize h

/-- A conversion of an ASCII name with a letter or digit ends in a name that follows the convention
and has the letters and digits of the name, in the order that they have there. -/
theorem convert_follows_and_keeps {name : List Char} (hascii : Ascii name)
    (hletter : ∃ c ∈ name, isAlphanumeric c = true) (casing : Casing) :
    isCompliant (convert name casing) casing = true ∧
      letters (convert name casing) = letters name := by
  by_cases hcompliant : isCompliant name casing = true
  · simp [convert, hcompliant]
  · have hne : splitWords name ≠ [] := by
      intro hnone
      obtain ⟨c, hc, halnum⟩ := hletter
      simp [splitWords_eq_nil_iff.1 hnone c hc] at halnum
    have hconvert : convert name casing = joinWords casing (splitWords name) := by
      cases hwords : splitWords name with
      | nil => exact absurd hwords hne
      | cons first rest => simp [convert, hcompliant, hwords]
    have hwords : ∀ word ∈ splitWords name, AsciiWord word := fun _ =>
      asciiWord_of_mem_splitWords hascii
    rw [hconvert]
    refine ⟨isCompliant_joinWords casing hne hwords, ?_⟩
    rw [letters_joinWords casing hwords, flatMap_letters_splitWords]

/-- Separators at both ends and in a row, an acronym before a word, and a digit before a capital. -/
theorem convert_follows_and_keeps_acronym :
    let name := "__HTMLParser -v2Api.".toList
    Ascii name ∧ (∃ c ∈ name, isAlphanumeric c = true) ∧
      convert name .camel = "htmlParserV2Api".toList ∧
      ∀ casing, isCompliant (convert name casing) casing = true ∧
        letters (convert name casing) = "htmlparserv2api".toList := by
  intro name
  have hascii : Ascii name := by decide
  have hletter : ∃ c ∈ name, isAlphanumeric c = true := ⟨'H', by decide, by decide⟩
  refine ⟨hascii, hletter, by decide +kernel, fun casing => ?_⟩
  obtain ⟨hfollows, hkeeps⟩ := convert_follows_and_keeps hascii hletter casing
  exact ⟨hfollows, hkeeps.trans (by decide +kernel)⟩

end Naming
end ProjectConsistency
