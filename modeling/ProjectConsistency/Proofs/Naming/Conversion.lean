import ProjectConsistency.Proofs.Path.Names

/-!
# Conversion — a converted name is a name

The renames that the rules about names ask for only ever write names that a directory can hold.
Words are made of letters and numbers, the case mappings take these to characters beyond the slash,
and the separators are a hyphen and an underscore.  So what a conversion writes holds no slash, no
dot and no null (`convert_cases`), and a converted file or directory name is plain again
(`plainName_of_fileName`, `plainName_of_directoryName`).
-/

namespace ProjectConsistency

/-! ## Characters -/

namespace Text

/-- The character comes after the slash in the order of the code points. -/
def PastSlash (c : Char) : Prop := 0x30 ≤ c.toNat

instance (c : Char) : Decidable (PastSlash c) :=
  Nat.decLe _ _

/-- The code point of a character after the slash. -/
def ValidCode (n : Nat) : Prop := 0x30 ≤ n ∧ (n < 0xD800 ∨ 0xE000 ≤ n ∧ n < 0x110000)

instance (n : Nat) : Decidable (ValidCode n) :=
  inferInstanceAs (Decidable (_ ∧ _))

theorem ValidCode.toNat_ofNat {n : Nat} (h : ValidCode n) : (Char.ofNat n).toNat = n := by
  have hvalid : n.isValidChar := by
    rcases h with ⟨_, h | ⟨h, h'⟩⟩
    · exact .inl h
    · exact .inr ⟨h, h'⟩
  rw [Char.ofNat, dif_pos hvalid]
  rfl

theorem ValidCode.pastSlash {n : Nat} (h : ValidCode n) : PastSlash (Char.ofNat n) := by
  rw [PastSlash, h.toNat_ofNat]
  exact h.1

/-- What holds of the first 128 characters holds of every character among them. -/
theorem forall_ascii {p : Char → Prop} (h : ∀ n : Fin 128, p (Char.ofNat n)) {c : Char}
    (hc : c.toNat < 128) : p c := by
  have hself := h ⟨c.toNat, hc⟩
  simpa using hself

theorem pastSlash_of_isAlphanumeric {c : Char} (h : isAlphanumeric c = true) : PastSlash c := by
  by_cases hc : c.toNat < 128
  · revert h
    exact forall_ascii (p := fun c => isAlphanumeric c = true → PastSlash c) (by decide) hc
  · exact Nat.le_of_lt (Nat.lt_of_lt_of_le (by decide) (Nat.not_lt.1 hc))

/-! ## Case mappings -/

/-- A mapped code lies in one run of the table and keeps its place in it. -/
theorem mapCode_cases {table : List (Nat × Nat × Nat × Nat)} {n m : Nat}
    (h : mapCode table n = some m) :
    ∃ first last step image, (first, last, step, image) ∈ table ∧ first ≤ n ∧ n ≤ last ∧
      m = image + (n - first) := by
  induction table with
  | nil => simp [mapCode] at h
  | cons run rest ih =>
      obtain ⟨first, last, step, image⟩ := run
      by_cases hfirst : n < first
      · simp [mapCode, hfirst] at h
      · by_cases hin : n ≤ last && (n - first) % step == 0
        · have hm : image + (n - first) = m := by simpa [mapCode, hfirst, hin] using h
          have hlast : n ≤ last := by simp at hin; exact hin.1
          exact ⟨first, last, step, image, by simp, Nat.not_lt.1 hfirst, hlast, hm.symm⟩
        · have hrest : mapCode rest n = some m := by simpa [mapCode, hfirst, hin] using h
          rcases ih hrest with ⟨f, l, s, i, hmem, hle, hle', hm⟩
          exact ⟨f, l, s, i, List.mem_cons_of_mem _ hmem, hle, hle', hm⟩

/-- Every image of a run is the code point of a character after the slash. -/
def ValidRun : Nat × Nat × Nat × Nat → Prop
  | (first, last, _, image) =>
      0x30 ≤ image ∧ (image + (last - first) < 0xD800 ∨
        0xE000 ≤ image ∧ image + (last - first) < 0x110000)

instance (run : Nat × Nat × Nat × Nat) : Decidable (ValidRun run) :=
  inferInstanceAs (Decidable (_ ∧ _))

/-- A table of valid runs maps to valid codes. -/
theorem validCode_of_mapCode {table : List (Nat × Nat × Nat × Nat)}
    (htable : ∀ run ∈ table, ValidRun run) {n m : Nat} (h : mapCode table n = some m) :
    ValidCode m := by
  rcases mapCode_cases h with ⟨first, last, step, image, hmem, hfirst, hlast, rfl⟩
  have hrun : ValidRun (first, last, step, image) := htable _ hmem
  -- The code point lies in its run, so its image lies between the two ends of the images.
  simp only [ValidRun] at hrun
  simp only [ValidCode]
  omega

theorem validRun_lowerRuns : ∀ run ∈ lowerRuns, ValidRun run := by decide +kernel

theorem validRun_upperRuns : ∀ run ∈ upperRuns, ValidRun run := by decide +kernel

theorem validCode_upperExpansions :
    ∀ entry ∈ upperExpansions, entry.2 ≠ [] ∧ ∀ n ∈ entry.2, ValidCode n := by decide +kernel

/-- A text with a character, all of whose characters come after the slash. -/
structure Solid (cs : List Char) : Prop where
  ne_nil : cs ≠ []
  pastSlash : ∀ c ∈ cs, PastSlash c

theorem solid_singleton {c : Char} (h : PastSlash c) : Solid [c] :=
  ⟨by simp, by simpa using h⟩

theorem Solid.append {cs ds : List Char} (h : Solid cs) (h' : ∀ d ∈ ds, PastSlash d) :
    Solid (cs ++ ds) := by
  refine ⟨by simp [h.ne_nil], ?_⟩
  intro c hc
  rcases List.mem_append.1 hc with hc | hc
  · exact h.pastSlash c hc
  · exact h' c hc

theorem solid_lowerChar {c : Char} (h : PastSlash c) : Solid (lowerChar c) := by
  -- The definition tells the first 128 characters, the dotted capital I and the table apart.
  by_cases hascii : c.toNat < 128
  · have hlower : PastSlash c.toLower := by
      revert h
      exact forall_ascii (p := fun c => PastSlash c → PastSlash c.toLower) (by decide) hascii
    simpa [lowerChar, hascii] using solid_singleton hlower
  · by_cases hdotted : c.toNat = 0x130
    · have hdot : PastSlash (Char.ofNat 0x307) := by
        apply ValidCode.pastSlash
        simp only [ValidCode]
        omega
      rw [lowerChar, if_neg hascii, if_pos hdotted]
      exact Solid.append (solid_singleton (by decide)) (by simpa using hdot)
    · rw [lowerChar, if_neg hascii, if_neg hdotted]
      cases hmap : mapCode lowerRuns c.toNat with
      | none => exact solid_singleton h
      | some n => exact solid_singleton (validCode_of_mapCode validRun_lowerRuns hmap).pastSlash

theorem solid_upperChar {c : Char} (h : PastSlash c) : Solid (upperChar c) := by
  by_cases hascii : c.toNat < 128
  · have hupper : PastSlash c.toUpper := by
      revert h
      exact forall_ascii (p := fun c => PastSlash c → PastSlash c.toUpper) (by decide) hascii
    simpa [upperChar, hascii] using solid_singleton hupper
  · rw [upperChar, if_neg hascii]
    cases hlookup : upperExpansions.lookup c.toNat with
    | some ns =>
        have hentry : (c.toNat, ns) ∈ upperExpansions := by
          rcases List.lookup_eq_some_iff.1 hlookup with ⟨before, after, hsplit, _⟩
          simp [hsplit]
        have hvalid := validCode_upperExpansions _ hentry
        refine ⟨by simpa using hvalid.1, ?_⟩
        intro d hd
        rcases List.mem_map.1 hd with ⟨n, hn, rfl⟩
        exact (hvalid.2 n hn).pastSlash
    | none =>
        cases hmap : mapCode upperRuns c.toNat with
        | none => exact solid_singleton h
        | some n => exact solid_singleton (validCode_of_mapCode validRun_upperRuns hmap).pastSlash

/-- Lowering brings no slash, dot or control character in. -/
theorem pastSlash_lowerAfter {before cs : List Char} (h : ∀ c ∈ cs, PastSlash c) :
    ∀ d ∈ lowerAfter before cs, PastSlash d := by
  induction cs generalizing before with
  | nil => simp [lowerAfter]
  | cons c rest ih =>
      have hrest : ∀ d ∈ lowerAfter (c :: before) rest, PastSlash d :=
        ih fun d hd => h d (List.mem_cons_of_mem _ hd)
      intro d hd
      rw [lowerAfter] at hd
      rcases List.mem_append.1 hd with hd | hd
      · by_cases hsigma : (c.toNat = 0x3A3 && nextIsCased before && !nextIsCased rest) = true
        · rw [if_pos hsigma] at hd
          obtain rfl : d = Char.ofNat 0x3C2 := by simpa using hd
          decide
        · rw [if_neg hsigma] at hd
          exact (solid_lowerChar (h c (by simp))).pastSlash d hd
      · exact hrest d hd

/-- Lowering leaves something of every word. -/
theorem lowerAfter_ne_nil {before cs : List Char} (h : Solid cs) : lowerAfter before cs ≠ [] := by
  cases cs with
  | nil => exact absurd rfl h.ne_nil
  | cons c rest =>
      rw [lowerAfter]
      by_cases hsigma : (c.toNat = 0x3A3 && nextIsCased before && !nextIsCased rest) = true
      · simp [hsigma]
      · simp [hsigma, (solid_lowerChar (h.pastSlash c (by simp))).ne_nil]

theorem Solid.lower {cs : List Char} (h : Solid cs) : Solid (lower cs) :=
  ⟨lowerAfter_ne_nil h, pastSlash_lowerAfter h.pastSlash⟩

theorem Solid.upper {cs : List Char} (h : Solid cs) : Solid (upper cs) := by
  cases cs with
  | nil => exact absurd rfl h.ne_nil
  | cons c rest =>
      rw [Text.upper, List.flatMap_cons]
      apply (solid_upperChar (h.pastSlash c (by simp))).append
      intro d hd
      rcases List.mem_flatMap.1 hd with ⟨e, he, hd⟩
      exact (solid_upperChar (h.pastSlash e (List.mem_cons_of_mem _ he))).pastSlash d hd

end Text

/-! ## Words -/

namespace Naming

open Text

theorem mem_consWord {back word : List Char} {words : List (List Char)}
    (h : word ∈ consWord back words) : (back ≠ [] ∧ word = back.reverse) ∨ word ∈ words := by
  by_cases hback : back.isEmpty = true
  · exact .inr (by simpa [consWord, hback] using h)
  · have hne : back ≠ [] := by simpa using hback
    rw [consWord, if_neg hback] at h
    rcases List.mem_cons.1 h with rfl | h
    · exact .inl ⟨hne, rfl⟩
    · exact .inr h

/-- The words of a text are not empty, and are made of the letters and numbers in it. -/
theorem chars_of_mem_wordsFrom {back cs word : List Char} (hword : word ∈ wordsFrom back cs) :
    word ≠ [] ∧ ∀ c ∈ word, c ∈ back ∨ (c ∈ cs ∧ isAlphanumeric c = true) := by
  -- `back` is the word that is being read, back to front; it holds what was read of it.
  have closed : ∀ {back : List Char}, back ≠ [] → ∀ cs : List Char, back.reverse ≠ [] ∧
      ∀ c ∈ back.reverse, c ∈ back ∨ (c ∈ cs ∧ isAlphanumeric c = true) := by
    intro back hne cs
    exact ⟨by simpa using hne, fun c hc => .inl (by simpa using hc)⟩
  induction cs generalizing back with
  | nil =>
      rw [wordsFrom] at hword
      rcases mem_consWord hword with ⟨hne, rfl⟩ | hin
      · exact closed hne []
      · simp at hin
  | cons c rest ih =>
      -- What is read later is read from the rest of the text, after a word that may go on with `c`.
      have later : ∀ {back' : List Char}, word ∈ wordsFrom back' rest →
          (∀ d ∈ back', d ∈ back ∨ (d ∈ c :: rest ∧ isAlphanumeric d = true)) → word ≠ [] ∧
            ∀ d ∈ word, d ∈ back ∨ (d ∈ c :: rest ∧ isAlphanumeric d = true) := by
        intro back' hin hback
        obtain ⟨hne, hchars⟩ := ih hin
        refine ⟨hne, fun d hd => ?_⟩
        rcases hchars d hd with hd | ⟨hd, halnum⟩
        · exact hback d hd
        · exact .inr ⟨List.mem_cons_of_mem _ hd, halnum⟩
      by_cases halnum : isAlphanumeric c = true
      · have hc : ∀ d ∈ [c], d ∈ back ∨ (d ∈ c :: rest ∧ isAlphanumeric d = true) := by
          simp [halnum]
        cases back with
        | nil =>
            simp only [wordsFrom, halnum, if_true] at hword
            exact later hword hc
        | cons prev before =>
            by_cases hstarts : startsWord prev c rest = true
            · simp only [wordsFrom, halnum, hstarts, if_true] at hword
              rcases List.mem_cons.1 hword with rfl | hword
              · exact closed (by simp) _
              · exact later hword hc
            · simp only [wordsFrom, halnum, hstarts, if_true, if_false, Bool.false_eq_true] at hword
              refine later hword (List.forall_mem_cons.2 ⟨.inr ⟨by simp, halnum⟩, ?_⟩)
              exact fun d hd => .inl hd
      · simp only [wordsFrom, halnum, if_false, Bool.false_eq_true] at hword
        rcases mem_consWord hword with ⟨hne, rfl⟩ | hin
        · exact closed hne _
        · exact later hin (by simp)

/-- Every word of a name is solid. -/
theorem solid_of_mem_wordsFrom {back cs : List Char} (h : ∀ c ∈ back, PastSlash c)
    {word : List Char} (hword : word ∈ wordsFrom back cs) : Solid word := by
  obtain ⟨hne, hchars⟩ := chars_of_mem_wordsFrom hword
  refine ⟨hne, fun c hc => ?_⟩
  rcases hchars c hc with hback | ⟨_, halnum⟩
  · exact h c hback
  · exact pastSlash_of_isAlphanumeric halnum

/-! ## Conversions -/

/-- A character of a converted name: past the slash, or a hyphen between words. -/
def Written (c : Char) : Prop := PastSlash c ∨ c = '-'

theorem solid_capitalize {word : List Char} (h : Solid word) : Solid (capitalize word) := by
  have hlower := h.lower
  cases hcs : lower word with
  | nil => exact absurd hcs hlower.ne_nil
  | cons c rest =>
      have hall : ∀ d ∈ c :: rest, PastSlash d := hcs ▸ hlower.pastSlash
      rw [capitalize, hcs]
      exact (solid_upperChar (hall c (by simp))).append
        fun d hd => hall d (List.mem_cons_of_mem _ hd)

/-- Joined words hold what the words and the separator hold. -/
theorem written_intercalate {sep : Char} (hsep : Written sep) {words : List (List Char)}
    (h : ∀ word ∈ words, Solid word) : ∀ c ∈ [sep].intercalate words, Written c := by
  induction words with
  | nil => simp
  | cons word rest ih =>
      have hword : ∀ c ∈ word, Written c := fun c hc => .inl ((h word (by simp)).pastSlash c hc)
      by_cases hrest : rest = []
      · subst hrest
        simpa using hword
      · intro c hc
        rw [List.intercalate_cons_of_ne_nil hrest] at hc
        rcases List.mem_append.1 hc with hc | hc
        · rcases List.mem_append.1 hc with hc | hc
          · exact hword c hc
          · obtain rfl : c = sep := by simpa using hc
            exact hsep
        · exact ih (fun w hw => h w (List.mem_cons_of_mem _ hw)) c hc

theorem intercalate_ne_nil {sep : Char} {words : List (List Char)} (hne : words ≠ [])
    (h : ∀ word ∈ words, Solid word) : [sep].intercalate words ≠ [] := by
  cases words with
  | nil => exact absurd rfl hne
  | cons word rest =>
      have hword : word ≠ [] := (h word (by simp)).ne_nil
      by_cases hrest : rest = []
      · simpa [hrest] using hword
      · simp [List.intercalate_cons_of_ne_nil hrest]

/-- A converted name can be written, in every casing. -/
theorem joinWords_written (casing : Casing) {words : List (List Char)} (hne : words ≠ [])
    (h : ∀ word ∈ words, Solid word) :
    joinWords casing words ≠ [] ∧ ∀ c ∈ joinWords casing words, Written c := by
  have hmap : ∀ {f : List Char → List Char}, (∀ word, Solid word → Solid (f word)) →
      ∀ word ∈ words.map f, Solid word := by
    intro f hf word hword
    rcases List.mem_map.1 hword with ⟨w, hw, rfl⟩
    exact hf w (h w hw)
  have hlower := hmap fun _ => Solid.lower
  have hupper := hmap fun _ => Solid.upper
  have hcapital : ∀ rest : List (List Char), (∀ word ∈ rest, Solid word) →
      ∀ c ∈ rest.flatMap capitalize, PastSlash c := by
    intro rest hrest c hc
    rcases List.mem_flatMap.1 hc with ⟨word, hword, hc⟩
    exact (solid_capitalize (hrest word hword)).pastSlash c hc
  -- Three conventions put a separator between the words, two write them one after the other.
  cases casing with
  | kebab =>
      exact ⟨intercalate_ne_nil (by simpa using hne) hlower, written_intercalate (.inr rfl) hlower⟩
  | snake =>
      exact ⟨intercalate_ne_nil (by simpa using hne) hlower,
        written_intercalate (.inl (by decide)) hlower⟩
  | screamingSnake =>
      exact ⟨intercalate_ne_nil (by simpa using hne) hupper,
        written_intercalate (.inl (by decide)) hupper⟩
  | camel =>
      cases words with
      | nil => exact absurd rfl hne
      | cons first rest =>
          have hsolid := (h first (by simp)).lower.append
            (hcapital rest fun word hword => h word (List.mem_cons_of_mem _ hword))
          exact ⟨hsolid.ne_nil, fun c hc => .inl (hsolid.pastSlash c hc)⟩
  | pascal =>
      cases words with
      | nil => exact absurd rfl hne
      | cons first rest =>
          have hsolid := (solid_capitalize (h first (by simp))).append
            (hcapital rest fun word hword => h word (List.mem_cons_of_mem _ hword))
          exact ⟨hsolid.ne_nil, fun c hc => .inl (hsolid.pastSlash c hc)⟩

/-- A conversion leaves the name as it is, or writes a name of its own. -/
theorem convert_cases (name : List Char) (casing : Casing) :
    convert name casing = name ∨
      (convert name casing ≠ [] ∧ ∀ c ∈ convert name casing, Written c) := by
  by_cases hcompliant : isCompliant name casing = true
  · exact .inl (by simp [convert, hcompliant])
  · cases hwords : splitWords name with
    | nil => exact .inl (by simp [convert, hcompliant, hwords])
    | cons first rest =>
        have hconvert : convert name casing = joinWords casing (first :: rest) := by
          simp [convert, hcompliant, hwords]
        rw [hconvert]
        apply Or.inr
        apply joinWords_written casing (by simp)
        intro word hword
        rw [← hwords] at hword
        exact solid_of_mem_wordsFrom (by simp) hword

end Naming

/-! ## Names of files and directories -/

namespace Rules.Naming

open ProjectConsistency.Naming Text

/-- A written text before a part of a plain name is a plain name. -/
theorem plainName_ofList {front back : List Char} (hne : front ≠ []) (hfront : ∀ c ∈ front, Written c)
    {name : String} (hname : PlainName name) (hback : ∀ c ∈ back, c ∈ name.toList) :
    PlainName (String.ofList (front ++ back)) := by
  have hnot : ∀ {c : Char}, ¬ Written c → c ∉ name.toList → c ∉ front ++ back := by
    intro c hc hin hmem
    rcases List.mem_append.1 hmem with hmem | hmem
    · exact hc (hfront c hmem)
    · exact hin (hback c hmem)
  rcases List.exists_cons_of_ne_nil hne with ⟨first, rest, rfl⟩
  -- A single or a double dot would begin with a dot, which no conversion writes.
  have hfirst : first ≠ '.' := by
    rintro rfl
    exact absurd (hfront '.' (by simp)) (by simp [Written, PastSlash])
  refine ⟨?_, ?_, ?_, ?_, ?_⟩
  · intro h
    simpa using congrArg String.toList h
  · rw [String.toList_ofList]
    exact hnot (by simp [Written, PastSlash]) hname.no_slash
  · rw [String.toList_ofList]
    exact hnot (by simp [Written, PastSlash]) hname.no_nul
  · intro h
    have hlist := congrArg String.toList h
    simp [hfirst] at hlist
  · intro h
    have hlist := congrArg String.toList h
    simp [hfirst] at hlist

/-- The name a directory is asked to take is a plain one. -/
theorem plainName_of_directoryName {rules : NamingRules} {name wanted : String}
    (hname : PlainName name) (h : directoryName rules name = some wanted) : PlainName wanted := by
  by_cases hok : (isExempt rules name || isCompliant name.toList rules.directoryCasing) = true
  · simp [directoryName, hok] at h
  · obtain rfl : String.ofList (convert name.toList rules.directoryCasing) = wanted := by
      simpa [directoryName, hok] using h
    rcases convert_cases name.toList rules.directoryCasing with hsame | ⟨hne, hwritten⟩
    · simpa [hsame] using hname
    · have hplain : PlainName (String.ofList (convert name.toList rules.directoryCasing ++ [])) :=
        plainName_ofList hne hwritten hname (by simp)
      simpa using hplain

/-- The name a file is asked to take is a plain one. -/
theorem plainName_of_fileName {rules : NamingRules} {name wanted : String}
    (hname : PlainName name) (h : fileName rules name = some wanted) : PlainName wanted := by
  let stem := (splitStem name.toList).1
  let extensions := (splitStem name.toList).2
  by_cases hok : (isExempt rules name || isCompliant stem rules.fileCasing) = true
  · simp [fileName, stem, hok] at h
  · obtain rfl : String.ofList (convert stem rules.fileCasing ++ extensions) = wanted := by
      simpa [fileName, stem, extensions, hok] using h
    -- The extensions are kept, and they are a part of the old name.
    have hsplit : stem ++ extensions = name.toList := List.takeWhile_append_dropWhile
    rcases convert_cases stem rules.fileCasing with hsame | ⟨hne, hwritten⟩
    · simpa [hsame, hsplit] using hname
    · apply plainName_ofList hne hwritten hname
      intro c hc
      rw [← hsplit]
      exact List.mem_append_right _ hc

end Rules.Naming
end ProjectConsistency
