import ProjectConsistency.Fix.Scaffold
import ProjectConsistency.Proofs.Naming.Conversion
import ProjectConsistency.Proofs.Text.LineEnds
import ProjectConsistency.Rules.Documentation

/-!
# Sections — a new readme file and the sections that it ought to have

A new readme file has a heading for its project and one for each required section.  This file
defines:

* `Rules.Documentation.title?` — the text of the heading that is made of a name;
* `Rules.Documentation.losesHash` — a name ends with a hash sign that is read as the end of the
  heading.

None of the other lines of the file is a heading, and none opens a block of code, so its headings are
those of the names (`headings_readme`).  The heading of a name is read as the name unless a hash sign
is lost (`reads_iff`).  Hence no section is found to be missing just if each of those that lose a hash
sign is the heading of some other name (`check_readme_iff`).
-/

namespace ProjectConsistency

open Text

namespace Text

/-! ## Lower case -/

/-- Only a line feed is lowered to a line feed. -/
theorem feed_not_mem_lowerChar {c : Char} (h : c ≠ '\n') : '\n' ∉ lowerChar c := by
  have hcode : ∀ {d : Char}, PastSlash d → '\n' ∉ [d] := by
    rintro d hd hmem
    obtain rfl : '\n' = d := by simpa using hmem
    exact absurd hd (by decide)
  by_cases hascii : c.toNat < 128
  · have hlower : c ≠ '\n' → '\n' ≠ c.toLower :=
      forall_ascii (p := fun c => c ≠ '\n' → '\n' ≠ c.toLower) (by decide) hascii
    simpa [lowerChar, hascii] using hlower h
  · by_cases hdotted : c.toNat = 0x130
    · rw [lowerChar, if_neg hascii, if_pos hdotted]
      decide
    · rw [lowerChar, if_neg hascii, if_neg hdotted]
      cases hmap : mapCode lowerRuns c.toNat with
      | none => simpa using Ne.symm h
      | some n => exact hcode (validCode_of_mapCode validRun_lowerRuns hmap).pastSlash

theorem feed_not_mem_lower {cs : List Char} (h : '\n' ∉ cs) : '\n' ∉ lower cs := by
  have hafter : ∀ before, '\n' ∉ lowerAfter before cs := by
    induction cs with
    | nil => simp [lowerAfter]
    | cons c rest ih =>
        intro before
        obtain ⟨hc, hrest⟩ : ¬ '\n' = c ∧ '\n' ∉ rest := by simpa using h
        rw [lowerAfter, List.mem_append, not_or]
        refine ⟨?_, ih hrest (c :: before)⟩
        split
        · decide
        · exact feed_not_mem_lowerChar (Ne.symm hc)
  exact hafter []

end Text

namespace Rules
namespace Documentation

/-! ## Names and their headings -/

/-- The text of the heading that is made of a name. -/
def title? (name : String) : Option (List Char) :=
  let cs := dropReturn name.toList
  headingText ((cs.takeWhile isGap).length + 1) (cs.dropWhile isGap)

/-- The name ends with a hash sign, blanks and a carriage return aside, which is not all of it. -/
def losesHash (name : String) : Bool :=
  let body := (dropReturn name.toList).dropWhile isGap
  (trimEndWhere isGap (body.drop 1)).getLast? = some '#'

theorem heading?_hash (cs : List Char) : heading? ('#' :: ' ' :: cs)
    = headingText ((cs.takeWhile isGap).length + 1) (cs.dropWhile isGap) := by
  simp [heading?, isGap]

theorem heading?_hashes (cs : List Char) : heading? ('#' :: '#' :: ' ' :: cs)
    = headingText ((cs.takeWhile isGap).length + 1) (cs.dropWhile isGap) := by
  simp [heading?, isGap]

theorem isBlank_of_isGap {c : Char} (h : isGap c = true) : isBlank c = true := by
  rcases Bool.or_eq_true_iff.1 h with h | h
  · rw [of_decide_eq_true h]
    rfl
  · rw [of_decide_eq_true h]
    rfl

/-- A carriage return at the end of a name and the blanks at its start do not count. -/
theorem trim_body (name : String) :
    trim ((dropReturn name.toList).dropWhile isGap) = trim name.toList := by
  have hgap : ∀ c ∈ (dropReturn name.toList).takeWhile isGap, isBlank c = true :=
    fun c hc => isBlank_of_isGap (List.mem_takeWhile_imp hc)
  have hbody : trim ((dropReturn name.toList).dropWhile isGap) = trim (dropReturn name.toList) := by
    conv_rhs => rw [← List.takeWhile_append_dropWhile (p := isGap) (l := dropReturn name.toList)]
    exact (trimWhere_append_left hgap).symm
  rw [hbody, trim_dropReturn]

theorem length_eq_of_eqIgnoringAsciiCase {xs ys : List Char}
    (h : eqIgnoringAsciiCase xs ys = true) : xs.length = ys.length := by
  have hmap : xs.map Char.toLower = ys.map Char.toLower := by
    simpa [eqIgnoringAsciiCase] using h
  simpa using congrArg List.length hmap

/-- A heading keeps all of its text but blanks at the end, unless there is a hash sign at the end of
it, after its first character. -/
theorem reads_body (c : Char) (rest : List Char) :
    eqIgnoringAsciiCase (trim (c :: trimEndWhere isClosing rest)) (trim (c :: rest)) = true ↔
      (trimEndWhere isGap rest).getLast? ≠ some '#' := by
  obtain ⟨gaps, hrest, hgaps⟩ := exists_eq_trimEndWhere isGap rest
  have hlast : ∀ d ∈ (trimEndWhere isGap rest).getLast?, isGap d = false := by
    intro d hd
    obtain ⟨hne, heq⟩ := List.mem_getLast?_eq_getLast hd
    rw [heq]
    exact Bool.eq_false_iff.2 (List.rdropWhile_last_not isGap rest hne)
  generalize trimEndWhere isGap rest = kept at hrest hlast
  -- The blanks at the end count on neither side.
  have hblank : trim (c :: rest) = trim (c :: kept) := by
    rw [hrest, ← List.cons_append]
    have hblanks : ∀ d ∈ gaps, isBlank d = true := fun d hd => isBlank_of_isGap (hgaps d hd)
    exact trimWhere_append_right hblanks
  have hclosing : trimEndWhere isClosing rest = trimEndWhere isClosing kept := by
    rw [hrest]
    exact trimEndWhere_append fun d hd => by simp [isClosing, hgaps d hd]
  rw [hblank, hclosing]
  by_cases hhash : kept.getLast? = some '#'
  · obtain ⟨before, rfl⟩ := List.getLast?_eq_some_iff.1 hhash
    have hdropped : trimEndWhere isClosing (before ++ ['#']) = trimEndWhere isClosing before :=
      trimEndWhere_append (List.forall_mem_singleton.2 rfl)
    have hkept : trim (c :: (before ++ ['#'])) = (c :: before).dropWhile isBlank ++ ['#'] := by
      rw [← List.cons_append]
      exact trimWhere_concat (by decide)
    have hshort : (trim (c :: trimEndWhere isClosing before)).length
        ≤ ((c :: before).dropWhile isBlank).length := by
      refine length_trimWhere_le ?_
      exact (List.prefix_cons_inj c).2 (List.rdropWhile_prefix isClosing before)
    simp only [hhash, ne_eq, not_true_eq_false, iff_false]
    intro heq
    have hlength := length_eq_of_eqIgnoringAsciiCase heq
    rw [hdropped, hkept, List.length_append, List.length_singleton] at hlength
    omega
  · have hself : trimEndWhere isClosing kept = kept := by
      refine List.rdropWhile_eq_self_iff.2 ?_
      intro hne
      have hgap := hlast _ (List.getLast?_eq_some_getLast hne)
      have hother : kept.getLast hne ≠ '#' := by
        intro heq
        exact hhash (by rw [List.getLast?_eq_some_getLast hne, heq])
      simp [isClosing, hgap, hother]
    simp [hself, hhash, eqIgnoringAsciiCase]

/-- The heading of a name is read as the name, unless a hash sign is lost. -/
theorem reads_iff {name : String} (h : trim name.toList ≠ []) :
    (∃ title ∈ title? name, eqIgnoringAsciiCase title (trim name.toList) = true) ↔
      losesHash name = false := by
  have hbody := trim_body name
  cases hcs : (dropReturn name.toList).dropWhile isGap with
  | nil =>
      rw [hcs] at hbody
      exact absurd hbody.symm h
  | cons c rest =>
      rw [hcs] at hbody
      have htitle : title? name = some (trim (c :: trimEndWhere isClosing rest)) := by
        simp [title?, hcs, headingText]
      rw [htitle, ← hbody]
      simp [losesHash, hcs, reads_body]

/-! ## The new file -/

/-- The lines of a section in a new readme file. -/
def stubLines (name : String) : List (List Char) :=
  [[], '#' :: '#' :: ' ' :: name.toList, [],
    "_Describe ".toList ++ (lower name.toList ++ " here._".toList)]

def readmeLines (project : String) (sections : List String) : List (List Char) :=
  ('#' :: ' ' :: project.toList) :: sections.flatMap stubLines

theorem readme_eq (project : String) (sections : List String) :
    (Fix.readme project sections).toList
      = (readmeLines project sections).flatMap (· ++ ['\n']) := by
  have hstubs : (String.join (sections.map Fix.sectionStub)).toList
      = (sections.flatMap stubLines).flatMap (· ++ ['\n']) := by
    induction sections with
    | nil => rfl
    | cons name rest ih =>
        rw [List.map_cons, String.join_cons, String.toList_append, ih, List.flatMap_cons]
        simp [Fix.sectionStub, stubLines]
  rw [Fix.readme, String.toList_append, hstubs]
  simp [readmeLines]

variable {project : String} {sections : List String}

theorem headingsFrom_cons {line : List Char} (h : isFence line = false) (rest : List (List Char)) :
    headingsFrom false (line :: rest) = (heading? line).toList ++ headingsFrom false rest := by
  simp [headingsFrom, h]

/-- A line that begins with a printed character other than a backtick and a tilde is no fence. -/
theorem isFence_cons {c : Char} (hblank : isBlank c = false) (htick : '`' ≠ c) (htilde : '~' ≠ c)
    (rest : List Char) : isFence (c :: rest) = false := by
  simp [isFence, trimStart, hblank, startsWith, List.isPrefixOf, htick, htilde]

/-- A line that begins with another character than a space and a hash sign is no heading. -/
theorem heading?_cons {c : Char} (hspace : c ≠ ' ') (hhash : c ≠ '#') (rest : List Char) :
    heading? (c :: rest) = none := by
  simp [heading?, hspace, hhash]

/-- The four lines of a section have its heading only. -/
theorem headingsFrom_stub (name : String) (rest : List (List Char)) :
    headingsFrom false ((stubLines name).map dropReturn ++ rest)
      = (title? name).toList ++ headingsFrom false rest := by
  have hblank : dropReturn [] = [] := rfl
  have hhead : dropReturn ('#' :: '#' :: ' ' :: name.toList)
      = '#' :: '#' :: ' ' :: dropReturn name.toList :=
    dropReturn_append (a := ['#', '#', ' ']) (by decide) name.toList
  have hdescribe : dropReturn ("_Describe ".toList ++ (lower name.toList ++ " here._".toList))
      = '_' :: ("Describe ".toList ++ (lower name.toList ++ " here._".toList)) :=
    dropReturn_of_last (by simp [List.getLast?_cons, List.getLast?_append])
  simp only [stubLines, List.map_cons, List.map_nil, List.cons_append, List.nil_append, hblank, hhead,
    hdescribe]
  rw [headingsFrom_cons (by decide), headingsFrom_cons (isFence_cons (by decide) (by decide) (by decide) _),
    headingsFrom_cons (by decide), headingsFrom_cons (isFence_cons (by decide) (by decide) (by decide) _),
    heading?_hashes, heading?_cons (by decide) (by decide)]
  rfl

theorem feed_not_mem_stubLines {name : String} (h : '\n' ∉ name.toList) :
    ∀ line ∈ stubLines name, '\n' ∉ line := by
  simp [stubLines, h, feed_not_mem_lower h]

/-- The headings of a new readme file are those of its names. -/
theorem headings_readme (hproject : '\n' ∉ project.toList)
    (hsections : ∀ name ∈ sections, '\n' ∉ name.toList) :
    headings (Fix.readme project sections).toList = (project :: sections).filterMap title? := by
  have hfeeds : ∀ line ∈ readmeLines project sections, '\n' ∉ line := by
    simp only [readmeLines, List.forall_mem_cons, List.mem_flatMap]
    refine ⟨by simpa using hproject, ?_⟩
    rintro line ⟨name, hname, hline⟩
    exact feed_not_mem_stubLines (hsections name hname) line hline
  have hstubs : headingsFrom false ((sections.flatMap stubLines).map dropReturn)
      = sections.filterMap title? := by
    clear hsections hfeeds
    induction sections with
    | nil => rfl
    | cons name rest ih =>
        rw [List.flatMap_cons, List.map_append, headingsFrom_stub, ih, List.filterMap_cons]
        cases title? name <;> rfl
  have hhead : dropReturn ('#' :: ' ' :: project.toList) = '#' :: ' ' :: dropReturn project.toList :=
    dropReturn_append (a := ['#', ' ']) (by decide) project.toList
  rw [headings, readme_eq, lines_of_feeds hfeeds, readmeLines, List.map_cons, hhead,
    headingsFrom_cons (isFence_cons (by decide) (by decide) (by decide) _), hstubs, heading?_hash,
    List.filterMap_cons]
  cases htitle : title? project <;> rw [title?] at htitle <;> simp [htitle]

/-! ## Missing sections -/

theorem missingSection_injective (path : String) {a b : String}
    (h : missingSection path a = missingSection path b) : a = b := by
  have hmessage := congrArg Issue.message h
  simp only [missingSection, String.append_left_inj, String.append_right_inj] at hmessage
  exact hmessage

theorem mem_check_missingSection {s : Snapshot} {standards : Standards} {readme : Readme}
    (h : s.readme = some readme) (name : String) :
    missingSection readme.path name ∈ check s standards ↔
      name ∈ standards.docs.requiredSections ∧
        isPresent (headings readme.content.toList) name = false := by
  have hdocument : missingSection readme.path name ∉ missingDocuments standards s := by
    intro hmem
    obtain ⟨path, -, heq⟩ := List.mem_map.1 hmem
    simpa [missingDocument, missingSection, Issue.withRemedy] using congrArg Issue.severity heq
  rw [check, h, List.mem_append, or_iff_right hdocument]
  simp only [Option.elim_some, missingSections, List.mem_map, List.mem_filter]
  constructor
  · rintro ⟨other, hother, heq⟩
    rw [← missingSection_injective _ heq]
    simpa using hother
  · intro hname
    exact ⟨name, by simpa using hname, rfl⟩

/-- A new readme file has all its sections just if each of those that lose a hash sign is the heading
of some other name. -/
theorem check_readme_iff (s : Snapshot) (standards : Standards) (path project : String)
    (hproject : '\n' ∉ project.toList)
    (hsections : ∀ name ∈ standards.docs.requiredSections,
      trim name.toList ≠ [] ∧ '\n' ∉ name.toList)
    (hreadme : s.readme = some ⟨path, Fix.readme project standards.docs.requiredSections⟩) :
    (∀ name, missingSection path name ∉ check s standards) ↔
      ∀ name ∈ standards.docs.requiredSections, losesHash name = true →
        ∃ other ∈ project :: standards.docs.requiredSections, other ≠ name ∧
          ∃ title ∈ title? other, eqIgnoringAsciiCase title (trim name.toList) = true := by
  have hheadings := headings_readme hproject fun name hname => (hsections name hname).2
  -- The headings of the stub are the titles of the project and of its sections.
  have hpresent : ∀ name, isPresent
      (headings (Fix.readme project standards.docs.requiredSections).toList) name = true ↔
        ∃ other ∈ project :: standards.docs.requiredSections,
          ∃ title ∈ title? other, eqIgnoringAsciiCase title (trim name.toList) = true := by
    intro name
    simp only [hheadings, isPresent, List.any_eq_true, List.mem_filterMap]
    exact ⟨fun ⟨title, ⟨other, hother, htitle⟩, heq⟩ => ⟨other, hother, title, htitle, heq⟩,
      fun ⟨other, hother, title, htitle, heq⟩ => ⟨title, ⟨other, hother, htitle⟩, heq⟩⟩
  have hreported : (∀ name, missingSection path name ∉ check s standards) ↔
      ∀ name ∈ standards.docs.requiredSections,
        ∃ other ∈ project :: standards.docs.requiredSections,
          ∃ title ∈ title? other, eqIgnoringAsciiCase title (trim name.toList) = true := by
    refine forall_congr' fun name => ?_
    rw [mem_check_missingSection hreadme, ← hpresent]
    simp
  rw [hreported]
  refine forall₂_congr fun name hname => ?_
  -- A section is read back as itself just if it loses no hash.
  have hreads := reads_iff (hsections name hname).1
  constructor
  · rintro ⟨other, hother, title, htitle, heq⟩ hlost
    refine ⟨other, hother, ?_, title, htitle, heq⟩
    rintro rfl
    rw [hreads.1 ⟨title, htitle, heq⟩] at hlost
    exact absurd hlost (by decide)
  · intro h
    by_cases hlost : losesHash name = true
    · obtain ⟨other, hother, -, htitle⟩ := h hlost
      exact ⟨other, hother, htitle⟩
    · exact ⟨name, List.mem_cons_of_mem _ hname, hreads.2 (Bool.eq_false_iff.2 hlost)⟩

/-! ## Samples -/

def scaffolded (project : String) (sections : List String) : Snapshot where
  root := "/" ++ project
  name := project
  files := ["README.md"]
  readme := some ⟨"README.md", Fix.readme project sections⟩

def requiring (sections : List String) : Standards :=
  { docs := { requiredSections := sections } }

/-- A hash sign that belongs to a name is lost, but the name with a wide blank after it has a heading
of the same text. -/
theorem check_readme_iff_sharp :
    let sections := ["```", "~ Überblick\r", "#", "F# or C#", "f# or c#\u00a0"]
    ∀ name, missingSection "README.md" name
      ∉ check (scaffolded "shop" sections) (requiring sections) := by
  intro sections
  refine (check_readme_iff (scaffolded "shop" sections) (requiring sections) "README.md" "shop"
    (by decide) (by decide) rfl).2 ?_
  decide

/-- A section is missing from the new readme file that was made for it. -/
theorem missing_from_readme : missingSection "README.md" "C#"
    ∈ check (scaffolded "shop" ["C#"]) (requiring ["C#"]) := by
  have hreadme : (scaffolded "shop" ["C#"]).readme
      = some ⟨"README.md", Fix.readme "shop" ["C#"]⟩ := rfl
  exact (mem_check_missingSection hreadme "C#").2 ⟨by decide, by decide⟩

end Documentation
end Rules
end ProjectConsistency
