import ProjectConsistency.Proofs.Rules.Families
import ProjectConsistency.Proofs.Standards.Distinct
import ProjectConsistency.Proofs.Validation.Scored

/-!
# Tightened — asking for more never raises the score

The score is the full score less the weights of all issues (`weightSum`).  This file defines:

* `Standards.TightenedTo` — other rules ask for at least as much, and hold names and sources to the
  same;
* `demands` — the files that are asked for, with the severity of what is reported if one is missing.

A document that is required as a file as well is reported once, as a file.  So with more required
files an issue can disappear, and the two lists of files have to be taken together: what the first
rules demand the other ones demand as well, and not less severely (`TightenedTo.demands`).  Each other
kind of issue is compared on its own.  All comparisons are between two lists whose elements go by
keys, and whoever asks for more has for each key an element that costs as much
(`sum_map_le_of_matched`).
-/

namespace ProjectConsistency

/-! ## Lists with keys -/

/-- A list whose keys are different sums up to no more than one that for each key has an element that
is worth as much. -/
theorem sum_map_le_of_matched {α β κ : Type} [DecidableEq β] (key : α → κ) (key' : β → κ)
    {f : α → Nat} {g : β → Nat} {xs : List α} {ys : List β} (hnodup : (xs.map key).Nodup)
    (hmatched : ∀ x ∈ xs, ∃ y ∈ ys, key' y = key x ∧ f x ≤ g y) :
    (xs.map f).sum ≤ (ys.map g).sum := by
  -- The element that matches the first one is taken out; no other element is matched by it.
  induction xs generalizing ys with
  | nil => exact Nat.zero_le _
  | cons x rest ih =>
      obtain ⟨hnew, hnodup⟩ := List.nodup_cons.1 hnodup
      obtain ⟨⟨y, hy, hkey, hle⟩, hrest⟩ := List.forall_mem_cons.1 hmatched
      have hothers : ∀ x' ∈ rest, ∃ y' ∈ ys.erase y, key' y' = key x' ∧ f x' ≤ g y' := by
        intro x' hx'
        obtain ⟨y', hy', hkey', hle'⟩ := hrest x' hx'
        have hne : y' ≠ y := by
          rintro rfl
          exact hnew (List.mem_map.2 ⟨x', hx', hkey'.symm.trans hkey⟩)
        exact ⟨y', (List.mem_erase_of_ne hne).2 hy', hkey', hle'⟩
      calc ((x :: rest).map f).sum
          = f x + (rest.map f).sum := by simp
        _ ≤ g y + ((ys.erase y).map g).sum := Nat.add_le_add hle (ih hnodup hothers)
        _ = ((y :: ys.erase y).map g).sum := by simp
        _ = (ys.map g).sum := ((List.perm_cons_erase hy).map g).sum_eq.symm

/-- The same for a list whose elements are all in the other one. -/
theorem sum_map_le_of_subset {α : Type} [DecidableEq α] {f : α → Nat} {xs ys : List α}
    (hnodup : xs.Nodup) (hsubset : xs ⊆ ys) : (xs.map f).sum ≤ (ys.map f).sum :=
  sum_map_le_of_matched id id (by simpa using hnodup)
    fun x hx => ⟨x, hsubset hx, rfl, Nat.le_refl _⟩

/-! ## Rules that ask for more -/

/-- The other rules ask for at least as much, and hold names and sources to the same. -/
structure Standards.TightenedTo (standards tightened : Standards) : Prop where
  naming : tightened.naming = standards.naming
  style : tightened.style = standards.style
  directories : Assoc.keys standards.structural.requiredDirectories
    ⊆ Assoc.keys tightened.structural.requiredDirectories
  files : standards.structural.requiredFiles ⊆ tightened.structural.requiredFiles
  recommended : standards.structural.recommendedFiles ⊆ tightened.structural.recommendedFiles
  maxDepth : tightened.structural.maxDepth ≤ standards.structural.maxDepth
  documents : standards.docs.requiredFiles ⊆ tightened.docs.requiredFiles
  sections : standards.docs.requiredSections ⊆ tightened.docs.requiredSections
  configFiles : ∀ file rule, (file, rule) ∈ standards.config.perFile →
    ∃ rule', (file, rule') ∈ tightened.config.perFile ∧ rule'.severity = rule.severity ∧
      rule.requiredKeys.Sublist rule'.requiredKeys

namespace Rules

/-- The files that are asked for, each once, with the severity of what is reported if it is
missing. -/
def demands (standards : Standards) : List (String × Severity) :=
  standards.structural.requiredFiles.map (·, .error)
    ++ (standards.docs.requiredFiles.filter fun path =>
      !standards.structural.requiredFiles.contains path).map (·, .warning)

section

variable (s : Snapshot) (standards : Standards)

/-- Missing files and documents cost what is demanded of them. -/
theorem weightSum_demands :
    weightSum (Structure.missingFiles standards.structural s)
        + weightSum (Documentation.missingDocuments standards s)
      = ((demands standards).map fun d => if s.hasFile d.1 then 0 else d.2.weight).sum := by
  have hdocuments : Documentation.missingDocuments standards s
      = (((standards.docs.requiredFiles.filter fun path =>
          !standards.structural.requiredFiles.contains path).filter fun path => !s.hasFile path).map
            Documentation.missingDocument) := by
    rw [Documentation.missingDocuments, List.filter_filter]
    simp only [Bool.and_comm]
  have hcost : ∀ (path : String) (severity : Severity),
      (if !s.hasFile path then severity.weight else 0)
        = if s.hasFile path then 0 else severity.weight := by
    intro path severity
    cases s.hasFile path <;> rfl
  rw [hdocuments, Structure.missingFiles, weightSum_map_filter, weightSum_map_filter, demands,
    List.map_append, List.sum_append, List.map_map, List.map_map]
  simp only [Function.comp_def, ← hcost]
  rfl

theorem weightSum_missingDirectories (rules : StructureRules) :
    weightSum (Structure.missingDirectories rules s)
      = ((Assoc.keys rules.requiredDirectories).map fun path =>
          if s.hasDirectory (dropTrailingSlashes path) then 0 else Severity.warning.weight).sum := by
  rw [Structure.missingDirectories, Assoc.keys]
  induction rules.requiredDirectories with
  | nil => rfl
  | cons entry rest ih =>
      cases hthere : s.hasDirectory (dropTrailingSlashes entry.1) with
      | true => simpa [hthere] using ih
      | false =>
          have hseverity : (Structure.missingDirectory (dropTrailingSlashes entry.1) entry.2).severity
              = .warning := rfl
          simpa [hthere, weightSum, hseverity] using ih

def fileCost (entry : String × ConfigFileRule) : Nat :=
  weightSum ((Assoc.find? entry.1 s.configFiles).elim [] (Configuration.checkFile entry.1 entry.2))

theorem weightSum_configuration :
    weightSum (Configuration.check s standards)
      = (standards.config.perFile.map (fileCost s)).sum :=
  weightSum_flatMap _ _

/-- With more required keys of the same severity, a file costs no less. -/
theorem fileCost_le (file : String) {rule rule' : ConfigFileRule}
    (hseverity : rule'.severity = rule.severity)
    (hkeys : rule.requiredKeys.Sublist rule'.requiredKeys) :
    fileCost s (file, rule) ≤ fileCost s (file, rule') := by
  simp only [fileCost]
  cases Assoc.find? file s.configFiles with
  | none => exact Nat.le_refl _
  | some found =>
      cases found with
      | invalid reason => exact Nat.le_refl _
      | parsed value =>
          have hcost : ∀ r : ConfigFileRule,
              weightSum (Configuration.checkFile file r (.parsed value))
                = (Configuration.missingKeys r value).length * r.severity.weight := by
            intro r
            have hone : ∀ issue ∈ Configuration.checkFile file r (.parsed value),
                issue.severity = r.severity := by
              intro issue hissue
              rcases List.mem_map.1 hissue with ⟨key, _, rfl⟩
              rfl
            rw [weightSum_of_severity hone]
            simp [Configuration.checkFile]
          simp only [Option.elim_some, hcost, hseverity]
          exact Nat.mul_le_mul_right _ (hkeys.filter _).length_le

end

end Rules

namespace Standards.TightenedTo

open Rules

variable {standards tightened : Standards}

/-- What is demanded is demanded by the other rules, and not less severely. -/
theorem demands (h : standards.TightenedTo tightened) :
    ∀ d ∈ demands standards, ∃ d' ∈ demands tightened, d'.1 = d.1 ∧ d.2.weight ≤ d'.2.weight := by
  have required : ∀ {path : String}, path ∈ tightened.structural.requiredFiles →
      (path, Severity.error) ∈ Rules.demands tightened :=
    fun hpath => List.mem_append_left _ (List.mem_map.2 ⟨_, hpath, rfl⟩)
  intro d hd
  rcases List.mem_append.1 hd with hd | hd
  · rcases List.mem_map.1 hd with ⟨path, hpath, rfl⟩
    exact ⟨_, required (h.files hpath), rfl, Nat.le_refl _⟩
  · rcases List.mem_map.1 hd with ⟨path, hpath, rfl⟩
    -- A document that has become a required file is reported as such.
    by_cases hfile : path ∈ tightened.structural.requiredFiles
    · exact ⟨_, required hfile, rfl, (by decide : Severity.warning.weight ≤ Severity.error.weight)⟩
    · have hdocument := h.documents (List.mem_filter.1 hpath).1
      exact ⟨(path, .warning), List.mem_append_right _ (List.mem_map.2
        ⟨path, List.mem_filter.2 ⟨hdocument, by simpa using hfile⟩, rfl⟩), rfl, Nat.le_refl _⟩

theorem nodup_demands (h : standards.Distinct) : ((Rules.demands standards).map Prod.fst).Nodup := by
  have hkeys : (Rules.demands standards).map Prod.fst
      = standards.structural.requiredFiles ++ standards.docs.requiredFiles.filter fun path =>
          !standards.structural.requiredFiles.contains path := by
    simp [Rules.demands, Function.comp_def]
  rw [hkeys]
  refine List.nodup_append.2 ⟨h.files, h.documents.filter _, ?_⟩
  rintro path hpath _ hother rfl
  have hnot := (List.mem_filter.1 hother).2
  simp [hpath] at hnot

/-! ## One kind of issue after the other -/

section

variable (s : Snapshot) (hdistinct : standards.Distinct) (h : standards.TightenedTo tightened)

include h

theorem naming_eq : Naming.check s tightened = Naming.check s standards := by
  rw [Naming.check, Naming.check, h.naming]

theorem style_eq : Style.check s tightened = Style.check s standards := by
  simp only [Style.check, h.style]

theorem tooDeep_le : weightSum (Structure.tooDeep standards.structural s)
    ≤ weightSum (Structure.tooDeep tightened.structural s) := by
  by_cases hdeep : standards.structural.maxDepth < s.maxDepth
  · have hdeep' := Nat.lt_of_le_of_lt h.maxDepth hdeep
    simp [Structure.tooDeep, hdeep, hdeep', weightSum, Structure.found, Issue.suggest]
  · simp [Structure.tooDeep, hdeep]

include hdistinct

theorem missingDirectories_le : weightSum (Structure.missingDirectories standards.structural s)
    ≤ weightSum (Structure.missingDirectories tightened.structural s) := by
  rw [weightSum_missingDirectories, weightSum_missingDirectories]
  exact sum_map_le_of_subset hdistinct.directories h.directories

/-- Missing files and documents are compared together, since a document may become a file. -/
theorem missingFiles_le :
    weightSum (Structure.missingFiles standards.structural s)
        + weightSum (Documentation.missingDocuments standards s)
      ≤ weightSum (Structure.missingFiles tightened.structural s)
        + weightSum (Documentation.missingDocuments tightened s) := by
  rw [weightSum_demands, weightSum_demands]
  refine sum_map_le_of_matched Prod.fst Prod.fst (nodup_demands hdistinct) ?_
  intro d hd
  obtain ⟨d', hd', hkey, hweight⟩ := h.demands d hd
  refine ⟨d', hd', hkey, ?_⟩
  rw [hkey]
  split
  · exact Nat.le_refl _
  · exact hweight

theorem missingRecommended_le : weightSum (Structure.missingRecommended standards.structural s)
    ≤ weightSum (Structure.missingRecommended tightened.structural s) := by
  rw [Structure.missingRecommended, Structure.missingRecommended, weightSum_map_filter,
    weightSum_map_filter]
  exact sum_map_le_of_subset hdistinct.recommended h.recommended

theorem missingSections_le :
    weightSum (s.readme.elim [] (Documentation.missingSections standards.docs))
      ≤ weightSum (s.readme.elim [] (Documentation.missingSections tightened.docs)) := by
  cases s.readme with
  | none => exact Nat.le_refl _
  | some readme =>
      simp only [Option.elim_some, Documentation.missingSections, weightSum_map_filter]
      exact sum_map_le_of_subset hdistinct.sections h.sections

theorem configuration_le : weightSum (Configuration.check s standards)
    ≤ weightSum (Configuration.check s tightened) := by
  rw [weightSum_configuration, weightSum_configuration]
  refine sum_map_le_of_matched Prod.fst Prod.fst hdistinct.configFiles ?_
  intro entry hentry
  obtain ⟨rule', hrule', hseverity, hkeys⟩ := h.configFiles entry.1 entry.2 hentry
  exact ⟨(entry.1, rule'), hrule', rfl, fileCost_le s entry.1 hseverity hkeys⟩

end

end Standards.TightenedTo

/--
A snapshot never scores higher under rules that ask for more.  The collections of the rules hold each
element once.
-/
theorem score_le_of_tightened {standards tightened : Standards} (hdistinct : standards.Distinct)
    (h : standards.TightenedTo tightened) (s : Snapshot) :
    (Validation.ofSnapshot s tightened).score ≤ (Validation.ofSnapshot s standards).score := by
  have hdirectories := h.missingDirectories_le s hdistinct
  have hfiles := h.missingFiles_le s hdistinct
  have hrecommended := h.missingRecommended_le s hdistinct
  have hdepth := h.tooDeep_le s
  have hsections := h.missingSections_le s hdistinct
  have hconfiguration := h.configuration_le s hdistinct
  refine score_le_of_weightSum_le ?_
  rw [Rules.evaluate_eq, Rules.evaluate_eq, h.naming_eq s, h.style_eq s]
  simp only [Rules.Structure.check, Rules.Documentation.check, weightSum_append]
  omega

/-! ## A sample -/

def looseRules : Standards where
  structural := { requiredFiles := ["README.md"] }
  docs := { requiredFiles := ["README.md", "CHANGELOG.md"], requiredSections := ["Usage"] }
  config := { perFile := [("package.json", ⟨["name"], .warning⟩)] }

/-- Rules for which the change log is a required file, and which ask for more of each other kind. -/
def tightRules : Standards where
  structural :=
    { requiredDirectories := [("src", "")], requiredFiles := ["README.md", "CHANGELOG.md"],
      recommendedFiles := ["Makefile"], maxDepth := 2 }
  docs :=
    { requiredFiles := ["README.md", "CHANGELOG.md"], requiredSections := ["Usage", "License"] }
  config := { perFile := [("package.json", ⟨["version", "name"], .warning⟩), ("a.json", ⟨[], .info⟩)] }

def barePackage : Snapshot where
  root := "/app"
  name := "app"
  files := ["a/b/index.ts", "package.json"]
  maxDepth := 3
  configFiles := [("package.json", .parsed (.object []))]

theorem tightenedTo_tightRules : looseRules.TightenedTo tightRules where
  naming := rfl
  style := rfl
  directories := by decide
  files := by decide
  recommended := by decide
  maxDepth := by decide
  documents := by decide
  sections := by decide
  configFiles := by
    intro file rule hmem
    obtain ⟨rfl, rfl⟩ : file = "package.json" ∧ rule = ⟨["name"], .warning⟩ := by
      simpa [looseRules] using hmem
    exact ⟨⟨["version", "name"], .warning⟩, by decide, rfl, by decide⟩

theorem score_le_of_tightened_tightRules :
    looseRules.Distinct ∧ looseRules.TightenedTo tightRules ∧
      (Validation.ofSnapshot barePackage looseRules).score = 80 ∧
      (Validation.ofSnapshot barePackage tightRules).score = 58 ∧
      (Validation.ofSnapshot barePackage tightRules).score
        ≤ (Validation.ofSnapshot barePackage looseRules).score := by
  have hdistinct : looseRules.Distinct :=
    ⟨by decide, by decide, by decide, by decide, by decide, by decide⟩
  exact ⟨hdistinct, tightenedTo_tightRules, by decide +kernel, by decide +kernel,
    score_le_of_tightened hdistinct tightenedTo_tightRules barePackage⟩

end ProjectConsistency
