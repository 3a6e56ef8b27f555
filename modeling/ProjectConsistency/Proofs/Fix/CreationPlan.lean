import ProjectConsistency.Fix.Creation
import ProjectConsistency.Proofs.Rules.Families

/-!
# The plan of creations

The rules look up in a snapshot what they require.  This file defines:

* `Creation.isListed` — a snapshot lists what a creation makes;
* `Creation.isDirectory` — the creation makes a directory;
* `Creation.requested` — the creations that the rules ask for if nothing is listed.

Only the rules about files, directories and documents ask for creations, and they ask for exactly what
is requested and not listed (`Creation.asked_eq`).
-/

namespace ProjectConsistency

namespace Creation

def isListed (s : Snapshot) : Creation → Bool
  | file path => s.hasFile path
  | directory path => s.hasDirectory path

def isDirectory : Creation → Bool
  | file _ => false
  | directory _ => true

/-- The creations that the rules ask for if nothing is listed. -/
def requested (standards : Standards) : List Creation :=
  let rules := standards.structural
  rules.requiredDirectories.map (fun entry => directory (dropTrailingSlashes entry.1))
    ++ rules.requiredFiles.map file ++ rules.recommendedFiles.map file
    ++ (standards.docs.requiredFiles.filter fun path => !rules.requiredFiles.contains path).map file

/-! ## Issues that ask for a creation -/

theorem filterMap_eq_nil {issues : List Issue} (h : ∀ issue ∈ issues, ofIssue? issue = none) :
    issues.filterMap ofIssue? = [] :=
  List.filterMap_eq_nil_iff.2 h

/-- Of a family that is about neither structure nor documents, no issue asks for a creation. -/
theorem filterMap_of_category {issues : List Issue} {category : Category}
    (hstructural : category ≠ .structural) (hdocumentation : category ≠ .documentation)
    (h : ∀ issue ∈ issues, issue.category = category) : issues.filterMap ofIssue? = [] := by
  refine filterMap_eq_nil ?_
  intro issue hissue
  have hcategory := h issue hissue
  unfold ofIssue?
  split
  · exact absurd (hcategory.symm.trans ‹_›) hstructural
  · exact absurd (hcategory.symm.trans ‹_›) hdocumentation
  · rfl

/-- Issues of files that are not listed ask for them. -/
theorem filterMap_missing (s : Snapshot) {missing : String → Issue}
    (hmissing : ∀ path, ofIssue? (missing path) = some (file path)) (paths : List String) :
    ((paths.filter fun path => !s.hasFile path).map missing).filterMap ofIssue?
      = (paths.map file).filter fun c => !c.isListed s := by
  rw [List.filterMap_map, List.filter_map]
  simp [Function.comp_def, hmissing, isListed]

theorem filterMap_missingDirectories (rules : StructureRules) (s : Snapshot) :
    (Rules.Structure.missingDirectories rules s).filterMap ofIssue?
      = (rules.requiredDirectories.map
          fun entry => directory (dropTrailingSlashes entry.1)).filter fun c => !c.isListed s := by
  rw [Rules.Structure.missingDirectories]
  induction rules.requiredDirectories with
  | nil => rfl
  | cons entry rest ih =>
      obtain ⟨path, purpose⟩ := entry
      by_cases hthere : s.hasDirectory (dropTrailingSlashes path) = true
      · simpa [hthere, isListed] using ih
      · have hasks : ofIssue? (Rules.Structure.missingDirectory (dropTrailingSlashes path) purpose)
            = some (directory (dropTrailingSlashes path)) := rfl
        simpa [hthere, isListed, hasks] using ih

/-- The rules for structure ask for the required directories, and then for the required and
recommended files. -/
theorem filterMap_structure (s : Snapshot) (standards : Standards) :
    (Rules.Structure.check s standards).filterMap ofIssue?
      = (standards.structural.requiredDirectories.map
            (fun entry => directory (dropTrailingSlashes entry.1))
          ++ standards.structural.requiredFiles.map file
          ++ standards.structural.recommendedFiles.map file).filter fun c => !c.isListed s := by
  -- Issues about depth and unreadable entries have no remedy.
  have hdeep : (Rules.Structure.tooDeep standards.structural s).filterMap ofIssue? = [] := by
    by_cases hdeep : standards.structural.maxDepth < s.maxDepth
    · simp only [Rules.Structure.tooDeep, hdeep, if_true]
      rfl
    · simp [Rules.Structure.tooDeep, hdeep]
  have hunreadable : (Rules.Structure.unreadable s).filterMap ofIssue? = [] := by
    refine filterMap_eq_nil ?_
    intro issue h
    rcases List.mem_map.1 h with ⟨_, _, rfl⟩
    rfl
  have hrequired : (Rules.Structure.missingFiles standards.structural s).filterMap ofIssue?
      = (standards.structural.requiredFiles.map file).filter fun c => !c.isListed s :=
    filterMap_missing s (fun _ => rfl) _
  have hrecommended : (Rules.Structure.missingRecommended standards.structural s).filterMap ofIssue?
      = (standards.structural.recommendedFiles.map file).filter fun c => !c.isListed s :=
    filterMap_missing s (fun _ => rfl) _
  simp only [Rules.Structure.check, List.filterMap_append, List.filter_append,
    filterMap_missingDirectories, hrequired, hrecommended, hdeep, hunreadable, List.append_nil]

/-- The rules for documents ask for those that no other rule requires. -/
theorem filterMap_documentation (s : Snapshot) (standards : Standards) :
    (Rules.Documentation.check s standards).filterMap ofIssue?
      = ((standards.docs.requiredFiles.filter
          fun path => !standards.structural.requiredFiles.contains path).map file).filter
        fun c => !c.isListed s := by
  have hsections : (s.readme.elim [] (Rules.Documentation.missingSections standards.docs)).filterMap
      ofIssue? = [] := by
    cases s.readme with
    | none => rfl
    | some readme =>
        refine filterMap_eq_nil ?_
        intro issue h
        rcases List.mem_map.1 h with ⟨_, _, rfl⟩
        rfl
  have hdocuments : ∀ paths : List String, ((paths.filter fun path => !s.hasFile path).map
      Rules.Documentation.missingDocument).filterMap ofIssue?
        = (paths.map file).filter fun c => !c.isListed s :=
    filterMap_missing s fun _ => rfl
  -- The rule leaves out in one step what is listed and what the other family asks for.
  rw [Rules.Documentation.check, List.filterMap_append, hsections, List.append_nil, ← hdocuments,
    List.filter_filter, Rules.Documentation.missingDocuments]
  simp only [Bool.and_comm]

/-! ## What is asked for -/

/-- The rules ask for what is requested and not listed. -/
theorem asked_eq (s : Snapshot) (standards : Standards) :
    (Rules.evaluate s standards).filterMap ofIssue?
      = (requested standards).filter fun c => !c.isListed s := by
  rw [Rules.evaluate_eq]
  simp only [List.filterMap_append]
  rw [filterMap_structure, filterMap_documentation,
    filterMap_of_category (by decide) (by decide) fun _ => Rules.Naming.category_of_mem,
    filterMap_of_category (by decide) (by decide) fun _ => Rules.Style.category_of_mem,
    filterMap_of_category (by decide) (by decide) fun _ => Rules.Configuration.category_of_mem]
  simp [requested]

/-- Nothing is asked for that the snapshot lists. -/
theorem not_listed_of_asked {s : Snapshot} {standards : Standards} {issue : Issue} {c : Creation}
    (h : issue ∈ Rules.evaluate s standards) (hc : ofIssue? issue = some c) :
    c.isListed s = false := by
  have hasked : c ∈ (Rules.evaluate s standards).filterMap ofIssue? :=
    List.mem_filterMap.2 ⟨issue, h, hc⟩
  rw [asked_eq] at hasked
  simpa using (List.mem_filter.1 hasked).2

/-- What is requested and not listed is asked for. -/
theorem asked_of_not_listed {s : Snapshot} {standards : Standards} {c : Creation}
    (hrequested : c ∈ requested standards) (hlisted : c.isListed s = false) :
    ∃ issue ∈ Rules.evaluate s standards, ofIssue? issue = some c := by
  apply List.mem_filterMap.1
  rw [asked_eq]
  exact List.mem_filter.2 ⟨hrequested, by simp [hlisted]⟩

end Creation

end ProjectConsistency
