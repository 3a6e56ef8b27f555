import ProjectConsistency.Proofs.Fix.CreationPlan
import ProjectConsistency.Proofs.Standards.Accepted

/-!
# Requests — how often a missing file is reported

This file defines:

* `Issue.newFile?` — the file that an issue asks for;
* `newFiles` — the files that issues ask for, once for each issue.

Three lists of the rules name files: the required ones, the recommended ones, and the required
documents.  Of these the rules ask for what a snapshot does not have, and leave out a document that
is required as a file as well (`newFiles_evaluate`).  Nothing leaves out a recommended file that is
in another list.  As accepted settings hold each list without repetition, that is the only way in
which a file is asked for twice (`nodup_newFiles_iff`).
-/

namespace ProjectConsistency

def Remedy.newFile? : Remedy → Option String
  | createFile path => some path
  | _ => none

def Issue.newFile? (issue : Issue) : Option String :=
  issue.remedy.bind Remedy.newFile?

/-- The files that issues ask for, once for each issue. -/
def newFiles (issues : List Issue) : List String :=
  issues.filterMap Issue.newFile?

/-! ## Requests and creations -/

namespace Creation

def newFile? : Creation → Option String
  | file path => some path
  | directory _ => none

theorem newFile?_of_category {issue : Issue}
    (h : issue.category = .structural ∨ issue.category = .documentation) :
    issue.newFile? = (ofIssue? issue).bind newFile? := by
  have hasks : ofIssue? issue = issue.remedy.bind ofRemedy? := by
    rcases h with h | h <;> simp [ofIssue?, h]
  rw [hasks, Issue.newFile?]
  cases issue.remedy with
  | none => rfl
  | some remedy => cases remedy <;> rfl

end Creation

namespace Rules

variable {s : Snapshot} {standards : Standards} {issue : Issue}

/-- The other families ask for no file. -/
theorem newFile?_of_others (h : issue ∈ Naming.check s standards ∨ issue ∈ Style.check s standards ∨
    issue ∈ Configuration.check s standards) : issue.newFile? = none := by
  rcases h with h | h | h
  · refine Naming.of_mem (P := (·.newFile? = none)) ?_ h
    intro kind path casing wanted
    by_cases hsame : wanted = (Naming.splitParent path).2
    · simp [Naming.violation, hsame, Issue.newFile?]
    · simp [Naming.violation, hsame, Issue.newFile?, Issue.withRemedy, Remedy.newFile?]
  · exact Style.of_mem (P := (·.newFile? = none)) (fun _ _ _ => rfl) h
  · exact Configuration.of_mem (P := (·.newFile? = none)) (fun _ _ => rfl) (fun _ _ _ => rfl) h

/-- Whatever issue asks for a file, it is one that creations are made for. -/
theorem newFile?_of_mem (h : issue ∈ evaluate s standards) :
    issue.newFile? = (Creation.ofIssue? issue).bind Creation.newFile? := by
  have hothers : ∀ {category : Category}, issue.category = category → category ≠ .structural →
      category ≠ .documentation → issue.newFile? = none →
        issue.newFile? = (Creation.ofIssue? issue).bind Creation.newFile? := by
    intro category hcategory hstructural hdocumentation hnone
    subst hcategory
    rw [hnone, Creation.ofIssue?]
    split
    · exact absurd ‹_› hstructural
    · exact absurd ‹_› hdocumentation
    · rfl
  rw [evaluate_eq] at h
  simp only [List.mem_append] at h
  rcases h with h | h | h | h | h
  · exact Creation.newFile?_of_category (.inl (Structure.createsAt h).category_eq)
  · exact hothers (Naming.category_of_mem h) (by decide) (by decide) (newFile?_of_others (.inl h))
  · exact hothers (Style.category_of_mem h) (by decide) (by decide)
      (newFile?_of_others (.inr (.inl h)))
  · exact Creation.newFile?_of_category (.inr (Documentation.createsAt h).category_eq)
  · exact hothers (Configuration.category_of_mem h) (by decide) (by decide)
      (newFile?_of_others (.inr (.inr h)))

/-- The rules ask for the files of their lists that are not there.  A document that is required as a
file as well is left out. -/
theorem newFiles_evaluate (s : Snapshot) (standards : Standards) :
    newFiles (evaluate s standards)
      = (standards.structural.requiredFiles ++ standards.structural.recommendedFiles
          ++ standards.docs.requiredFiles.filter
            fun path => !standards.structural.requiredFiles.contains path).filter
        fun path => !s.hasFile path := by
  have hasked : newFiles (evaluate s standards)
      = ((evaluate s standards).filterMap Creation.ofIssue?).filterMap Creation.newFile? := by
    rw [List.filterMap_filterMap]
    exact List.filterMap_congr fun _ h => newFile?_of_mem h
  have hfiles : ∀ paths : List String,
      ((paths.map Creation.file).filter fun c => !c.isListed s).filterMap Creation.newFile?
        = paths.filter fun path => !s.hasFile path := by
    intro paths
    rw [List.filter_map, List.filterMap_map]
    exact List.filterMap_some
  have hdirectories : ∀ entries : List (String × String),
      ((entries.map fun entry => Creation.directory (dropTrailingSlashes entry.1)).filter
        fun c => !c.isListed s).filterMap Creation.newFile? = [] := by
    intro entries
    rw [List.filter_map, List.filterMap_map]
    exact List.filterMap_eq_nil_iff.2 fun _ _ => rfl
  rw [hasked, Creation.asked_eq, Creation.requested]
  simp only [List.filter_append, List.filterMap_append, hdirectories, hfiles, List.nil_append]

/-! ## Accepted settings -/

/-- How often each file is asked for, if no list of the rules has repetitions. -/
theorem count_newFiles (hdistinct : standards.Distinct) (s : Snapshot) (path : String) :
    (newFiles (evaluate s standards)).count path
      = if s.hasFile path = true then 0
        else (if path ∈ standards.structural.requiredFiles ∨ path ∈ standards.docs.requiredFiles
            then 1 else 0)
          + if path ∈ standards.structural.recommendedFiles then 1 else 0 := by
  rw [newFiles_evaluate]
  by_cases hthere : s.hasFile path = true
  · rw [if_pos hthere, List.count_eq_zero]
    simp [hthere]
  · have hdocuments := hdistinct.documents.filter
      fun path => !standards.structural.requiredFiles.contains path
    rw [if_neg hthere, List.count_filter (by simpa using hthere), List.count_append,
      List.count_append, List.Nodup.count hdistinct.files, List.Nodup.count hdistinct.recommended,
      List.Nodup.count hdocuments]
    -- A document that is required as a file counts as a file.
    by_cases hfile : path ∈ standards.structural.requiredFiles
    · simp [hfile]
    · by_cases hdocument : path ∈ standards.docs.requiredFiles <;> simp [hfile, hdocument]; omega

open Standards in
/--
Of the rules that the loader accepts, a file that is not there is reported once for the required
files and documents together, and once more if it is recommended.  So no file is reported twice
just if each recommended file that is not there is neither required nor a required document.
-/
theorem nodup_newFiles_iff {asked : Option String} {loaded : Loaded} (h : Accepted asked loaded)
    (s : Snapshot) :
    let rules := loaded.settings.standards
    (∀ path, (newFiles (evaluate s rules)).count path
      = if s.hasFile path = true then 0
        else (if path ∈ rules.structural.requiredFiles ∨ path ∈ rules.docs.requiredFiles
            then 1 else 0)
          + if path ∈ rules.structural.recommendedFiles then 1 else 0) ∧
      ((newFiles (evaluate s rules)).Nodup ↔
        ∀ path ∈ rules.structural.recommendedFiles, s.hasFile path = false →
          path ∉ rules.structural.requiredFiles ∧ path ∉ rules.docs.requiredFiles) := by
  intro rules
  have hcount := count_newFiles h.sound.distinct s
  refine ⟨hcount, ?_⟩
  rw [List.nodup_iff_count]
  -- A path is asked for at most once as required and once as recommended.
  constructor
  · intro hle path hrecommended hthere
    have hpath := hle path
    rw [hcount, if_neg (by simp [hthere]), if_pos hrecommended] at hpath
    by_cases hlisted : path ∈ rules.structural.requiredFiles ∨ path ∈ rules.docs.requiredFiles
    · rw [if_pos hlisted] at hpath
      omega
    · exact not_or.1 hlisted
  · intro hapart path
    rw [hcount]
    by_cases hthere : s.hasFile path = true
    · simp [hthere]
    · rw [if_neg hthere]
      by_cases hrecommended : path ∈ rules.structural.recommendedFiles
      · have hunlisted := hapart path hrecommended (by simpa using hthere)
        rw [if_neg (not_or.2 hunlisted), if_pos hrecommended]
      · rw [if_neg hrecommended]
        split <;> omega

open Standards in
/-- The strict preset recommends a file and requires it as a document; a document can recommend a
file that is required.  Both files are reported twice if they are not there. -/
theorem newFiles_repeated :
    (∃ loaded, loadDefaults (some "strict") = .ok loaded ∧
      ¬ (newFiles (evaluate (.empty "/app") loaded.settings.standards)).Nodup) ∧
    ∃ loaded, loadFrom (oneDocument "[structureRules]\nrecommendedFiles = [\"package.json\"]\n") none
        "/s.toml" = .ok loaded ∧
      ¬ (newFiles (evaluate (.empty "/app") loaded.settings.standards)).Nodup :=
  ⟨ok_of_any (by decide +kernel), ok_of_any (by decide +kernel)⟩

open Standards in
theorem nodup_newFiles_iff_strict :
    ∃ loaded, loadDefaults (some "strict") = .ok loaded ∧
      (newFiles (evaluate (.empty "/app") loaded.settings.standards)).count "CHANGELOG.md" = 2 ∧
      (newFiles (evaluate (.empty "/app") loaded.settings.standards)).count "LICENSE" = 1 := by
  obtain ⟨loaded, hload, hchanges, hlog, hlicense, hothers⟩ := ok_of_any
    (x := loadDefaults (some "strict"))
    (p := fun loaded => "CHANGELOG.md" ∈ loaded.settings.standards.docs.requiredFiles ∧
      "CHANGELOG.md" ∈ loaded.settings.standards.structural.recommendedFiles ∧
      "LICENSE" ∈ loaded.settings.standards.structural.requiredFiles ∧
      "LICENSE" ∉ loaded.settings.standards.structural.recommendedFiles) (by decide +kernel)
  obtain ⟨hcount, _⟩ := nodup_newFiles_iff (.defaults hload) (.empty "/app")
  have hnothing : ∀ path, (Snapshot.empty "/app").hasFile path = false := fun _ => rfl
  refine ⟨loaded, hload, ?_, ?_⟩
  · rw [hcount, hnothing, if_neg (by decide), if_pos (.inr hchanges), if_pos hlog]
  · rw [hcount, hnothing, if_neg (by decide), if_pos (.inl hlicense), if_neg hothers]

end Rules
end ProjectConsistency
