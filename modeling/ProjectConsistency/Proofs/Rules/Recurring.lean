import Mathlib.Data.List.DropRight
import Mathlib.Tactic.MkIffOfInductiveProp
import ProjectConsistency.Proofs.Rules.Families
import ProjectConsistency.Proofs.Walk.Carried

/-!
# Recurring — what a second evaluation reports after entries were moved

The rules about files, documents and configuration files refer to entries by their paths.  This file
defines:

* `soughtFiles`, `soughtDirectories` — the paths that the rules ask for, by what is to be there;
* `Spares` — entries are moved, but none to which the rules or the analysis refer by its path;
* `Retains` — a second snapshot has what the rules found in the first one;
* `Issue.Recurs` — an issue is another one once more, or the same about an entry that was moved.

A second walk that carries what it reports retains what is spared (`Spares.retains`).  What is
retained is not missed the second time, so each issue of these three families recurs from the first
evaluation (`Retains.recurs`).
-/

namespace ProjectConsistency

open FileSystem Walk Analysis

/-! ## What the rules refer to -/

/-- The files that the rules ask for. -/
def soughtFiles (standards : Standards) : List String :=
  standards.structural.requiredFiles ++ standards.structural.recommendedFiles
    ++ standards.docs.requiredFiles

/-- The directories that the rules ask for. -/
def soughtDirectories (standards : Standards) : List String :=
  standards.structural.requiredDirectories.map fun entry => dropTrailingSlashes entry.1

/--
Entries of a snapshot are moved, but not those to which the rules or the analysis refer by their
paths: what the rules ask for and what tells the kind of the project stays where it is, nothing comes
to where a configuration file is tracked or the kind of the project is told, and no other file comes
to be the first with the name of a readme file.
-/
@[mk_iff]
structure Spares (standards : Standards) (s : Snapshot) (newPath : String → String) : Prop where
  directories : ∀ d ∈ s.directories,
    d ∈ soughtDirectories standards ∨ d ∈ markers ∨ newPath d ∈ markers → newPath d = d
  files : ∀ f ∈ s.files, f ∈ soughtFiles standards ∨ f ∈ manifestFiles ∨
    newPath f ∈ manifestFiles ∨ newPath f ∈ Assoc.keys standards.config.perFile → newPath f = f
  readme : ∀ f ∈ s.files, isReadme (newPath f) = true → ∃ r ∈ s.readme,
    f = r.path ∨ newPath r.path = r.path ∧ namesOf r.path < namesOf (newPath f)

/-- Whether entries are spared can be seen from the snapshot and their new paths. -/
instance (standards : Standards) (s : Snapshot) (newPath : String → String) :
    Decidable (Spares standards s newPath) :=
  decidable_of_iff' _ (spares_iff standards s newPath)

/-- A second snapshot has what the rules found in the first one. -/
structure Retains (standards : Standards) (newPath : String → String) (s s' : Snapshot) :
    Prop where
  directories : ∀ d ∈ soughtDirectories standards, s.hasDirectory d = true →
    s'.hasDirectory d = true
  files : ∀ f ∈ soughtFiles standards, s.hasFile f = true → s'.hasFile f = true
  maxDepth : s'.maxDepth ≤ s.maxDepth
  readable : s'.unreadable = []
  configFiles : ∀ f c, Assoc.find? f s'.configFiles = some c → Assoc.find? f s.configFiles = some c
  readme : ∀ r', s'.readme = some r' → ∃ r, s.readme = some r ∧ r.content = r'.content ∧
    newPath r.path = r'.path

theorem dropTrailingSlashes_idem (path : String) :
    dropTrailingSlashes (dropTrailingSlashes path) = dropTrailingSlashes path := by
  simp [dropTrailingSlashes, List.dropWhile_idempotent]

section

variable {place : Location → Location} {before after : List Event} {standards : Standards}
  {text text' : String} (hspares : Spares standards (describe standards text before) (newPath place))
  (hcarried : Carried place before after)

include hspares hcarried

theorem Spares.projectType_eq :
    (describe standards text' after).projectType
      = (describe standards text before).projectType := by
  refine projectType_describe ?_ ?_ _ _
  · intro f hf
    apply hcarried.find?_eq
    rintro old hold (rfl | hnew)
    · exact hspares.files old hold (.inr (.inl hf))
    · exact hspares.files old hold (.inr (.inr (.inl (hnew ▸ hf))))
  · intro d hd
    apply hcarried.mem_directories_iff
    rintro old hold (rfl | hnew)
    · exact hspares.directories old hold (.inr (.inl hd))
    · exact hspares.directories old hold (.inr (.inr (hnew ▸ hd)))

/-- A tracked file that is found the second time was found the first time, with the same content. -/
theorem Spares.find?_configFiles {f : String} {c : ConfigFile}
    (hfind : Assoc.find? f (describe standards text' after).configFiles = some c) :
    Assoc.find? f (describe standards text before).configFiles = some c := by
  have hafter := (Analysis.find?_configFiles _ _ f).symm.trans hfind
  refine (Analysis.find?_configFiles _ _ f).trans ?_
  by_cases htracked : f ∈ Assoc.keys standards.config.perFile
  · rw [if_pos htracked] at hafter ⊢
    rcases Option.map_eq_some_iff.1 hafter with ⟨content, hcontent, rfl⟩
    -- Nothing came to where the file is tracked, so it was there before.
    rcases hcarried.file_origin hcontent with ⟨old, hold, hnew⟩
    have hsame := hspares.files old (Assoc.mem_keys_of_find? hold)
      (.inr (.inr (.inr (hnew ▸ htracked))))
    rw [← hnew, hsame, hold]
    rfl
  · simp [if_neg htracked] at hafter

/-- A second walk that carries what it reports retains what is spared. -/
theorem Spares.retains :
    Retains standards (newPath place) (describe standards text before)
      (describe standards text' after) := by
  refine ⟨?_, ?_, hcarried.depth_le, ?_, fun f c => hspares.find?_configFiles hcarried,
    fun r' hr' => hcarried.readme hspares.readme hr'⟩
  · intro d hsought hd
    obtain ⟨entry, hentry, rfl⟩ := List.mem_map.1 hsought
    rw [Snapshot.hasDirectory, dropTrailingSlashes_idem] at hd ⊢
    have hmem : dropTrailingSlashes entry.1 ∈ before.filterMap Event.directory? :=
      List.contains_iff_mem.1 hd
    exact List.contains_iff_mem.2
      (hcarried.directory_stays hmem (hspares.directories _ hmem (.inl hsought)))
  · intro f hsought hf
    have hmem : f ∈ Assoc.keys (before.filterMap Event.file?) := List.contains_iff_mem.1 hf
    rcases Option.isSome_iff_exists.1 ((Assoc.isSome_find?_iff _ _).2 hmem) with ⟨content, hfind⟩
    have hstays := hcarried.file_stays hfind (hspares.files f hmem (.inl hsought))
    exact List.contains_iff_mem.2 (Assoc.mem_keys_of_find? hstays)
  · -- A walk without links reports entries only.
    refine List.filterMap_eq_nil_iff.2 ?_
    intro e he
    have hentry := hcarried.orderly'.entry e he
    cases e with
    | directory _ => rfl
    | file _ _ => rfl
    | unreadable _ _ => cases hentry
    | cancelled => rfl

end

/-! ## Issues that recur -/

/-- An issue of a second snapshot is one of the first once more.  An issue about the depth may speak
of a smaller one, and an issue about a section of the new path of the readme file. -/
inductive Issue.Recurs (rules : StructureRules) (newPath : String → String) (s s' : Snapshot) :
    Issue → Issue → Prop where
  | same (issue : Issue) : Recurs rules newPath s s' issue issue
  | deep {first again : Issue} (before : first ∈ Rules.Structure.tooDeep rules s)
      (after : again ∈ Rules.Structure.tooDeep rules s') (depth : s'.maxDepth ≤ s.maxDepth) :
      Recurs rules newPath s s' first again
  | moved (path name : String) : Recurs rules newPath s s'
      (Rules.Documentation.missingSection path name)
      (Rules.Documentation.missingSection (newPath path) name)

namespace Retains

variable {standards : Standards} {newPath : String → String} {s s' : Snapshot} {issue : Issue}
  (h : Retains standards newPath s s')

include h

/-- A file that is missed the second time was missed the first time. -/
theorem missing_files {files : List String} (hsought : ∀ f ∈ files, f ∈ soughtFiles standards)
    {f : String} (hf : f ∈ files.filter fun f => !s'.hasFile f) :
    f ∈ files.filter fun f => !s.hasFile f := by
  obtain ⟨hmem, hmissing⟩ := List.mem_filter.1 hf
  refine List.mem_filter.2 ⟨hmem, ?_⟩
  by_contra hthere
  have hagain := h.files f (hsought f hmem) (by simpa using hthere)
  simp [hagain] at hmissing

/-- A directory that is missed the second time was missed the first time. -/
theorem missing_directories
    (hissue : issue ∈ Rules.Structure.missingDirectories standards.structural s') :
    issue ∈ Rules.Structure.missingDirectories standards.structural s := by
  rcases List.mem_filterMap.1 hissue with ⟨⟨path, purpose⟩, hentry, hsome⟩
  refine List.mem_filterMap.2 ⟨(path, purpose), hentry, ?_⟩
  by_cases hthere : s.hasDirectory (dropTrailingSlashes path) = true
  · have hagain := h.directories _ (List.mem_map.2 ⟨_, hentry, rfl⟩) hthere
    simp [hagain] at hsome
  · by_cases hagain : s'.hasDirectory (dropTrailingSlashes path) = true
    · simp [hagain] at hsome
    · simpa [hthere, hagain] using hsome

theorem recurs_structure (hissue : issue ∈ Rules.Structure.check s' standards) :
    ∃ first ∈ Rules.Structure.check s standards,
      Issue.Recurs standards.structural newPath s s' first issue := by
  -- One case for each list of issues that the check puts together.
  simp only [Rules.Structure.check, List.mem_append] at hissue ⊢
  rcases hissue with (((hissue | hissue) | hissue) | hissue) | hissue
  · exact ⟨issue, .inl (.inl (.inl (.inl (h.missing_directories hissue)))), .same issue⟩
  · have hsought : ∀ f ∈ standards.structural.requiredFiles, f ∈ soughtFiles standards :=
      fun f hf => List.mem_append_left _ (List.mem_append_left _ hf)
    rcases List.mem_map.1 hissue with ⟨f, hf, rfl⟩
    have hmissing := h.missing_files hsought hf
    exact ⟨_, .inl (.inl (.inl (.inr (List.mem_map.2 ⟨f, hmissing, rfl⟩)))), .same _⟩
  · have hsought : ∀ f ∈ standards.structural.recommendedFiles, f ∈ soughtFiles standards :=
      fun f hf => List.mem_append_left _ (List.mem_append_right _ hf)
    rcases List.mem_map.1 hissue with ⟨f, hf, rfl⟩
    have hmissing := h.missing_files hsought hf
    exact ⟨_, .inl (.inl (.inr (List.mem_map.2 ⟨f, hmissing, rfl⟩))), .same _⟩
  · by_cases hdeep : standards.structural.maxDepth < s'.maxDepth
    · -- Nothing has got deeper, so there was such an issue before.
      have hfirst := Nat.lt_of_lt_of_le hdeep h.maxDepth
      obtain ⟨first, hmem⟩ : ∃ first, first ∈ Rules.Structure.tooDeep standards.structural s := by
        simp [Rules.Structure.tooDeep, hfirst]
      exact ⟨first, .inl (.inr hmem), .deep hmem hissue h.maxDepth⟩
    · simp [Rules.Structure.tooDeep, hdeep] at hissue
  · simp [Rules.Structure.unreadable, h.readable] at hissue

theorem recurs_documentation (hissue : issue ∈ Rules.Documentation.check s' standards) :
    ∃ first ∈ Rules.Documentation.check s standards,
      Issue.Recurs standards.structural newPath s s' first issue := by
  rcases List.mem_append.1 hissue with hissue | hissue
  · rcases List.mem_map.1 hissue with ⟨f, hf, rfl⟩
    obtain ⟨hmem, hmissing⟩ := List.mem_filter.1 hf
    obtain ⟨hother, hgone⟩ := Bool.and_eq_true_iff.1 hmissing
    have hsought : ∀ f ∈ standards.docs.requiredFiles, f ∈ soughtFiles standards :=
      fun f hf => List.mem_append_right _ hf
    have hfirst := (List.mem_filter.1 (h.missing_files hsought (List.mem_filter.2 ⟨hmem, hgone⟩))).2
    refine ⟨_, List.mem_append_left _ (List.mem_map.2 ⟨f, ?_, rfl⟩), .same _⟩
    exact List.mem_filter.2 ⟨hmem, Bool.and_eq_true_iff.2 ⟨hother, hfirst⟩⟩
  · cases hreadme' : s'.readme with
    | none => simp [hreadme'] at hissue
    | some r' =>
        -- The text is the same, so the same sections are missing from it.
        rcases h.readme r' hreadme' with ⟨r, hreadme, hcontent, hpath⟩
        rw [hreadme'] at hissue
        rcases List.mem_map.1 hissue with ⟨name, hname, rfl⟩
        rw [← hcontent] at hname
        rw [← hpath]
        refine ⟨_, List.mem_append_right _ ?_, .moved r.path name⟩
        rw [hreadme]
        exact List.mem_map.2 ⟨name, hname, rfl⟩

theorem recurs_configuration (hissue : issue ∈ Rules.Configuration.check s' standards) :
    ∃ first ∈ Rules.Configuration.check s standards,
      Issue.Recurs standards.structural newPath s s' first issue := by
  rcases List.mem_flatMap.1 hissue with ⟨⟨file, rule⟩, hrule, hfound⟩
  refine ⟨issue, List.mem_flatMap.2 ⟨(file, rule), hrule, ?_⟩, .same issue⟩
  dsimp only at hfound ⊢
  cases hfile : Assoc.find? file s'.configFiles with
  | none => simp [hfile] at hfound
  | some content =>
      rw [hfile] at hfound
      rw [h.configFiles file content hfile]
      exact hfound

/-- What the second evaluation reports about structure, documents or configuration recurs from the
first one. -/
theorem recurs (hissue : issue ∈ Rules.evaluate s' standards)
    (hcategory : issue.category ∈ [.structural, .documentation, .configuration]) :
    ∃ first ∈ Rules.evaluate s standards,
      Issue.Recurs standards.structural newPath s s' first issue := by
  simp only [Rules.evaluate_eq, List.mem_append] at hissue ⊢
  rcases hissue with hissue | hissue | hissue | hissue | hissue
  · rcases h.recurs_structure hissue with ⟨first, hfirst, hrecurs⟩
    exact ⟨first, .inl hfirst, hrecurs⟩
  · simp [Rules.Naming.category_of_mem hissue] at hcategory
  · simp [Rules.Style.category_of_mem hissue] at hcategory
  · rcases h.recurs_documentation hissue with ⟨first, hfirst, hrecurs⟩
    exact ⟨first, .inr (.inr (.inr (.inl hfirst))), hrecurs⟩
  · rcases h.recurs_configuration hissue with ⟨first, hfirst, hrecurs⟩
    exact ⟨first, .inr (.inr (.inr (.inr hfirst))), hrecurs⟩

end Retains

end ProjectConsistency
