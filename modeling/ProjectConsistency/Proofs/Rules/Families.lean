import ProjectConsistency.Validation

/-!
# Families — what each family of rules finds

The issues of a snapshot are those of five families of rules, one after the other.  This file defines:

* `requestedPaths` — the paths that the rules ask for;
* `Issue.CreatesAt` — the issue is of a family, and asks at most for something at one of some paths;

and shows that the rules about files, directories and documents ask only for what is at requested
paths (`Rules.Structure.createsAt`, `Rules.Documentation.createsAt`).  The issues of each other family
are all made in the same few ways (`Rules.Naming.of_mem`, `Rules.Style.of_mem`,
`Rules.Configuration.of_mem`), so what holds for these ways holds for the family.  Each issue tells its
family, so two snapshots have the same issues just if each family finds the same (`evaluate_eq_iff`).
-/

namespace ProjectConsistency

/-- The paths that the rules ask for, relative to the root of the project. -/
def requestedPaths (standards : Standards) : List String :=
  standards.structural.requiredDirectories.map (fun (path, _) => dropTrailingSlashes path)
    ++ standards.structural.requiredFiles ++ standards.structural.recommendedFiles
    ++ standards.docs.requiredFiles

/-- The issue is of a family, and asks for nothing but a file or a directory at one of the paths. -/
structure Issue.CreatesAt (issue : Issue) (category : Category) (paths : List String) : Prop where
  category_eq : issue.category = category
  remedy : ∀ remedy, issue.remedy = some remedy →
    ∃ path ∈ paths, remedy = .createFile path ∨ remedy = .createDirectory path

namespace Rules

variable {s : Snapshot} {standards : Standards} {issue : Issue}

/-- The rules are evaluated family by family. -/
theorem evaluate_eq (s : Snapshot) (standards : Standards) :
    evaluate s standards = Structure.check s standards
      ++ (Naming.check s standards ++ (Style.check s standards
        ++ (Documentation.check s standards ++ Configuration.check s standards))) := by
  simp [evaluate, Category.all, Category.check]

/-! ## Files, directories and documents -/

/-- What the structure rules ask to create is a path the settings name. -/
theorem Structure.createsAt (h : issue ∈ Structure.check s standards) :
    issue.CreatesAt .structural (requestedPaths standards) := by
  have file : ∀ {severity : Severity} {message path : String}, path ∈ requestedPaths standards →
      (missingFile severity message path).CreatesAt .structural (requestedPaths standards) := by
    intro severity message path hpath
    refine ⟨rfl, ?_⟩
    intro remedy hremedy
    exact ⟨path, hpath, .inl (Option.some.inj hremedy).symm⟩
  -- One case for each list of issues that the check puts together.
  simp only [check, List.mem_append] at h
  rcases h with (((h | h) | h) | h) | h
  · rcases List.mem_filterMap.1 h with ⟨⟨path, purpose⟩, hmem, hissue⟩
    by_cases hthere : s.hasDirectory (dropTrailingSlashes path) = true
    · simp [hthere] at hissue
    · obtain rfl : missingDirectory (dropTrailingSlashes path) purpose = issue := by
        simpa [hthere] using hissue
      have hpath : dropTrailingSlashes path ∈ requestedPaths standards := by
        simp only [requestedPaths, List.mem_append]
        exact .inl (.inl (.inl (List.mem_map.2 ⟨_, hmem, rfl⟩)))
      refine ⟨rfl, ?_⟩
      intro remedy hremedy
      exact ⟨_, hpath, .inr (Option.some.inj hremedy).symm⟩
  · rcases List.mem_map.1 h with ⟨path, hmem, rfl⟩
    apply file
    simp only [requestedPaths, List.mem_append]
    exact .inl (.inl (.inr (List.mem_filter.1 hmem).1))
  · rcases List.mem_map.1 h with ⟨path, hmem, rfl⟩
    apply file
    simp only [requestedPaths, List.mem_append]
    exact .inl (.inr (List.mem_filter.1 hmem).1)
  · by_cases hdeep : standards.structural.maxDepth < s.maxDepth
    · simp only [tooDeep, hdeep, if_true, List.mem_singleton] at h
      rw [h]
      exact ⟨rfl, by simp [found, Issue.suggest]⟩
    · simp [tooDeep, hdeep] at h
  · rcases List.mem_map.1 h with ⟨⟨path, reason⟩, _, rfl⟩
    exact ⟨rfl, by simp [found, Issue.about]⟩

/-- What the documentation rules ask to create is a path the settings name. -/
theorem Documentation.createsAt (h : issue ∈ Documentation.check s standards) :
    issue.CreatesAt .documentation (requestedPaths standards) := by
  rcases List.mem_append.1 h with h | h
  · rcases List.mem_map.1 h with ⟨path, hmem, rfl⟩
    refine ⟨rfl, ?_⟩
    intro remedy hremedy
    have hpath : path ∈ requestedPaths standards :=
      List.mem_append_right _ (List.mem_filter.1 hmem).1
    exact ⟨path, hpath, .inl (Option.some.inj hremedy).symm⟩
  · cases hreadme : s.readme with
    | none => simp [hreadme] at h
    | some readme =>
        rw [hreadme] at h
        rcases List.mem_map.1 h with ⟨name, _, rfl⟩
        exact ⟨rfl, by simp [missingSection]⟩

/-! ## The other families -/

section

variable {P : Issue → Prop}

/-- All issues about names are made in one way. -/
theorem Naming.of_mem (hviolation : ∀ kind path casing wanted, P (violation kind path casing wanted))
    (h : issue ∈ Naming.check s standards) : P issue := by
  rcases List.mem_append.1 h with h | h
  · rcases List.mem_filterMap.1 h with ⟨path, _, hissue⟩
    rcases Option.map_eq_some_iff.1 hissue with ⟨wanted, _, rfl⟩
    exact hviolation _ _ _ _
  · rcases List.mem_filterMap.1 h with ⟨path, _, hissue⟩
    rcases Option.map_eq_some_iff.1 hissue with ⟨wanted, _, rfl⟩
    exact hviolation _ _ _ _

/-- All issues about sources are made in one way. -/
theorem Style.of_mem (hfound : ∀ severity path message, P (found severity path message))
    (h : issue ∈ Style.check s standards) : P issue := by
  rcases List.mem_flatMap.1 h with ⟨⟨path, ext, source⟩, _, h⟩
  have made : ∀ {α : Type} {x : Option α} {f : α → Issue},
      (∀ a, P (f a)) → issue ∈ (x.map f).toList → P issue := by
    intro α x f hf hissue
    cases x with
    | none => simp at hissue
    | some a =>
        obtain rfl : issue = f a := by simpa using hissue
        exact hf a
  simp only [checkSource, List.mem_append] at h
  rcases h with ((h | h) | h) | h
  · exact made (fun _ => hfound _ _ _) h
  · exact made (fun _ => hfound _ _ _) h
  · by_cases hquotes : standards.style.quoteExtensions.contains ext = true
    · rw [quoteIssue, if_pos hquotes] at h
      exact made (fun _ => hfound _ _ _) h
    · rw [quoteIssue, if_neg hquotes] at h
      simp at h
  · by_cases hcomma : standards.style.requireTrailingComma = true
    · rw [commaIssue, if_pos hcomma] at h
      exact made (fun _ => hfound _ _ _) h
    · rw [commaIssue, if_neg hcomma] at h
      simp at h

/-- All issues about configuration files are made in one of two ways. -/
theorem Configuration.of_mem (hinvalid : ∀ file reason, P (invalidFile file reason))
    (hmissing : ∀ file severity key, P (missingKey file severity key))
    (h : issue ∈ Configuration.check s standards) : P issue := by
  rcases List.mem_flatMap.1 h with ⟨⟨file, rule⟩, _, h⟩
  dsimp only at h
  cases hfile : Assoc.find? file s.configFiles with
  | none => simp [hfile] at h
  | some found =>
      rw [hfile] at h
      cases found with
      | invalid reason =>
          obtain rfl : issue = invalidFile file reason := by simpa [checkFile] using h
          exact hinvalid _ _
      | parsed value =>
          rcases List.mem_map.1 h with ⟨key, _, rfl⟩
          exact hmissing _ _ _

end

theorem Naming.category_of_mem (h : issue ∈ Naming.check s standards) :
    issue.category = .naming := by
  refine of_mem (P := (·.category = .naming)) ?_ h
  intro kind path casing wanted
  by_cases hsame : wanted = (splitParent path).2
  · simp [violation, hsame]
  · simp [violation, hsame, Issue.withRemedy]

theorem Style.category_of_mem (h : issue ∈ Style.check s standards) :
    issue.category = .codeStyle :=
  of_mem (P := (·.category = .codeStyle)) (fun _ _ _ => rfl) h

theorem Configuration.category_of_mem (h : issue ∈ Configuration.check s standards) :
    issue.category = .configuration :=
  of_mem (P := (·.category = .configuration)) (fun _ _ => rfl) (fun _ _ _ => rfl) h

/-! ## All families -/

/-- Of a list whose members agree in a part, those with a given part are all or none. -/
theorem filter_of_agree {α β : Type} [DecidableEq β] {xs : List α} {part : α → β} {own : β}
    (h : ∀ x ∈ xs, part x = own) (wanted : β) :
    xs.filter (fun x => decide (part x = wanted)) = if own = wanted then xs else [] := by
  by_cases hsame : own = wanted
  · rw [if_pos hsame, List.filter_eq_self]
    intro x hx
    simpa using (h x hx).trans hsame
  · rw [if_neg hsame, List.filter_eq_nil_iff]
    intro x hx
    simpa using fun heq => hsame ((h x hx).symm.trans heq)

/-- The issues of a family carry its category. -/
theorem category_of_mem_check {category : Category}
    (h : issue ∈ category.check s standards) : issue.category = category := by
  cases category with
  | structural => exact (Structure.createsAt h).category_eq
  | naming => exact Naming.category_of_mem h
  | codeStyle => exact Style.category_of_mem h
  | documentation => exact (Documentation.createsAt h).category_eq
  | configuration => exact Configuration.category_of_mem h

/-- The issues of a family are those that tell that they are. -/
theorem filter_evaluate (s : Snapshot) (standards : Standards) (category : Category) :
    (evaluate s standards).filter (fun issue => decide (issue.category = category))
      = category.check s standards := by
  have hfamily : ∀ other : Category,
      (other.check s standards).filter (fun issue => decide (issue.category = category))
        = if other = category then other.check s standards else [] :=
    fun other => filter_of_agree (fun issue => category_of_mem_check) category
  rw [evaluate, List.filter_flatMap]
  simp only [hfamily]
  cases category <;> simp [Category.all]

/-- The issues of two snapshots are the same if each family finds the same. -/
theorem evaluate_eq_iff {s' : Snapshot} :
    evaluate s' standards = evaluate s standards ↔
      ∀ category : Category, category.check s' standards = category.check s standards := by
  constructor
  · intro h category
    rw [← filter_evaluate, ← filter_evaluate, h]
  · intro h
    simp only [evaluate, h]

end Rules
end ProjectConsistency
