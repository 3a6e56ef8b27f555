import ProjectConsistency.Proofs.Fix.RenameOrder
import ProjectConsistency.Proofs.Naming.Conversion
import ProjectConsistency.Proofs.Rules.Families
import ProjectConsistency.Proofs.Walk.Snapshot

/-!
# RenamePlan — the renames that are planned for a tree without links

Only the rules about names ask for renames, and each asks for the rename of an entry within its
directory.  This file defines:

* `Renaming.wantedName` — the name that an entry of a project ought to have;
* `Renaming.Correction` — an entry of a project and its new name, and `Correction.toRenaming`, the
  rename in texts;
* `Renaming.Correction.Justified` — the entry is there, and the convention asks for the new name.

The main statement, `plan_eq_corrections`, is that the plan is a list of justified corrections, none
of which concerns an entry above, or the same as, the entry of a later one.  Files come first and have
nothing below them; then come the directories, the deepest first.
-/

namespace ProjectConsistency

open FileSystem Walk.Event

namespace Renaming

open Rules.Naming

/-! ## What the rules about names ask for -/

/-- The rename of the entry at a path to the name that it ought to have. -/
def forPath? (wanted : String → Option String) (path : String) : Option Renaming :=
  (wanted (splitParent path).2).bind fun name =>
    if name = (splitParent path).2 then none
    else some { source := path, target := renamed (splitParent path).1 name }

/-- An issue about a name asks for a rename, unless the wanted name is the old one. -/
theorem ofIssue?_violation (kind path : String) (casing : Casing) (wanted : String) :
    ofIssue? (violation kind path casing wanted)
      = if wanted = (splitParent path).2 then none
        else some { source := path, target := renamed (splitParent path).1 wanted } := by
  by_cases hsame : wanted = (splitParent path).2
  · simp [violation, hsame, ofIssue?]
  · simp [violation, hsame, ofIssue?, Issue.withRemedy]

theorem ofIssue?_eq_none {issue : Issue} (h : issue.category ≠ .naming) :
    ofIssue? issue = none := by
  unfold ofIssue?
  cases hcategory : issue.category with
  | naming => exact absurd hcategory h
  | _ => rfl

/-- All renames that are asked for come from the rules about names. -/
theorem asked_eq (s : Snapshot) (standards : Standards) :
    (Rules.evaluate s standards).filterMap ofIssue?
      = s.directories.filterMap (forPath? (directoryName standards.naming))
        ++ s.files.filterMap (forPath? (fileName standards.naming)) := by
  -- The other families ask for no renames, so the issues of two lists remain.
  have none : ∀ {issues : List Issue} {category : Category}, category ≠ .naming →
      (∀ issue ∈ issues, issue.category = category) → issues.filterMap ofIssue? = [] := by
    intro issues category hne hall
    apply List.filterMap_eq_nil_iff.2
    intro issue hissue
    exact ofIssue?_eq_none (by rw [hall issue hissue]; exact hne)
  have entries : ∀ (kind : String) (casing : Casing) (wanted : String → Option String)
      (paths : List String),
      (paths.filterMap fun path =>
        (wanted (splitParent path).2).map (violation kind path casing)).filterMap ofIssue?
        = paths.filterMap (forPath? wanted) := by
    intro kind casing wanted paths
    rw [List.filterMap_filterMap]
    congr 1
    funext path
    cases hwanted : wanted (splitParent path).2 with
    | none => simp [forPath?, hwanted]
    | some name => simp [forPath?, hwanted, ofIssue?_violation]
  rw [Rules.evaluate_eq]
  simp only [List.filterMap_append]
  rw [none (by decide) fun _ h => (Rules.Structure.createsAt h).category_eq,
    none (by decide) fun _ => Rules.Style.category_of_mem,
    none (by decide) fun _ h => (Rules.Documentation.createsAt h).category_eq,
    none (by decide) fun _ => Rules.Configuration.category_of_mem]
  simp only [Rules.Naming.check, directoryIssues, fileIssues, List.filterMap_append, entries,
    List.nil_append, List.append_nil]

theorem source_of_forPath? {wanted : String → Option String} {path : String} {r : Renaming}
    (h : forPath? wanted path = some r) : r.source = path := by
  rcases Option.bind_eq_some_iff.1 h with ⟨name, _, hname⟩
  by_cases hsame : name = (splitParent path).2
  · simp [hsame] at hname
  · rw [if_neg hsame] at hname
    cases hname
    rfl

/-- In place of a name that directories can hold, another such name is wanted. -/
def KeepsPlain (wanted : String → Option String) : Prop :=
  ∀ name new, PlainName name → wanted name = some new → PlainName new

/-- The name that is wanted for a directory can be that of one. -/
theorem keepsPlain_directoryName (rules : NamingRules) : KeepsPlain (directoryName rules) :=
  fun _ _ => plainName_of_directoryName

/-- The name that is wanted for a file can be that of one. -/
theorem keepsPlain_fileName (rules : NamingRules) : KeepsPlain (fileName rules) :=
  fun _ _ => plainName_of_fileName

/-- A rename that is asked for changes the last name of a path to the one that is wanted. -/
theorem cases_of_forPath? {wanted : String → Option String} (hkeeps : KeepsPlain wanted)
    {above : List String} {old : String} {r : Renaming} (hold : PlainName old)
    (h : forPath? wanted (pathText (above ++ [old])) = some r) :
    ∃ new, wanted old = some new ∧ new ≠ old ∧
      r = ⟨pathText (above ++ [old]), pathText (above ++ [new])⟩ := by
  rw [forPath?, splitParent_pathText hold] at h
  rcases Option.bind_eq_some_iff.1 h with ⟨new, hnew, hr⟩
  by_cases hsame : new = old
  · simp [hsame] at hr
  · rw [if_neg hsame, renamed_parentText above (hkeeps old new hold hnew)] at hr
    exact ⟨new, hnew, hsame, (Option.some.inj hr).symm⟩

/-! ## Corrections -/

/-- The name that an entry of a project ought to have, if it has another. -/
def wantedName (rules : NamingRules) (project : Node) (place : Location) : Option String :=
  match project.shapeAt place with
  | some .directory => place.getLast?.bind (directoryName rules)
  | some (.file _) => place.getLast?.bind (fileName rules)
  | _ => none

/-- An entry in a directory of a project, and the name that it is to have. -/
structure Correction where
  above : Location
  old : String
  new : String

namespace Correction

def place (c : Correction) : Location :=
  c.above ++ [c.old]

def wanted (c : Correction) : Location :=
  c.above ++ [c.new]

def toRenaming (c : Correction) : Renaming where
  source := pathText c.place
  target := pathText c.wanted

/-- The entry is there, and the convention asks for another name. -/
structure Justified (c : Correction) (rules : NamingRules) (project : Node) : Prop where
  wanted_eq : wantedName rules project c.place = some c.new
  differs : c.new ≠ c.old

variable {c : Correction} {rules : NamingRules} {project : Node}

theorem Justified.isSome_get? (h : c.Justified rules project) :
    (project.get? c.place).isSome := by
  have hwanted := h.wanted_eq
  unfold wantedName at hwanted
  cases hshape : project.shapeAt c.place with
  | none => simp [hshape] at hwanted
  | some _ => exact Node.isSome_of_shapeAt hshape

theorem Justified.plain_place (h : c.Justified rules project) (hwell : project.WellFormed) :
    ∀ name ∈ c.place, PlainName name ∧ name.utf8ByteSize ≤ nameLimit := by
  rcases Option.isSome_iff_exists.1 h.isSome_get? with ⟨node, hnode⟩
  exact hwell.names_of_get? hnode

/-- The level of a rename is the depth of its entry. -/
theorem Justified.level_eq (h : c.Justified rules project) (hwell : project.WellFormed) :
    c.toRenaming.level + 1 = c.place.length :=
  count_slash_pathText (by simp [place]) fun name hname => (h.plain_place hwell name hname).1

theorem Justified.plain_wanted (h : c.Justified rules project) (hwell : project.WellFormed) :
    ∀ name ∈ c.wanted, PlainName name := by
  have hplace := h.plain_place hwell
  have hlast : c.place.getLast? = some c.old := by simp [place]
  have hnew : PlainName c.new := by
    have hold : PlainName c.old := (hplace c.old (by simp [place])).1
    have hwanted := h.wanted_eq
    unfold wantedName at hwanted
    cases hshape : project.shapeAt c.place with
    | none => simp [hshape] at hwanted
    | some x =>
        cases x with
        | link _ => simp [hshape] at hwanted
        | directory =>
            exact plainName_of_directoryName hold (by simpa [hshape, hlast] using hwanted)
        | file _ => exact plainName_of_fileName hold (by simpa [hshape, hlast] using hwanted)
  have habove : ∀ name ∈ c.above, PlainName name := fun name hname =>
    (hplace name (List.mem_append_left _ hname)).1
  exact List.forall_mem_append.2 ⟨habove, by simpa using hnew⟩

end Correction

/-! ## The plan -/

section

variable {s : Snapshot} {standards : Standards} {root : Location} {project : Node}

/-- What is asked for at the path of an entry is a correction. -/
theorem correction_of_forPath? (hwell : project.WellFormed) {wanted : String → Option String}
    (hkeeps : KeepsPlain wanted) {path : Location} {r : Renaming} (hne : path ≠ [])
    (hthere : (project.get? path).isSome)
    (hwanted : wantedName standards.naming project path = path.getLast?.bind wanted)
    (h : forPath? wanted (pathText path) = some r) :
    ∃ c : Correction, c.toRenaming = r ∧ c.Justified standards.naming project := by
  obtain ⟨above, old, rfl⟩ : ∃ above old, path = above ++ [old] :=
    ⟨_, _, (List.dropLast_concat_getLast hne).symm⟩
  have hold : PlainName old := by
    rcases Option.isSome_iff_exists.1 hthere with ⟨node, hnode⟩
    exact (hwell.names_of_get? hnode old (by simp)).1
  rcases cases_of_forPath? hkeeps hold h with ⟨new, hnew, hdiffers, rfl⟩
  exact ⟨⟨above, old, new⟩, rfl, by simpa [Correction.place, hwanted] using hnew, hdiffers⟩

/-- A directory is planned as a directory, and a file as a file. -/
theorem concernsDirectory_iff (hdesc : s.Describes root project) (hwell : project.WellFormed)
    {c : Correction} (hjust : c.Justified standards.naming project)
    (hmem : c.toRenaming ∈ plan s (Rules.evaluate s standards)) :
    c.toRenaming.concernsDirectory s = true ↔ project.shapeAt c.place = some .directory := by
  have hplain : ∀ name ∈ c.place, PlainName name := fun name hname =>
    (hjust.plain_place hwell name hname).1
  have hne : c.place ≠ [] := by simp [Correction.place]
  have hlisted : c.toRenaming.concernsDirectory s = true ↔ pathText c.place ∈ s.directories := by
    simp [concernsDirectory, Snapshot.hasDirectory, Correction.toRenaming,
      dropTrailingSlashes_pathText hne hplain]
  -- A path in the snapshot is the path of one location only.
  have same : ∀ {p : Location} {x : Shape}, p ≠ [] → pathText c.place = pathText p →
      project.shapeAt p = some x → c.place = p := by
    intro p x hp heq hshape
    have hthere : (project.get? p).isSome := Node.isSome_of_shapeAt hshape
    rcases Option.isSome_iff_exists.1 hthere with ⟨node, hnode⟩
    exact pathText_injective hne hp hplain
      (fun name hname => (hwell.names_of_get? hnode name hname).1) heq
  rw [hlisted]
  constructor
  · intro h
    rcases hdesc.directories _ h with ⟨p, hp, heq, hshape⟩
    rw [same hp heq hshape]
    exact hshape
  · intro hdirectory
    rw [(plan_perm s _).mem_iff, asked_eq] at hmem
    rcases List.mem_append.1 hmem with hmem | hmem
    · rcases List.mem_filterMap.1 hmem with ⟨text, htext, hentry⟩
      rw [← source_of_forPath? hentry] at htext
      exact htext
    · -- Then the same location would hold a file.
      rcases List.mem_filterMap.1 hmem with ⟨text, htext, hentry⟩
      rw [← source_of_forPath? hentry] at htext
      rcases hdesc.files _ htext with ⟨p, content, hp, heq, hshape⟩
      rw [← same hp heq hshape, hdirectory] at hshape
      cases hshape

/-- Every rename of the plan is a correction that the convention asks for. -/
theorem correction_of_mem_plan (hdesc : s.Describes root project) (hwell : project.WellFormed)
    {r : Renaming} (hr : r ∈ plan s (Rules.evaluate s standards)) :
    ∃ c : Correction, c.toRenaming = r ∧ c.Justified standards.naming project := by
  rw [(plan_perm s _).mem_iff, asked_eq] at hr
  rcases List.mem_append.1 hr with hr | hr
  · rcases List.mem_filterMap.1 hr with ⟨text, htext, hentry⟩
    rcases hdesc.directories _ htext with ⟨path, hne, rfl, hshape⟩
    exact correction_of_forPath? hwell (keepsPlain_directoryName _) hne (Node.isSome_of_shapeAt hshape)
      (by rw [wantedName, hshape]) hentry
  · rcases List.mem_filterMap.1 hr with ⟨text, htext, hentry⟩
    rcases hdesc.files _ htext with ⟨path, content, hne, rfl, hshape⟩
    exact correction_of_forPath? hwell (keepsPlain_fileName _) hne (Node.isSome_of_shapeAt hshape)
      (by rw [wantedName, hshape]) hentry

/-- Different renames are planned from different paths. -/
theorem pairwise_source (standards : Standards) (hdesc : s.Describes root project)
    (hwell : project.WellFormed) :
    (plan s (Rules.evaluate s standards)).Pairwise fun r r' => r.source ≠ r'.source := by
  rw [(plan_perm s _).pairwise_iff fun h => h.symm, asked_eq, List.pairwise_append]
  have each : ∀ {wanted : String → Option String} {paths : List String}, paths.Nodup →
      (paths.filterMap (forPath? wanted)).Pairwise fun r r' => r.source ≠ r'.source := by
    intro wanted paths hnodup
    refine List.pairwise_filterMap.2 (List.Pairwise.imp ?_ hnodup)
    intro path path' hne r hr r' hr' heq
    rw [source_of_forPath? hr, source_of_forPath? hr'] at heq
    exact hne heq
  refine ⟨each hdesc.nodup_directories, each hdesc.nodup_files, ?_⟩
  intro r hr r' hr' heq
  rcases List.mem_filterMap.1 hr with ⟨text, htext, hentry⟩
  rcases List.mem_filterMap.1 hr' with ⟨text', htext', hentry'⟩
  rw [source_of_forPath? hentry, source_of_forPath? hentry'] at heq
  rcases hdesc.directories _ htext with ⟨p, hp, rfl, hshape⟩
  rcases hdesc.files _ htext' with ⟨p', content, hp', rfl, hshape'⟩
  -- One location cannot hold both a directory and a file.
  have plain : ∀ {q : Location} {x : Shape}, project.shapeAt q = some x →
      ∀ name ∈ q, PlainName name := by
    intro q x hx name hname
    rcases Option.map_eq_some_iff.1 hx with ⟨node, hnode, _⟩
    exact (hwell.names_of_get? hnode name hname).1
  have hsame := pathText_injective hp hp' (plain hshape) (plain hshape') heq
  rw [hsame, hshape'] at hshape
  cases hshape

theorem exists_map_eq {α β : Type} {f : α → β} {p : α → Prop} {ys : List β}
    (h : ∀ y ∈ ys, ∃ x, f x = y ∧ p x) : ∃ xs : List α, ys = xs.map f ∧ ∀ x ∈ xs, p x := by
  induction ys with
  | nil => exact ⟨[], rfl, by simp⟩
  | cons y ys ih =>
      rcases h y (by simp) with ⟨x, rfl, hx⟩
      rcases ih fun y hy => h y (List.mem_cons_of_mem _ hy) with ⟨xs, rfl, hxs⟩
      exact ⟨x :: xs, rfl, by simpa using ⟨hx, hxs⟩⟩

/--
The plan is a list of corrections that the convention asks for.  No correction concerns an entry that
a later correction concerns, or a directory in which a later correction has its entry.
-/
theorem plan_eq_corrections (standards : Standards) (hdesc : s.Describes root project)
    (hwell : project.WellFormed) :
    ∃ corrections : List Correction,
      plan s (Rules.evaluate s standards) = corrections.map Correction.toRenaming ∧
      (∀ c ∈ corrections, c.Justified standards.naming project) ∧
      corrections.Pairwise fun c c' => ¬ c.place <+: c'.place := by
  have mem : ∀ r ∈ plan s (Rules.evaluate s standards), ∃ c : Correction, c.toRenaming = r ∧
      c.Justified standards.naming project := fun _ => correction_of_mem_plan hdesc hwell
  rcases exists_map_eq mem with ⟨corrections, hcorrections, hjust⟩
  refine ⟨corrections, hcorrections, hjust, ?_⟩
  have hsource := pairwise_source standards hdesc hwell
  have hlevel := pairwise_level s (Rules.evaluate s standards)
  rw [hcorrections, List.pairwise_map] at hsource hlevel
  refine (hsource.and hlevel).imp_of_mem ?_
  -- Suppose that the earlier entry is above the later one, by the names `below`.
  rintro c c' hc hc' ⟨hdiffer, hdeeper⟩ ⟨below, hbelow⟩
  have hjust₁ := hjust c hc
  have hplace' := (hjust c' hc').isSome_get?
  have hmem : c.toRenaming ∈ plan s (Rules.evaluate s standards) := by
    rw [hcorrections]
    exact List.mem_map.2 ⟨c, hc, rfl⟩
  have hne : below ≠ [] := by
    rintro rfl
    apply hdiffer
    simp [Correction.toRenaming, ← hbelow]
  -- Something is below the earlier entry, so it is a directory, and it is not less deep.
  have hdirectory : project.shapeAt c.place = some .directory := by
    rw [← hbelow] at hplace'
    rcases Node.exists_shapeAt hplace' with ⟨x, hx⟩
    exact Node.shapeAt_directory_of_append hne hx
  have hle := hdeeper ((concernsDirectory_iff hdesc hwell hjust₁ hmem).2 hdirectory)
  -- But it is less deep, by the number of names below it.
  have hlength : c'.place.length = c.place.length + below.length := by
    rw [← hbelow, List.length_append]
  have hpos : 0 < below.length := List.length_pos_iff.2 hne
  have hcount := hjust₁.level_eq hwell
  have hcount' := (hjust c' hc').level_eq hwell
  omega

end

end Renaming
end ProjectConsistency
