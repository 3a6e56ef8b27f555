import ProjectConsistency.Proofs.Walk.Coherent
import ProjectConsistency.Proofs.Walk.Inventory

/-!
# Carried — snapshots of a project before and after its entries were moved

A second walk comes upon the entries of a project at other places.  This file defines:

* `Walk.Orderly` — events report entries, in ascending order;
* `Walk.newPath` — the text of a path after the location that it names was moved;
* `Walk.Carried` — a second walk reports what a first one did, where it is now;
* `Analysis.manifestFiles`, `Analysis.markers` — the names that tell the kind of a project.

A path from which nothing went away, and to which nothing came, stands for the same in both walks
(`Carried.find?_eq`, `Carried.mem_directories_iff`).  So a project stays of the same kind if none of
the names that tell it is concerned (`projectType_describe`).  The readme file is not looked for under
a fixed name: it is the first one in ascending order (`Orderly.first_readme`), and the second snapshot
has the same one if no other file comes to be before it (`Carried.readme`).
-/

namespace ProjectConsistency

open FileSystem Walk.Event

theorem Assoc.mem_keys_of_find? {α : Type} {key : String} {value : α}
    {entries : List (String × α)} (h : find? key entries = some value) : key ∈ keys entries :=
  List.mem_map.2 ⟨_, mem_of_find? h, rfl⟩

namespace Walk

/-! ## Events in order -/

/-- The events report entries, in ascending order of their paths. -/
structure Orderly (events : List Event) : Prop where
  entry : ∀ e ∈ events, e.isEntry = true
  proper : ∀ e ∈ events, e.Proper
  ascending : events.Pairwise fun a b => a.path < b.path

/-- The walk of a project without links is orderly. -/
theorem orderly_walk {fs : FileSystem} (hfs : fs.tree.WellFormed) {path : String} {root : Location}
    {project : Node} (hlocate : fs.locate true path = .ok (root, project))
    (hlinks : project.LinkFree) (filter : NameFilter) (followLinks : Bool) :
    Orderly (walk fs filter followLinks path) := by
  have henumerates := enumerates_walk hfs hlocate filter
  rw [← walk_of_linkFree hfs hlocate hlinks followLinks] at henumerates
  exact ⟨fun e he => ((henumerates.reports e).1 he).entry,
    Analysis.proper_walk hfs filter followLinks path, henumerates.ascending.imp before_iff.1⟩

section

variable {events : List Event}

/-- An orderly walk names no file twice. -/
theorem Orderly.nodup_files (h : Orderly events) :
    (Assoc.keys (events.filterMap Event.file?)).Nodup := by
  refine (Analysis.nodup_listed h.proper (h.ascending.imp ?_)).2
  intro a b hlt heq
  exact List.lt_irrefl _ (heq ▸ hlt)

/-- The files that are reported, by the texts of their paths. -/
theorem Orderly.find?_file_iff (h : Orderly events) {text : String} {content : ByteArray} :
    Assoc.find? text (events.filterMap Event.file?) = some content ↔
      ∃ names, .file names content ∈ events ∧ text = pathText names := by
  rw [Assoc.find?_eq_some_iff h.nodup_files]
  constructor
  · intro hmem
    rcases List.mem_filterMap.1 hmem with ⟨e, he, hsome⟩
    rcases eq_of_file? hsome with ⟨names, rfl, htext⟩
    exact ⟨names, he, htext⟩
  · rintro ⟨names, he, rfl⟩
    exact List.mem_filterMap.2 ⟨_, he, rfl⟩

/-- An orderly walk names its files in the order of their paths. -/
theorem Orderly.ascending_files (h : Orderly events) :
    (events.filterMap Event.file?).Pairwise fun a b => namesOf a.1 < namesOf b.1 := by
  refine List.pairwise_filterMap.2 (h.ascending.imp_of_mem ?_)
  intro a b ha hb hlt x hx y hy
  rcases eq_of_file? hx with ⟨names, rfl, htext⟩
  rcases eq_of_file? hy with ⟨names', rfl, htext'⟩
  have hplain : ∀ n ∈ names, PlainName n := (h.proper _ ha).plain
  have hplain' : ∀ n ∈ names', PlainName n := (h.proper _ hb).plain
  rw [htext, htext', namesOf_pathText hplain, namesOf_pathText hplain']
  exact hlt

/-- The readme file is the first file, in the order of the walk, that has the name of one. -/
theorem Orderly.first_readme (h : Orderly events) {r : Readme}
    (hr : Analysis.readme? (events.filterMap Event.file?) = some r) :
    Analysis.isReadme r.path = true ∧
      (∃ content, Assoc.find? r.path (events.filterMap Event.file?) = some content ∧
        r.content = Text.decodeLossy content) ∧
      ∀ f ∈ Assoc.keys (events.filterMap Event.file?), Analysis.isReadme f = true → f ≠ r.path →
        namesOf r.path < namesOf f := by
  rcases Option.map_eq_some_iff.1 hr with ⟨⟨path, content⟩, hfind, rfl⟩
  obtain ⟨hname, earlier, later, hsplit, hearlier⟩ := List.find?_eq_some_iff_append.1 hfind
  have hfirst := (Assoc.find?_eq_some_iff h.nodup_files).2 (List.mem_of_find?_eq_some hfind)
  refine ⟨hname, ⟨content, hfirst, rfl⟩, ?_⟩
  intro f hf hreadme hne
  rcases List.mem_map.1 hf with ⟨entry, hentry, rfl⟩
  have hascending := h.ascending_files
  rw [hsplit] at hentry hascending
  -- A file that comes earlier has another name, so this one comes later.
  rcases List.mem_append.1 hentry with hentry | hentry
  · have hother : Analysis.isReadme entry.1 = false := by simpa using hearlier entry hentry
    simp [hreadme] at hother
  · rcases List.mem_cons.1 hentry with rfl | hentry
    · exact absurd rfl hne
    · exact (List.pairwise_cons.1 (List.pairwise_append.1 hascending).2.1).1 entry hentry

end

/-! ## Moved entries -/

/-- The text of a path after the location that it names was moved. -/
def newPath (place : Location → Location) (path : String) : String :=
  pathText (place (namesOf path))

/-- A second walk reports what a first one did, where it is now.  Entries that were moved may be
missing from it; those that were not are there. -/
structure Carried (place : Location → Location) (before after : List Event) : Prop where
  orderly : Orderly before
  orderly' : Orderly after
  plain : ∀ e ∈ before, ∀ name ∈ place e.path, PlainName name
  length : ∀ e ∈ before, (place e.path).length = e.path.length
  stays : ∀ e ∈ before, place e.path = e.path → e ∈ after
  origin : ∀ e ∈ after, ∃ old ∈ before, old.shape? = e.shape? ∧ place old.path = e.path

namespace Carried

variable {place : Location → Location} {before after : List Event} (h : Carried place before after)

include h

theorem newPath_eq {e : Event} (he : e ∈ before) :
    newPath place (pathText e.path) = pathText (place e.path) := by
  rw [newPath, namesOf_pathText (h.orderly.proper e he).plain]

/-- An entry whose path is the same as before is reported again. -/
theorem mem_of_newPath {e : Event} (he : e ∈ before)
    (hsame : newPath place (pathText e.path) = pathText e.path) : e ∈ after := by
  have hne : e.path ≠ [] := (h.orderly.proper e he).ne_nil (h.orderly.entry e he)
  have hne' : place e.path ≠ [] := by
    rw [← List.length_pos_iff, h.length e he]
    exact List.length_pos_iff.2 hne
  rw [h.newPath_eq he] at hsame
  exact h.stays e he
    (pathText_injective hne' hne (h.plain e he) (h.orderly.proper e he).plain hsame)

/-! ### Directories -/

/-- A directory whose name is kept is found again. -/
theorem directory_stays {d : String} (hd : d ∈ before.filterMap Event.directory?)
    (hsame : newPath place d = d) : d ∈ after.filterMap Event.directory? := by
  rcases List.mem_filterMap.1 hd with ⟨e, he, hsome⟩
  rcases eq_of_directory? hsome with ⟨names, rfl, rfl⟩
  exact List.mem_filterMap.2 ⟨_, h.mem_of_newPath he hsame, rfl⟩

/-- Every directory found afterwards was one before, under its old name. -/
theorem directory_origin {d : String} (hd : d ∈ after.filterMap Event.directory?) :
    ∃ old ∈ before.filterMap Event.directory?, newPath place old = d := by
  rcases List.mem_filterMap.1 hd with ⟨e, he, hsome⟩
  rcases eq_of_directory? hsome with ⟨names, rfl, rfl⟩
  rcases h.origin _ he with ⟨old, hold, hshape, hplace⟩
  have hdirectory : old = .directory old.path := eq_of_shape_directory hshape
  have hpath : newPath place (pathText old.path) = pathText names := by
    rw [h.newPath_eq hold, hplace]
    rfl
  exact ⟨_, List.mem_filterMap.2 ⟨old, hold, by rw [hdirectory]; rfl⟩, hpath⟩

/-- A path that no directory leaves or takes is that of a directory as before. -/
theorem mem_directories_iff {d : String}
    (hspared : ∀ old ∈ before.filterMap Event.directory?,
      old = d ∨ newPath place old = d → newPath place old = old) :
    d ∈ after.filterMap Event.directory? ↔ d ∈ before.filterMap Event.directory? := by
  constructor
  · intro hd
    rcases h.directory_origin hd with ⟨old, hold, hpath⟩
    rwa [← hpath, hspared old hold (.inr hpath)]
  · intro hd
    exact h.directory_stays hd (hspared d hd (.inl rfl))

/-! ### Files -/

/-- A file whose name is kept is found again, with its content. -/
theorem file_stays {f : String} {content : ByteArray}
    (hf : Assoc.find? f (before.filterMap Event.file?) = some content)
    (hsame : newPath place f = f) :
    Assoc.find? f (after.filterMap Event.file?) = some content := by
  rcases h.orderly.find?_file_iff.1 hf with ⟨names, he, rfl⟩
  exact h.orderly'.find?_file_iff.2 ⟨names, h.mem_of_newPath he hsame, rfl⟩

/-- Every file found afterwards was one before, with the same content. -/
theorem file_origin {f : String} {content : ByteArray}
    (hf : Assoc.find? f (after.filterMap Event.file?) = some content) :
    ∃ old, Assoc.find? old (before.filterMap Event.file?) = some content ∧
      newPath place old = f := by
  rcases h.orderly'.find?_file_iff.1 hf with ⟨names, he, rfl⟩
  rcases h.origin _ he with ⟨old, hold, hshape, hplace⟩
  have hfile : old = .file old.path content := eq_of_shape_file hshape
  have hpath : newPath place (pathText old.path) = pathText names := by
    rw [h.newPath_eq hold, hplace]
    rfl
  exact ⟨_, h.orderly.find?_file_iff.2 ⟨old.path, hfile ▸ hold, rfl⟩, hpath⟩

/-- At a path that no file leaves or takes there is the same file as before. -/
theorem find?_eq {f : String}
    (hspared : ∀ old ∈ Assoc.keys (before.filterMap Event.file?),
      old = f ∨ newPath place old = f → newPath place old = old) :
    Assoc.find? f (after.filterMap Event.file?)
      = Assoc.find? f (before.filterMap Event.file?) := by
  apply Option.ext
  intro content
  constructor
  · -- The file came from somewhere; as nothing else comes here, it came from here.
    intro hf
    rcases h.file_origin hf with ⟨old, hold, hpath⟩
    have hsame : old = f := (hspared old (Assoc.mem_keys_of_find? hold) (.inr hpath)).symm.trans hpath
    rwa [← hsame]
  · intro hf
    exact h.file_stays hf (hspared f (Assoc.mem_keys_of_find? hf) (.inl rfl))

/-! ### Depth -/

/-- Entries keep their depth, so none is deeper than the deepest one was. -/
theorem depth_le :
    (after.map Event.depth).foldl max 0 ≤ (before.map Event.depth).foldl max 0 := by
  have hbefore := (foldl_max_le_iff (before.map Event.depth) 0 _).1 (Nat.le_refl _)
  refine (foldl_max_le_iff _ _ _).2 ⟨hbefore.1, ?_⟩
  rw [List.forall_mem_map]
  intro e he
  rcases h.origin e he with ⟨old, hold, _, hplace⟩
  calc e.depth = e.path.length := depth_of_isEntry (h.orderly'.entry e he)
    _ = old.path.length := by rw [← hplace, h.length old hold]
    _ = old.depth := (depth_of_isEntry (h.orderly.entry old hold)).symm
    _ ≤ _ := List.forall_mem_map.1 hbefore.2 old hold

/-! ### The readme file -/

/-- The readme file of the second snapshot is that of the first one, provided that any other file that
then has the name of one comes after it, and it was not moved itself. -/
theorem readme {r' : Readme}
    (hreadme : ∀ f ∈ Assoc.keys (before.filterMap Event.file?),
      Analysis.isReadme (newPath place f) = true →
      ∃ r ∈ Analysis.readme? (before.filterMap Event.file?),
        f = r.path ∨ newPath place r.path = r.path ∧
          namesOf r.path < namesOf (newPath place f))
    (hr' : Analysis.readme? (after.filterMap Event.file?) = some r') :
    ∃ r, Analysis.readme? (before.filterMap Event.file?) = some r ∧ r.content = r'.content ∧
      newPath place r.path = r'.path := by
  obtain ⟨hname', ⟨content, hfind', hcontent'⟩, hfirst'⟩ := h.orderly'.first_readme hr'
  rcases h.file_origin hfind' with ⟨old, hold, hpath⟩
  rcases hreadme old (Assoc.mem_keys_of_find? hold) (hpath ▸ hname') with ⟨r, hr, hcases⟩
  obtain ⟨hname, ⟨content', hfind, hcontent⟩, _⟩ := h.orderly.first_readme hr
  rcases hcases with rfl | ⟨hstays, hearlier⟩
  · rw [hold] at hfind
    obtain rfl : content = content' := Option.some.inj hfind
    exact ⟨r, hr, hcontent.trans hcontent'.symm, hpath⟩
  · -- Had the file come from another one, the old readme file would come before it.
    rw [hpath] at hearlier
    have hne : r.path ≠ r'.path := fun heq => List.lt_irrefl _ (heq ▸ hearlier)
    have hlater : namesOf r'.path < namesOf r.path :=
      hfirst' r.path (Assoc.mem_keys_of_find? (h.file_stays hfind hstays)) hname hne
    exact absurd hlater (List.lt_asymm hearlier)

end Carried
end Walk

/-! ## What is read by name -/

namespace Analysis

/-- The files that tell the kind of a project. -/
def manifestFiles : List String :=
  [Manifest.packageFile, Manifest.crateFile, Manifest.requirementsFile, Manifest.pyprojectFile]

def markers : List String :=
  ["Assets", "contracts"]

theorem find?_configFiles (rules : ConfigRules) (files : Files) (f : String) :
    Assoc.find? f (configFiles rules files)
      = if f ∈ Assoc.keys rules.perFile then (Assoc.find? f files).map configFile else none := by
  unfold configFiles
  induction Assoc.keys rules.perFile with
  | nil => rfl
  | cons name rest ih =>
      cases hname : Assoc.find? name files with
      | none =>
          by_cases heq : name = f
          · subst heq
            simp [hname, ih]
          · simp [hname, ih, Ne.symm heq]
      | some content =>
          by_cases heq : name = f
          · subst heq
            simp [hname, Assoc.find?]
          · simp [hname, Assoc.find?, heq, ih, Ne.symm heq]

section

variable {standards : Standards} {before after : List Walk.Event}
  (hfiles : ∀ f ∈ manifestFiles, Assoc.find? f (after.filterMap Walk.Event.file?)
    = Assoc.find? f (before.filterMap Walk.Event.file?))

include hfiles

/-- The manifests are read from files whose names no rename touches. -/
theorem manifests_eq (rules : ConfigRules) :
    manifests (configFiles rules (after.filterMap Walk.Event.file?))
        (after.filterMap Walk.Event.file?)
      = manifests (configFiles rules (before.filterMap Walk.Event.file?))
        (before.filterMap Walk.Event.file?) := by
  have hpackage := hfiles Manifest.packageFile (by simp [manifestFiles])
  have hcrate := hfiles Manifest.crateFile (by simp [manifestFiles])
  have hrequirements := hfiles Manifest.requirementsFile (by simp [manifestFiles])
  simp only [manifests, packageManifest?, text?, find?_configFiles, hpackage, hcrate, hrequirements]

/-- Where the files and the directories that tell the kind of a project are the same, so is the
kind. -/
theorem projectType_describe
    (hdirectories : ∀ d ∈ markers, d ∈ after.filterMap Walk.Event.directory? ↔
      d ∈ before.filterMap Walk.Event.directory?) (text text' : String) :
    (describe standards text' after).projectType = (describe standards text before).projectType := by
  have hfile : ∀ f ∈ manifestFiles, (describe standards text' after).hasFile f
      = (describe standards text before).hasFile f := by
    intro f hf
    have hlisted : ∀ (title : String) (events : List Walk.Event),
        (describe standards title events).hasFile f
          = (Assoc.find? f (events.filterMap Walk.Event.file?)).isSome := by
      intro title events
      rw [Bool.eq_iff_iff, Assoc.isSome_find?_iff]
      exact List.contains_iff_mem
    rw [hlisted, hlisted, hfiles f hf]
  have hdirectory : ∀ d ∈ markers, (describe standards text' after).hasDirectory d
      = (describe standards text before).hasDirectory d := by
    intro d hd
    have hdrop : ∀ marker ∈ markers, dropTrailingSlashes marker = marker := by decide
    rw [Snapshot.hasDirectory, Snapshot.hasDirectory, hdrop d hd, Bool.eq_iff_iff,
      List.contains_iff_mem, List.contains_iff_mem]
    exact hdirectories d hd
  have hdependencies : (describe standards text' after).dependencies
      = (describe standards text before).dependencies := by
    show dependencies? (manifests (configFiles standards.config _) _) = dependencies? _
    rw [manifests_eq hfiles]
  -- All signals are taken from marker directories and manifests.
  have hsignals : signals (describe standards text' after)
      = signals (describe standards text before) := by
    rw [signals, signals, hdependencies, hfile _ (by simp [manifestFiles]),
      hfile _ (by simp [manifestFiles]), hfile _ (by simp [manifestFiles]),
      hfile _ (by simp [manifestFiles]), hdirectory _ (by simp [markers]),
      hdirectory _ (by simp [markers])]
  exact congrArg Signals.projectType hsignals

end

end Analysis
end ProjectConsistency
