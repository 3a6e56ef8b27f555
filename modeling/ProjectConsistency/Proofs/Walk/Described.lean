import ProjectConsistency.Analysis
import ProjectConsistency.Proofs.Assoc.Ascending
import ProjectConsistency.Proofs.Path.Names
import ProjectConsistency.Proofs.Project.Groups
import ProjectConsistency.Proofs.Walk.Spread

/-!
# Described — what an analysis comes to

An analysis fills a snapshot event by event, and then reads files again by their names.  This file
defines:

* `Analysis.describe` — a snapshot as a function of its root and of the events of a walk;
* `Analysis.Holds` — what is read by a name is what the walk came upon.

If no path is reported twice, recording all events gives the part of the description that needs nothing
else (`recordAll_eq`).  What is read again is gated by the files that were recorded, and what it gives
was in the events already, since below the root a walk comes upon what its paths lead to
(`holds_readBelow`).  So the analysis describes the events (`complete_recordAll`).
-/

namespace ProjectConsistency

open FileSystem Walk

/-! ## Parts of events -/

namespace Walk.Event

def directory? : Event → Option String
  | directory path => some (pathText path)
  | _ => none

def file? : Event → Option (String × ByteArray)
  | file path content => some (pathText path, content)
  | _ => none

def unreadable? : Event → Option (String × String)
  | unreadable path reason => some (pathText path, reason.text)
  | _ => none

theorem eq_of_directory? {e : Event} {text : String} (h : e.directory? = some text) :
    ∃ path, e = .directory path ∧ text = pathText path := by
  cases e with
  | directory path => exact ⟨path, rfl, (Option.some.inj h).symm⟩
  | file _ _ => cases h
  | unreadable _ _ => cases h
  | cancelled => cases h

theorem eq_of_file? {e : Event} {entry : String × ByteArray} (h : e.file? = some entry) :
    ∃ path, e = .file path entry.2 ∧ entry.1 = pathText path := by
  cases e with
  | file path content =>
      cases h
      exact ⟨path, rfl, rfl⟩
  | directory _ => cases h
  | unreadable _ _ => cases h
  | cancelled => cases h

end Walk.Event

namespace Analysis

open Walk.Event

/-! ## Descriptions -/

/-- The files that a walk came upon, by path. -/
abbrev Files := List (String × ByteArray)

def sources (rules : StyleRules) (files : Files) : List (String × String) :=
  files.filterMap fun (path, content) => (source? rules path content).map ((path, ·))

def configFiles (rules : ConfigRules) (files : Files) : List (String × ConfigFile) :=
  (Assoc.keys rules.perFile).filterMap fun name =>
    (Assoc.find? name files).map fun content => (name, configFile content)

def text? (files : Files) (path : String) : Option String :=
  (Assoc.find? path files).bind Text.decode?

def packageManifest? (tracked : List (String × ConfigFile)) (files : Files) : Option Manifest :=
  ofPackage? (Assoc.find? Manifest.packageFile tracked) (text? files Manifest.packageFile)

/-- The manifests at the root that can be read. -/
def manifests (tracked : List (String × ConfigFile)) (files : Files) : List Manifest :=
  gather (packageManifest? tracked files) (text? files Manifest.crateFile)
    (text? files Manifest.requirementsFile)

def readme? (files : Files) : Option Readme :=
  (files.find? fun (path, _) => isReadme path).map fun (path, content) =>
    { path, content := Text.decodeLossy content }

/-- The sum of the sizes of files, as a 64-bit number. -/
def sizeOf (files : Files) : UInt64 :=
  files.foldl (fun n (_, content) => n + content.size.toUInt64) 0

/-- What is known of a root when the events of its walk have been recorded. -/
def recorded (rules : StyleRules) (root : String) (events : List Event) : Snapshot :=
  let files := events.filterMap file?
  { root
    name := Snapshot.rootName root
    directories := events.filterMap directory?
    files := files.map Prod.fst
    maxDepth := (events.map depth).foldl max 0
    totalSize := sizeOf files
    filesByExtension := groupsOf extensionOf? (files.map Prod.fst)
    filesByType := groupsOf (fun file => some (FileType.ofPath file)) (files.map Prod.fst)
    unreadable := events.filterMap unreadable?
    sources := sources rules files }

/-- The snapshot of a root, given without links, and of what a walk reports. -/
def describe (standards : Standards) (root : String) (events : List Event) : Snapshot :=
  let files := events.filterMap file?
  let tracked := configFiles standards.config files
  let found := manifests tracked files
  withProjectType {
    recorded standards.style root events with
    name := (found.findSome? Manifest.name).getD (Snapshot.rootName root)
    dependencies := dependencies? found
    configFiles := tracked
    readme := readme? files }

/-! ## Recording -/

theorem root_recordAll (rules : StyleRules) (root : String) (events : List Event) :
    (recordAll rules root events).root = root := by
  induction events using List.reverseRecOn with
  | nil => rfl
  | append_singleton events e ih =>
      rw [recordAll, List.foldl_concat, ← recordAll]
      cases e <;> exact ih

@[simp] theorem root_complete (standards : Standards) (read : Contents) (s : Snapshot) :
    (complete standards read s).root = s.root := rfl

/-- A key that is new is set at the end. -/
theorem put_eq_append {α : Type} {key : String} {entries : List (String × α)}
    (h : key ∉ Assoc.keys entries) (value : α) :
    Assoc.put key value entries = entries ++ [(key, value)] := by
  induction entries with
  | nil => rfl
  | cons entry rest ih =>
      obtain ⟨k, v⟩ := entry
      obtain ⟨hne, hrest⟩ : key ≠ k ∧ key ∉ Assoc.keys rest := by simpa [Assoc.keys] using h
      simp [Assoc.put, Ne.symm hne, ih hrest]

/-- Only files have sources. -/
theorem keys_sources_subset (rules : StyleRules) (files : Files) :
    ∀ path ∈ Assoc.keys (sources rules files), path ∈ files.map Prod.fst := by
  intro path hpath
  obtain ⟨⟨_, text⟩, hentry, rfl⟩ := List.mem_map.1 hpath
  obtain ⟨file, hfile, hsome⟩ := List.mem_filterMap.1 hentry
  obtain ⟨_, _, heq⟩ := Option.map_eq_some_iff.1 hsome
  cases heq
  exact List.mem_map.2 ⟨file, hfile, rfl⟩

/-- The text of one more file comes after the others. -/
theorem put_source (rules : StyleRules) {files : Files} {path : String}
    (hnew : path ∉ files.map Prod.fst) (content : ByteArray) :
    (match source? rules path content with
      | some text => Assoc.put path text (sources rules files)
      | none => sources rules files) = sources rules (files ++ [(path, content)]) := by
  have hsource : path ∉ Assoc.keys (sources rules files) :=
    fun hmem => hnew (keys_sources_subset rules files path hmem)
  have happend : sources rules (files ++ [(path, content)])
      = sources rules files ++ sources rules [(path, content)] := List.filterMap_append
  rw [happend]
  cases htext : source? rules path content with
  | none => simp [sources, htext]
  | some text =>
      dsimp only
      rw [put_eq_append hsource]
      simp [sources, htext]

/-- One more file is recorded. -/
theorem recordEntry_file (rules : StyleRules) (root : String) {events : List Event}
    {path : List String} (hnew : pathText path ∉ (events.filterMap file?).map Prod.fst)
    (content : ByteArray) :
    recordEntry rules (recorded rules root events) (.file path content)
      = recorded rules root (events ++ [.file path content]) := by
  have hsources := put_source rules hnew content
  cases hext : extensionOf? (pathText path) with
  | none =>
      simp [recordEntry, recordFile, recorded, file?, directory?, unreadable?, depth, sizeOf, groupsOf,
        hext]
      exact hsources
  | some ext =>
      simp [recordEntry, recordFile, recorded, file?, directory?, unreadable?, depth, sizeOf, groupsOf,
        hext]
      exact hsources

/-- Recording all events, no two of them about one file, fills the snapshot with what they report. -/
theorem recordAll_eq (rules : StyleRules) (root : String) {events : List Event}
    (hnodup : ((events.filterMap file?).map Prod.fst).Nodup) :
    recordAll rules root events = recorded rules root events := by
  induction events using List.reverseRecOn with
  | nil => rfl
  | append_singleton events e ih =>
      rw [List.filterMap_append, List.map_append] at hnodup
      obtain ⟨hbefore, _, hapart⟩ := List.nodup_append.1 hnodup
      rw [recordAll, List.foldl_concat, ← recordAll, ih hbefore]
      cases e with
      | file path content =>
          refine recordEntry_file rules root (fun hmem => ?_) content
          exact hapart _ hmem (pathText path) (by simp [file?]) rfl
      | directory path =>
          simp [recordEntry, recorded, List.filterMap_cons, file?, directory?, unreadable?, depth]
      | unreadable path reason =>
          simp [recordEntry, recorded, List.filterMap_cons, file?, directory?, unreadable?, depth]
      | cancelled =>
          simp [recordEntry, recorded, List.filterMap_cons, file?, directory?, unreadable?, depth]

/-! ## Reading again -/

/-- What is read by a name is what the walk came upon. -/
def Holds (read : Contents) (files : Files) : Prop :=
  ∀ file ∈ files, read file.1 = .ok file.2

section

variable {read : Contents} {files : Files} {s : Snapshot}

/-- A file that was recorded was come upon, and holds what is read. -/
theorem Holds.find? (hread : Holds read files) (hs : s.files = files.map Prod.fst) (name : String) :
    (s.hasFile name = true ∧ ∃ content, Assoc.find? name files = some content ∧
      read name = .ok content) ∨ (s.hasFile name = false ∧ Assoc.find? name files = none) := by
  cases hfind : Assoc.find? name files with
  | none =>
      refine .inr ⟨?_, rfl⟩
      have hnone : name ∉ Assoc.keys files := by
        rw [← Assoc.isSome_find?_iff, hfind]
        simp
      simpa [Snapshot.hasFile, hs, Assoc.keys] using hnone
  | some content =>
      have hmem := Assoc.mem_of_find? hfind
      refine .inl ⟨?_, content, rfl, hread _ hmem⟩
      rw [Snapshot.hasFile, hs]
      exact List.contains_iff_mem.2 (List.mem_map.2 ⟨_, hmem, rfl⟩)

/-- Reading a listed file by name gives the content that the walk has seen. -/
theorem Holds.readText?_eq (hread : Holds read files) (hs : s.files = files.map Prod.fst)
    (name : String) : readText? read s name = text? files name := by
  rcases hread.find? hs name with ⟨hthere, content, hfind, hcontent⟩ | ⟨hnone, hfind⟩
  · simp [readText?, text?, hthere, hfind, hcontent, Except.toOption]
  · simp [readText?, text?, hnone, hfind]

/-- The tracked files are read as the walk has seen them. -/
theorem Holds.readConfigFiles_eq (hread : Holds read files) (hs : s.files = files.map Prod.fst)
    (rules : ConfigRules) :
    readConfigFiles rules read s = { s with configFiles := configFiles rules files } := by
  have htracked : ((Assoc.keys rules.perFile).filter s.hasFile).map
      (fun name => (name, readConfigFile read name)) = configFiles rules files := by
    rw [configFiles, ← List.filterMap_eq_map, ← List.filterMap_eq_filter, List.filterMap_filterMap]
    refine List.filterMap_congr fun name _ => ?_
    rcases hread.find? hs name with ⟨hthere, content, hfind, hcontent⟩ | ⟨hnone, hfind⟩
    · simp [hthere, hfind, hcontent, readConfigFile]
    · simp [hnone, hfind]
  rw [readConfigFiles, htracked]

/-- The manifests are read as the walk has seen them. -/
theorem Holds.readManifests_eq (hread : Holds read files) (hs : s.files = files.map Prod.fst)
    (htracked : ∀ name, s.hasFile name = false → Assoc.find? name s.configFiles = none) :
    readManifests read s = { s with
      name := ((manifests s.configFiles files).findSome? Manifest.name).getD s.name
      dependencies := dependencies? (manifests s.configFiles files) } := by
  have hpackage : (if s.hasFile Manifest.packageFile then
        ofPackage? (Assoc.find? Manifest.packageFile s.configFiles)
          (text? files Manifest.packageFile)
      else none) = packageManifest? s.configFiles files := by
    rw [packageManifest?]
    cases hthere : s.hasFile Manifest.packageFile with
    | true => rfl
    | false =>
        -- Without the file there is nothing to read in either way.
        have hnone : text? files Manifest.packageFile = none := by
          rw [← hread.readText?_eq hs]
          simp [readText?, hthere]
        rw [htracked _ hthere, hnone]
        rfl
  simp only [readManifests, hread.readText?_eq hs, hpackage, manifests]

/-- The readme is read as the walk has seen it. -/
theorem Holds.readReadme_eq (hread : Holds read files) (hs : s.files = files.map Prod.fst) :
    readReadme read s = { s with readme := readme? files } := by
  have hreadme : (do
      let path ← s.files.find? isReadme
      let content ← (read path).toOption
      some { path, content := Text.decodeLossy content }) = readme? files := by
    have hfind : s.files.find? isReadme = (files.find? fun (path, _) => isReadme path).map Prod.fst := by
      rw [hs, List.find?_map]
      rfl
    rw [hfind, readme?]
    cases hfirst : files.find? fun (path, _) => isReadme path with
    | none => rfl
    | some file =>
        have hcontent := hread file (List.mem_of_find?_eq_some hfirst)
        simp [hcontent, Except.toOption]
  rw [readReadme, hreadme]

end

/-- A file that is not there is not tracked. -/
theorem find?_configFiles_eq_none {rules : ConfigRules} {files : Files} {name : String}
    (hnone : Assoc.find? name files = none) :
    Assoc.find? name (configFiles rules files) = none := by
  by_contra hsome
  have hkey := (Assoc.isSome_find?_iff name (configFiles rules files)).1
    (Option.isSome_iff_ne_none.2 hsome)
  obtain ⟨entry, hentry, rfl⟩ := List.mem_map.1 hkey
  obtain ⟨tracked, _, heq⟩ := List.mem_filterMap.1 hentry
  obtain ⟨content, hfind, rfl⟩ := Option.map_eq_some_iff.1 heq
  simp [hnone] at hfind

/-- What is found out after the walk is found in the events, if the files are read as they were come
upon. -/
theorem complete_recorded {read : Contents} {events : List Event}
    (hread : Holds read (events.filterMap file?)) (standards : Standards) (root : String) :
    complete standards read (recorded standards.style root events) = describe standards root events := by
  have htracked : ∀ name, (recorded standards.style root events).hasFile name = false →
      Assoc.find? name (configFiles standards.config (events.filterMap file?)) = none := by
    intro name hname
    rcases hread.find? (s := recorded standards.style root events) rfl name with
      ⟨hthere, _⟩ | ⟨_, hfind⟩
    · cases hname.symm.trans hthere
    · exact find?_configFiles_eq_none hfind
  rw [complete, hread.readConfigFiles_eq rfl, hread.readManifests_eq rfl htracked,
    hread.readReadme_eq rfl]
  rfl

/-! ## Walks -/

section

variable {fs : FileSystem} {path : String} {root : Location} {entries : List (String × Node)}

/-- The events of a walk are proper. -/
theorem proper_walk (hfs : fs.tree.WellFormed) (filter : NameFilter) (followLinks : Bool)
    (path : String) : ∀ e ∈ walk fs filter followLinks path, e.Proper := by
  intro e he
  rcases walk_cases fs filter followLinks path with ⟨reason, hwalk⟩ | ⟨root, node, hlocate, hwalk⟩
  · rw [hwalk] at he
    obtain rfl : e = .unreadable [] reason := by simpa using he
    exact ⟨rfl, by simp [Event.path], by simp [shape?]⟩
  · rw [hwalk, Plan.run, entries_ofRoot hfs hlocate] at he
    have hwell : node.sorted.WellFormed := (hfs.of_get? (get?_of_locate hlocate)).sorted
    exact proper_enter hfs.sorted _ (wellFormed_entries hwell) (by simp) e he

/-- The texts of reported paths are as different as the paths. -/
theorem nodup_texts {events : List Event} {text? : Event → Option String}
    (htext : ∀ e text, text? e = some text → text = pathText e.path ∧ (e.shape?).isSome)
    (hproper : ∀ e ∈ events, e.Proper) (hdistinct : events.Pairwise fun a b => a.path ≠ b.path) :
    (events.filterMap text?).Nodup := by
  refine List.pairwise_filterMap.2 (hdistinct.imp_of_mem ?_)
  intro a b ha hb hne text htext₁ text' htext₂ heq
  obtain ⟨rfl, hshape₁⟩ := htext a text htext₁
  obtain ⟨rfl, hshape₂⟩ := htext b text' htext₂
  have hproper₁ := hproper a ha
  have hproper₂ := hproper b hb
  exact hne (pathText_injective (hproper₁.ne_nil hshape₁) (hproper₂.ne_nil hshape₂) hproper₁.plain
    hproper₂.plain heq)

/-- Events at different paths list directories and files each once. -/
theorem nodup_listed {events : List Event} (hproper : ∀ e ∈ events, e.Proper)
    (hdistinct : events.Pairwise fun a b => a.path ≠ b.path) :
    (events.filterMap directory?).Nodup ∧ ((events.filterMap file?).map Prod.fst).Nodup := by
  refine ⟨?_, ?_⟩
  · refine nodup_texts ?_ hproper hdistinct
    intro e text hsome
    rcases eq_of_directory? hsome with ⟨p, rfl, rfl⟩
    exact ⟨rfl, rfl⟩
  · rw [List.map_filterMap]
    refine nodup_texts ?_ hproper hdistinct
    intro e text hsome
    rcases Option.map_eq_some_iff.1 hsome with ⟨entry, hentry, rfl⟩
    rcases eq_of_file? hentry with ⟨p, rfl, htext⟩
    exact ⟨htext, rfl⟩

section

variable (hfs : fs.tree.WellFormed) (hlocate : fs.locate true path = .ok (root, .directory entries))

include hfs hlocate

/-- The files that a walk reports are read as it came upon them. -/
theorem holds_readBelow (filter : NameFilter) (followLinks : Bool) :
    Holds (fs.readBelow path) ((walk fs filter followLinks path).filterMap file?) := by
  intro file hfile
  obtain ⟨e, he, hsome⟩ := List.mem_filterMap.1 hfile
  obtain ⟨names, rfl, htext⟩ := eq_of_file? hsome
  have hproper := proper_walk hfs filter followLinks path _ he
  have hnames : namesOf file.1 = names := by
    rw [htext]
    exact namesOf_pathText hproper.plain
  obtain ⟨at', node, hshape, hway, _⟩ := found_walk hfs hlocate rfl he rfl
  -- Its path leads to the file that was reported.
  cases node with
  | file content =>
      obtain rfl : content = file.2 := by simpa [Node.shape] using hshape
      rw [Event.path, ← hnames] at hway
      rw [readBelow, follow_of_leads hway]
      rfl
  | directory _ => cases hshape
  | link _ => cases hshape

/-- The analysis of a directory describes the events of its walk. -/
theorem complete_recordAll (standards : Standards) (text : String) (filter : NameFilter)
    (followLinks : Bool) :
    let events := walk fs filter followLinks path
    complete standards (fs.readBelow path) (recordAll standards.style text events)
      = describe standards text events := by
  intro events
  have hnodup := (nodup_listed (proper_walk hfs filter followLinks path)
    (spread_walk hfs hlocate filter followLinks).distinct).2
  rw [recordAll_eq _ _ hnodup]
  exact complete_recorded (holds_readBelow hfs hlocate filter followLinks) standards text

end

end

end Analysis
end ProjectConsistency
