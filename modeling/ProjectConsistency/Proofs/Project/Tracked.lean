import ProjectConsistency.Analysis
import ProjectConsistency.Proofs.Assoc.Ascending
import ProjectConsistency.Proofs.Project.Comments
import ProjectConsistency.Proofs.Walk.Root

/-!
# Tracked — how a package description is understood

A package description that is tracked as a configuration file is read without its comments, any other
as it stands.  This file defines:

* `Settings.untracking` — settings that do not track a file;
* `Snapshot.understood` — the name, the dependencies and the kind of a project;
* `Analysis.manifestsOf` — the manifests that are read again after a walk;
* `Analysis.AddsNothing` — a manifest says nothing that the others do not.

Both readings of JSON agree (`ConfigFile.ofText_of_parse`), so the project is understood alike unless
the description is JSON with comments.  Then it counts only if it is tracked, and the project is
understood alike just if it adds nothing to the other manifests (`understood_untracking_iff`).
-/

namespace ProjectConsistency

def Settings.untracking (settings : Settings) (file : String) : Settings :=
  { settings with standards := { settings.standards with
      config := { perFile := Assoc.erase file settings.standards.config.perFile } } }

/-- The name, the dependencies and the kind of the project. -/
def Snapshot.understood (s : Snapshot) : String × Option Dependencies × ProjectType :=
  (s.name, s.dependencies, s.projectType)

/-- A list built from its keys holds each of them, and nothing else. -/
theorem Assoc.find?_map_keys {α : Type} (names : List String) (f : String → α) (key : String) :
    find? key (names.map fun name => (name, f name)) = if key ∈ names then some (f key) else none := by
  induction names with
  | nil => rfl
  | cons name rest ih =>
      by_cases hname : name = key
      · subst hname
        simp [find?]
      · simp [find?, hname, ih, Ne.symm hname]

namespace Analysis

open Walk (Event)

/-! ## Manifests -/

section

variable (read : Contents) (walked : Snapshot)

/-- The name that manifests give to the project of a root. -/
def projectName (root : String) (found : List Manifest) : String :=
  (found.findSome? Manifest.name).getD (Snapshot.rootName root)

/-- The manifests at the root other than the package description. -/
def otherManifests : List Manifest :=
  ((readText? read walked Manifest.crateFile).bind Manifest.ofCrate?).toList
    ++ ((readText? read walked Manifest.requirementsFile).map Manifest.ofRequirements).toList

/-- The manifest in the package description, which may be tracked. -/
def packageManifest (rules : ConfigRules) : Option Manifest :=
  if walked.hasFile Manifest.packageFile then
    ofPackage? (Assoc.find? Manifest.packageFile (readConfigFiles rules read walked).configFiles)
      (readText? read walked Manifest.packageFile)
  else none

/-- The manifests that are read after a walk. -/
def manifestsOf (rules : ConfigRules) : List Manifest :=
  (packageManifest read walked rules).toList ++ otherManifests read walked

end

/-- Name and dependencies of the project are the same with and without the manifest. -/
def AddsNothing (root : String) (m : Manifest) (others : List Manifest) : Prop :=
  projectName root (m :: others) = projectName root others ∧
    dependencies? (m :: others) = dependencies? others

/-- The manifest of a package description that is read without its comments. -/
def commentedManifest? (text : String) : Option Manifest :=
  match ConfigFile.ofText text with
  | .parsed value => some (.ofPackage value)
  | .invalid _ => none

/-- The manifest of a package description that is read as it stands. -/
def plainManifest? (text : String) : Option Manifest :=
  (Json.parse text).toOption.map Manifest.ofPackage

section

variable (read : Contents) (walked : Snapshot) {rules : ConfigRules}

/-- A tracked file is read when a rule names it and the walk has seen it. -/
theorem find?_readConfigFiles (rules : ConfigRules) (file : String) :
    Assoc.find? file (readConfigFiles rules read walked).configFiles
      = if file ∈ Assoc.keys rules.perFile ∧ walked.hasFile file = true then
          some (readConfigFile read file)
        else none := by
  rw [readConfigFiles, Assoc.find?_map_keys]
  simp only [List.mem_filter]

/-- A tracked description is read without its comments. -/
theorem packageManifest_of_tracked (h : Manifest.packageFile ∈ Assoc.keys rules.perFile) :
    packageManifest read walked rules
      = (readText? read walked Manifest.packageFile).bind commentedManifest? := by
  rw [packageManifest, find?_readConfigFiles, readText?]
  cases hthere : walked.hasFile Manifest.packageFile with
  | false => rfl
  | true =>
      simp only [h, and_self, if_true]
      cases hread : read Manifest.packageFile with
      | error e => simp [readConfigFile, hread, ofPackage?, Except.toOption]
      | ok content =>
          cases htext : Text.decode? content with
          | none => simp [readConfigFile, hread, configFile, htext, ofPackage?, Except.toOption]
          | some text =>
              simp only [readConfigFile, hread, configFile, htext, Except.toOption, Option.bind_some,
                commentedManifest?]
              cases ConfigFile.ofText text <;> rfl

/-- Any other description is read as it stands. -/
theorem packageManifest_of_untracked (h : Manifest.packageFile ∉ Assoc.keys rules.perFile) :
    packageManifest read walked rules
      = (readText? read walked Manifest.packageFile).bind plainManifest? := by
  rw [packageManifest, find?_readConfigFiles]
  cases hthere : walked.hasFile Manifest.packageFile with
  | false => simp [readText?, hthere]
  | true =>
      simp only [h, false_and, if_false, if_true]
      cases readText? read walked Manifest.packageFile with
      | none => rfl
      | some text => cases hparse : (Json.parse text).toOption <;> simp [ofPackage?, plainManifest?, hparse]

end

/-- The two readings differ only for texts that are JSON with comments, which as they stand have no
manifest. -/
theorem plainManifest?_cases (text : String) :
    plainManifest? text = commentedManifest? text ∧
        (∀ value, ConfigFile.ofText text = .parsed value → (Json.parse text).toOption.isSome = true) ∨
      plainManifest? text = none ∧ (Json.parse text).toOption.isSome = false ∧
        ∃ value, ConfigFile.ofText text = .parsed value := by
  cases hparse : Json.parse text with
  | ok value =>
      refine .inl ⟨?_, fun _ _ => rfl⟩
      rw [plainManifest?, commentedManifest?, hparse, ConfigFile.ofText_of_parse hparse]
      rfl
  | error e =>
      have hplain : plainManifest? text = none := by
        rw [plainManifest?, hparse]
        rfl
      cases hread : ConfigFile.ofText text with
      | invalid message =>
          refine .inl ⟨?_, nofun⟩
          rw [hplain, commentedManifest?, hread]
      | parsed value => exact .inr ⟨hplain, rfl, value, rfl⟩

/-- Both readings come to the same just if JSON with comments adds nothing to the other manifests. -/
theorem readings_agree_iff (root : String) (content : Option String) (others : List Manifest) :
    (projectName root ((content.bind commentedManifest?).toList ++ others)
        = projectName root ((content.bind plainManifest?).toList ++ others) ∧
      dependencies? ((content.bind commentedManifest?).toList ++ others)
        = dependencies? ((content.bind plainManifest?).toList ++ others)) ↔
      ∀ text value, content = some text → ConfigFile.ofText text = .parsed value →
        (Json.parse text).toOption.isSome = true ∨ AddsNothing root (.ofPackage value) others := by
  cases content with
  | none => simp
  | some text =>
      rw [Option.bind_some, Option.bind_some]
      rcases plainManifest?_cases text with ⟨hsame, hplain⟩ | ⟨hnone, hfails, value, hread⟩
      · rw [hsame]
        refine iff_of_true ⟨rfl, rfl⟩ ?_
        rintro _ value ⟨⟩ hread
        exact .inl (hplain value hread)
      · have hcommented : commentedManifest? text = some (.ofPackage value) := by
          rw [commentedManifest?, hread]
        rw [hnone, hcommented]
        constructor
        · rintro hadds _ other ⟨⟩ hother
          rw [hread] at hother
          cases hother
          exact .inr hadds
        · intro h
          have hor := h text value rfl hread
          rw [hfails] at hor
          exact hor.resolve_left (by decide)

/-! ## Snapshots -/

/-- What is understood of a project depends on what is read after the walk. -/
theorem understood_complete (standards : Standards) (read : Contents) (walked : Snapshot) :
    (complete standards read walked).understood
      = (((manifestsOf read walked standards.config).findSome? Manifest.name).getD walked.name,
        dependencies? (manifestsOf read walked standards.config),
        (signals { walked with
          dependencies := dependencies? (manifestsOf read walked standards.config) }).projectType) := by
  have hgather : ∀ package : Option Manifest,
      gather package (readText? read walked Manifest.crateFile)
          (readText? read walked Manifest.requirementsFile)
        = package.toList ++ otherManifests read walked := fun package => by
    rw [gather, otherManifests, List.append_assoc]
  have hmanifests : manifestsOf read walked standards.config = gather
      (packageManifest read walked standards.config) (readText? read walked Manifest.crateFile)
      (readText? read walked Manifest.requirementsFile) := by
    rw [hgather, manifestsOf]
  rw [hmanifests]
  rfl

theorem name_recordAll (rules : StyleRules) (root : String) (events : List Event) :
    (recordAll rules root events).name = Snapshot.rootName root := by
  induction events using List.reverseRecOn with
  | nil => rfl
  | append_singleton events e ih =>
      rw [recordAll, List.foldl_concat, ← recordAll]
      cases e <;> exact ih

/-- After one walk, name, dependencies and kind of the project depend on the manifests alone. -/
theorem understood_complete_eq_iff (a b : Standards) (read : Contents) (rules : StyleRules)
    (root : String) (events : List Event) :
    let walked := recordAll rules root events
    (complete a read walked).understood = (complete b read walked).understood ↔
      projectName root (manifestsOf read walked a.config)
          = projectName root (manifestsOf read walked b.config) ∧
        dependencies? (manifestsOf read walked a.config)
          = dependencies? (manifestsOf read walked b.config) := by
  intro walked
  rw [understood_complete, understood_complete, name_recordAll]
  constructor
  · intro h
    exact ⟨congrArg Prod.fst h, congrArg (fun u => u.2.1) h⟩
  · rintro ⟨hname, hdependencies⟩
    rw [hdependencies]
    exact Prod.ext hname rfl

/-- The directory without links and the events of its walk, or why the analysis fails. -/
def passage (fs : FileSystem) (scanner : ScannerSettings) (root : String) :
    Except Failure (String × List Event) := do
  let filter ← (NameFilter.ofPatterns scanner.exclude).mapError .invalidPattern
  if !fs.isDirectory root then throw (.pathNotFound root)
  let canonical ← (fs.canonical root).mapError .io
  let events := Walk.cut none (Walk.walk fs filter scanner.followLinks root)
  if events.any Event.isCancelled then throw .interrupted
  return (canonical, events)

/-- The rules of the settings decide only what is made of the events, and what is read again. -/
theorem analyze_eq_passage (fs : FileSystem) (settings : Settings) (root : String) :
    analyze fs settings root
      = (passage fs settings.scanner root).map fun found =>
          complete settings.standards (fs.readBelow root)
            (recordAll settings.standards.style found.1 found.2) := by
  rw [analyze, scan, passage]
  cases NameFilter.ofPatterns settings.scanner.exclude with
  | error e => rfl
  | ok filter =>
      cases fs.isDirectory root with
      | false => rfl
      | true =>
          cases fs.canonical root with
          | error e => rfl
          | ok canonical =>
              simp only [Except.mapError, bind, Except.bind, pure, Except.pure]
              cases (Walk.cut none
                (Walk.walk fs filter settings.scanner.followLinks root)).any Event.isCancelled <;> rfl

/-- A project is understood alike whether or not its package description is tracked, just if the
description is JSON, or is none even without its comments, or adds nothing to the other manifests. -/
theorem understood_untracking_iff {settings : Settings}
    (htracked : Manifest.packageFile ∈ Assoc.keys settings.standards.config.perFile)
    (fs : FileSystem) (root : String) :
    let untracking := settings.untracking Manifest.packageFile
    (analyze fs settings root).map Snapshot.understood
        = (analyze fs untracking root).map Snapshot.understood ↔
      ∀ canonical events, passage fs settings.scanner root = .ok (canonical, events) →
        let read := fs.readBelow root
        let walked := recordAll settings.standards.style canonical events
        ∀ text value, readText? read walked Manifest.packageFile = some text →
          ConfigFile.ofText text = .parsed value →
            (Json.parse text).toOption.isSome = true ∨
              AddsNothing canonical (.ofPackage value) (otherManifests read walked) := by
  intro untracking
  have huntracked : Manifest.packageFile ∉ Assoc.keys untracking.standards.config.perFile := by
    rw [← Assoc.isSome_find?_iff]
    simp [untracking, Settings.untracking, Assoc.find?_erase]
  have hscanner : untracking.scanner = settings.scanner := rfl
  have hstyle : untracking.standards.style = settings.standards.style := rfl
  rw [analyze_eq_passage, analyze_eq_passage, hscanner, hstyle]
  cases passage fs settings.scanner root with
  | error failure => simp [Except.map]
  | ok place =>
      obtain ⟨canonical, events⟩ := place
      -- Both analyses walk the same, since neither the scanner nor the style rules changed.
      have hpassage : ∀ {p : String → List Event → Prop}, p canonical events ↔
          ∀ c e, Except.ok (canonical, events) = (.ok (c, e) : Except Failure _) → p c e := by
        intro p
        constructor
        · rintro h c e heq
          cases heq
          exact h
        · exact fun h => h canonical events rfl
      rw [← hpassage]
      simp only [Except.map, Except.ok.injEq]
      -- What remains is how the one manifest is read, in either way.
      refine (understood_complete_eq_iff _ _ _ _ _ _).trans ?_
      rw [manifestsOf, manifestsOf, packageManifest_of_tracked _ _ htracked,
        packageManifest_of_untracked _ _ huntracked]
      exact readings_agree_iff canonical _ _

/-! ## Samples -/

def described (description requirements : String) : FileSystem where
  tree := .directory [("app", .directory [
    ("package.json", .file description.toUTF8), ("requirements.txt", .file requirements.toUTF8)])]

def trackingSettings : Settings where
  scanner := { exclude := [] }

theorem passage_described (description requirements : String) :
    passage (described description requirements) trackingSettings.scanner "/app"
      = .ok ("/app", [.file ["package.json"] description.toUTF8,
          .file ["requirements.txt"] requirements.toUTF8]) := by
  have hsorted : (described description requirements).tree.sorted
      = (described description requirements).tree := by
    simp [described, Node.sorted, Node.sortedEntries, List.mergeSort, Node.inOrder_eq,
      RawName.isText, RawName.mark]
  have hwalk : Walk.walk (described description requirements) ⟨[], []⟩ true "/app"
      = [.file ["package.json"] description.toUTF8,
          .file ["requirements.txt"] requirements.toUTF8] := by
    rw [Walk.walk_of_sorted hsorted rfl]
    rfl
  have hfilter : NameFilter.ofPatterns trackingSettings.scanner.exclude = .ok ⟨[], []⟩ := rfl
  have hfollow : trackingSettings.scanner.followLinks = true := rfl
  have hdirectory : (described description requirements).isDirectory "/app" = true := rfl
  have hcanonical : (described description requirements).canonical "/app" = .ok "/app" := rfl
  rw [passage, hfilter, hfollow, hdirectory, hcanonical]
  simp only [Except.mapError, bind, Except.bind, hwalk]
  rfl

/-- A description that is JSON with a comment, and declares nothing. -/
theorem understood_untracking_iff_empty :
    let fs := described "// Nothing yet.\r\n\x7b\x7d" "flask>=3\n"
    (analyze fs trackingSettings "/app").map Snapshot.understood
      = (analyze fs (trackingSettings.untracking "package.json") "/app").map Snapshot.understood := by
  intro fs
  refine (understood_untracking_iff (by decide) fs "/app").2 ?_
  intro canonical events hpassage read walked text value htext hread
  rw [passage_described] at hpassage
  cases hpassage
  have heq : readText? read walked "package.json" = some "// Nothing yet.\r\n\x7b\x7d" := by
    decide +kernel
  obtain rfl : "// Nothing yet.\r\n\x7b\x7d" = text := Option.some.inj (heq.symm.trans htext)
  have hvalue : ConfigFile.ofText "// Nothing yet.\r\n\x7b\x7d" = .parsed (.object []) := by rfl
  rw [hvalue] at hread
  cases hread
  exact .inr ⟨by decide +kernel, by decide +kernel⟩

/-- With a comment in the description, the name, the dependencies and the kind of the project all
depend on whether the description is tracked. -/
theorem understood_differently :
    let fs := described ("// The shop.\n\x7b\"name\": \"shop\", "
      ++ "\"dependencies\": \x7b\"react\": \"1\"\x7d\x7d") ""
    (analyze fs trackingSettings "/app").map Snapshot.understood
        = .ok ("shop", some ⟨[("react", "1")], []⟩, .web) ∧
      (analyze fs (trackingSettings.untracking "package.json") "/app").map Snapshot.understood
        = .ok ("app", some ⟨[], []⟩, .aiMl) := by
  intro fs
  have huntracking : (trackingSettings.untracking "package.json").scanner
      = trackingSettings.scanner := rfl
  rw [analyze_eq_passage, analyze_eq_passage, huntracking, passage_described]
  exact ⟨congrArg Except.ok (by decide +kernel), congrArg Except.ok (by decide +kernel)⟩

end Analysis
end ProjectConsistency
