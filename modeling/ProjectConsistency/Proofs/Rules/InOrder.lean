import ProjectConsistency.Proofs.Fix.CreationPlan
import ProjectConsistency.Proofs.Standards.Collections

/-!
# InOrder — in which order directories and configuration files are reported

This file defines:

* `newDirectories` — the directories that issues ask for;
* `configTargets` — the configuration files that issues are about.

The rules go through their collections from the first key to the last, so missing directories are
asked for in the order of the keys (`newDirectories_evaluate`), and the issues about configuration
files stand file by file (`configTargets_evaluate`).  Loaded collections have their keys in ascending
order, wherever the document writes them, so the issues come out in this order as well and not in
that of the document (`loaded_in_order_of_keys`).
-/

namespace ProjectConsistency
namespace Rules

variable {s : Snapshot} {standards : Standards}

/-- The directories that issues ask for, in the order of the issues. -/
def newDirectories (issues : List Issue) : List String :=
  ((issues.filterMap Creation.ofIssue?).filter Creation.isDirectory).map Creation.path

/-- The configuration files that issues are about, in the order of the issues. -/
def configTargets (issues : List Issue) : List String :=
  (issues.filter fun issue => issue.category = .configuration).filterMap Issue.target

/-! ## Directories -/

/-- Directories that are not there are asked for in the order of the rules. -/
theorem newDirectories_evaluate (s : Snapshot) (standards : Standards) :
    newDirectories (evaluate s standards)
      = ((Assoc.keys standards.structural.requiredDirectories).map dropTrailingSlashes).filter
          fun path => !s.hasDirectory path := by
  have hfiles : ∀ paths : List String,
      ((paths.map Creation.file).filter fun c => !c.isListed s).filter Creation.isDirectory = [] := by
    intro paths
    rw [List.filter_map, List.filter_map]
    simp [Creation.isDirectory, Function.comp_def]
  have hdirectories : ∀ entries : List (String × String),
      (((entries.map fun entry => Creation.directory (dropTrailingSlashes entry.1)).filter
        fun c => !c.isListed s).filter Creation.isDirectory).map Creation.path
        = ((Assoc.keys entries).map dropTrailingSlashes).filter fun path => !s.hasDirectory path := by
    intro entries
    simp [Assoc.keys, List.filter_map, Function.comp_def, Creation.isDirectory, Creation.isListed,
      Creation.path]
  -- Of the four lists that are asked for, only the first one makes directories.
  rw [newDirectories, Creation.asked_eq, Creation.requested]
  simp only [List.filter_append, hfiles, hdirectories, List.append_nil]

/-! ## Configuration files -/

def configIssues (s : Snapshot) (entry : String × ConfigFileRule) : Nat :=
  (Assoc.find? entry.1 s.configFiles).elim 0
    fun found => (Configuration.checkFile entry.1 entry.2 found).length

/-- All issues of a configuration file are about it. -/
theorem filterMap_target_checkFile (file : String) (rule : ConfigFileRule) (found : ConfigFile) :
    (Configuration.checkFile file rule found).filterMap Issue.target
      = List.replicate (Configuration.checkFile file rule found).length file := by
  cases found with
  | invalid reason => rfl
  | parsed value =>
      simp only [Configuration.checkFile, List.filterMap_map, List.length_map]
      induction Configuration.missingKeys rule value with
      | nil => rfl
      | cons key rest ih =>
          rw [List.length_cons, List.replicate_succ, ← ih]
          rfl

/-- The issues about configuration files stand file by file, in the order of the rules. -/
theorem configTargets_evaluate (s : Snapshot) (standards : Standards) :
    configTargets (evaluate s standards)
      = standards.config.perFile.flatMap fun entry =>
          List.replicate (configIssues s entry) entry.1 := by
  have hfamily : (evaluate s standards).filter (fun issue => decide (issue.category = .configuration))
      = Configuration.check s standards := filter_evaluate s standards .configuration
  rw [configTargets, hfamily, Configuration.check, List.filterMap_flatMap]
  -- Both sides go through the rules, so one file is left to look at.
  refine List.flatMap_congr ?_
  rintro ⟨file, rule⟩ _
  dsimp only [configIssues]
  cases Assoc.find? file s.configFiles with
  | none => rfl
  | some found => exact filterMap_target_checkFile file rule found

/-- If the rules stand in ascending order, so do the files. -/
theorem pairwise_configTargets (h : Assoc.Ascending standards.config.perFile) (s : Snapshot) :
    (configTargets (evaluate s standards)).Pairwise (· ≤ ·) := by
  rw [configTargets_evaluate, List.pairwise_flatMap]
  -- Within a file all targets are the same, and from file to file the names ascend.
  refine ⟨?_, ?_⟩
  · intro entry _
    exact List.pairwise_replicate.2 (.inr le_rfl)
  · refine (List.pairwise_map.1 h).imp ?_
    intro first second hlt x hx y hy
    rw [List.eq_of_mem_replicate hx, List.eq_of_mem_replicate hy]
    exact hlt.le

/-! ## Loaded settings -/

open Standards in
/--
The directories and the configuration files of a document that is loaded have the keys that the
document and its preset write, in ascending order.  For every snapshot, issues come out in this order.
-/
theorem loaded_in_order_of_keys {docs : Documents} {asked : Option String} {path content : String}
    {document : Toml} {loaded : Loaded} (hread : docs.read path = .ok content)
    (hparse : parseDocument path content = .ok document)
    (hload : loadFrom docs asked path = .ok loaded) :
    let rules := loaded.settings.standards
    Collection.directories.Filled (baseOf asked document) document rules ∧
      Collection.configFiles.Filled (baseOf asked document) document rules ∧
      ∀ s, newDirectories (evaluate s rules)
          = ((Assoc.keys rules.structural.requiredDirectories).map dropTrailingSlashes).filter
              (fun path => !s.hasDirectory path) ∧
        (configTargets (evaluate s rules)).Pairwise (· ≤ ·) := by
  intro rules
  have haccepted : Accepted asked loaded := .document hload
  have hordered := ordered_of_parseDocument hparse
  have hresolve := resolve_of_loadFrom hread hparse hload
  refine ⟨Collection.filled_of_resolve hordered hresolve haccepted.sound,
    Collection.filled_of_resolve hordered hresolve haccepted.sound, ?_⟩
  intro s
  exact ⟨newDirectories_evaluate s rules, pairwise_configTargets haccepted.sound.configFiles s⟩

def addingText : String :=
  "preset = \"strict\"\n[structureRules.requiredDirectories]\napi = \"Interface\"\n"

open Standards in
theorem loaded_in_order_of_keys_adding :
    ∃ loaded, loadFrom (oneDocument addingText) none "/s.toml" = .ok loaded ∧
      "api" ∈ Assoc.keys loaded.settings.standards.structural.requiredDirectories ∧
      "src" ∈ Assoc.keys loaded.settings.standards.structural.requiredDirectories ∧
      loaded.settings.standards.config.perFile = ({} : ConfigRules).perFile ∧
      ∀ s, (configTargets (evaluate s loaded.settings.standards)).Pairwise (· ≤ ·) := by
  obtain ⟨loaded, hload, _⟩ := ok_of_any (x := loadFrom (oneDocument addingText) none "/s.toml")
    (p := fun _ => True) (by decide +kernel)
  obtain ⟨document, hparse, hown, hunder, hnone, hbelow⟩ := ok_of_any
    (x := parseDocument "/s.toml" addingText)
    (p := fun document =>
      ((Collection.directories.written document).bind (Toml.find? "api")).isSome ∧
      ((Collection.directories.under (baseOf none document) document).bind
        (Toml.find? "src")).isSome ∧
      (Collection.configFiles.written document).isNone ∧
      (Collection.configFiles.under (baseOf none document) document).isNone)
    (by decide +kernel)
  have hread : (oneDocument addingText).read "/s.toml" = .ok addingText := rfl
  obtain ⟨hdirectories, hconfig, horder⟩ := loaded_in_order_of_keys hread hparse hload
  have hwritten := hdirectories.written (.inl (Option.isSome_of_isSome_bind hown))
  refine ⟨loaded, hload, (hwritten "api").2 (.inl hown), (hwritten "src").2 (.inr hunder), ?_, ?_⟩
  · exact hconfig.builtIn (Option.isNone_iff_eq_none.1 hnone) (Option.isNone_iff_eq_none.1 hbelow)
  · exact fun s => (horder s).2

def oneJsonDocument (content : String) : Standards.Documents where
  exists? path := path = "/s.json"
  read _ := .ok content
  userFolder := none

open Standards in
/-- The order of a document is lost, in TOML as in JSON, and what it adds to its preset does not come
after what the preset has. -/
theorem loaded_out_of_order :
    (∃ loaded, loadFrom (oneDocument ("[structureRules.requiredDirectories]\nsrc = \"Source\"\n"
          ++ "docs = \"Docs\"\n")) none "/s.toml" = .ok loaded ∧
        Assoc.keys loaded.settings.standards.structural.requiredDirectories = ["docs", "src"] ∧
        newDirectories (evaluate (.empty "/app") loaded.settings.standards) = ["docs", "src"]) ∧
      (∃ loaded, loadFrom (oneDocument addingText) none "/s.toml" = .ok loaded ∧
        Assoc.keys loaded.settings.standards.structural.requiredDirectories
          = ["api", "docs", "src", "tests"]) ∧
      ∃ loaded, loadFrom (oneJsonDocument
          "\x7b\"configRules\":\x7b\"perFile\":\x7b\"b.json\":[],\"a.json\":[]\x7d\x7d\x7d") none
            "/s.json" = .ok loaded ∧
        Assoc.keys loaded.settings.standards.config.perFile = ["a.json", "b.json"] :=
  ⟨ok_of_any (by decide +kernel), ok_of_any (by decide +kernel), ok_of_any (by decide +kernel)⟩

end Rules
end ProjectConsistency
