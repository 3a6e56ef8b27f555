import ProjectConsistency.Proofs.Path.Names
import ProjectConsistency.Proofs.Rules.Families
import ProjectConsistency.Proofs.Standards.RequiredKeys

/-!
# MissingKeys — how often a missing key is reported

This file defines:

* `Issue.isMissingKey` — the issue is that a file does not define a key;
* `timesMissing` — how often a rule requires a key that its file does not define.

A missing key is reported as often as the rule of its file requires it (`countP_evaluate`), and for
some snapshot every required key is missing.  So keys are reported once just if the rules repeat none,
which is a matter of the document and the preset below it (`missingKeys_once_iff`).
-/

namespace ProjectConsistency

/-- The issue is that the file does not define the key. -/
def Issue.isMissingKey (file key : String) (issue : Issue) : Bool :=
  Severity.all.any fun severity => issue = Rules.Configuration.missingKey file severity key

namespace Rules

open Rules.Configuration

variable {s : Snapshot} {standards : Standards} {file key : String}

/-! ## One file -/

theorem isMissingKey_iff {issue : Issue} :
    issue.isMissingKey file key = true ↔ ∃ severity, issue = missingKey file severity key := by
  rw [Issue.isMissingKey, List.any_eq_true]
  constructor
  · rintro ⟨severity, _, h⟩
    exact ⟨severity, by simpa using h⟩
  · rintro ⟨severity, h⟩
    exact ⟨severity, by cases severity <;> decide, by simpa using h⟩

/-- A report of a missing key tells the file and the key. -/
theorem isMissingKey_missingKey {other name : String} {severity : Severity} :
    (missingKey other severity name).isMissingKey file key = true ↔ other = file ∧ name = key := by
  rw [isMissingKey_iff]
  constructor
  · rintro ⟨_, h⟩
    obtain rfl : other = file := Option.some.inj (congrArg Issue.target h)
    have hmessage : "`" ++ other ++ "` is missing required key `" ++ name ++ "`"
        = "`" ++ other ++ "` is missing required key `" ++ key ++ "`" := congrArg Issue.message h
    exact ⟨rfl, (String.append_right_inj _).1 ((String.append_left_inj _).1 hmessage)⟩
  · rintro ⟨rfl, rfl⟩
    exact ⟨severity, rfl⟩

theorem isMissingKey_invalidFile (other reason : String) :
    (invalidFile other reason).isMissingKey file key = false := by
  rw [Bool.eq_false_iff, ne_eq, isMissingKey_iff]
  rintro ⟨_, h⟩
  -- The suggestions begin with different letters.
  have hfirst := congrArg (fun issue : Issue => issue.suggestion.map (·.toList.head?)) h
  simp [invalidFile, missingKey] at hfirst

/-- What is missing in a file is reported as often as it is required. -/
theorem countP_checkFile (other : String) (rule : ConfigFileRule) (found : ConfigFile) :
    (checkFile other rule found).countP (·.isMissingKey file key)
      = match found with
        | .parsed value => if other = file then (missingKeys rule value).count key else 0
        | .invalid _ => 0 := by
  cases found with
  | invalid reason => simp [checkFile, isMissingKey_invalidFile]
  | parsed value =>
      change ((missingKeys rule value).map (missingKey other rule.severity)).countP _
        = if other = file then (missingKeys rule value).count key else 0
      rw [List.countP_map]
      by_cases hother : other = file
      · rw [if_pos hother, List.count]
        refine List.countP_congr ?_
        intro name _
        simp [isMissingKey_missingKey, hother]
      · rw [if_neg hother, List.countP_eq_zero]
        intro name _
        simp [isMissingKey_missingKey, hother]

/-! ## All files -/

/-- How often the rule of a file requires a key that the file does not define. -/
def timesMissing (s : Snapshot) (standards : Standards) (file key : String) : Nat :=
  match Assoc.find? file standards.config.perFile, Assoc.find? file s.configFiles with
  | some rule, some (.parsed value) => (missingKeys rule value).count key
  | _, _ => 0

/-- A missing key is reported as often as it is required. -/
theorem countP_evaluate (hnodup : (Assoc.keys standards.config.perFile).Nodup) (s : Snapshot)
    (file key : String) :
    (evaluate s standards).countP (·.isMissingKey file key)
      = timesMissing s standards file key := by
  -- No other family reports a missing key.
  have hothers : ∀ issues : List Issue, (∀ issue ∈ issues, issue.category ≠ .configuration) →
      issues.countP (·.isMissingKey file key) = 0 := by
    intro issues hissues
    rw [List.countP_eq_zero]
    intro issue hissue hmissing
    obtain ⟨_, rfl⟩ := isMissingKey_iff.1 hmissing
    exact hissues _ hissue rfl
  rw [evaluate_eq]
  simp only [List.countP_append]
  rw [hothers (Structure.check s standards) fun _ h => by simp [(Structure.createsAt h).category_eq],
    hothers (Naming.check s standards) fun _ h => by simp [Naming.category_of_mem h],
    hothers (Style.check s standards) fun _ h => by simp [Style.category_of_mem h],
    hothers (Documentation.check s standards)
      fun _ h => by simp [(Documentation.createsAt h).category_eq],
    check, List.countP_eq_length_filter, List.filter_flatMap,
    Assoc.flatMap_of_nodup hnodup _ file, timesMissing]
  · cases hrule : Assoc.find? file standards.config.perFile with
    | none => rfl
    | some rule =>
        cases hfile : Assoc.find? file s.configFiles with
        | none => simp [hfile]
        | some found =>
            cases found <;>
              simp [hfile, ← List.countP_eq_length_filter, countP_checkFile]
  -- The rules of other files report keys of these files.
  · intro e _ hother
    rw [← List.length_eq_zero_iff, ← List.countP_eq_length_filter]
    cases hfile : Assoc.find? e.1 s.configFiles with
    | none => simp [hfile]
    | some found => cases found <;> simp [hfile, countP_checkFile, hother]

/-! ## Accepted settings -/

theorem keyPath_ne_nil (key : String) : keyPath key ≠ [] := by
  rw [keyPath, Text.splitOn_eq, ne_eq, List.map_eq_nil_iff]
  exact List.splitOn_ne_nil _ _

/-- An empty file defines no key. -/
theorem missingKeys_empty (rule : ConfigFileRule) :
    missingKeys rule (.object []) = rule.requiredKeys := by
  refine List.filter_eq_self.2 ?_
  intro key _
  cases hpath : keyPath key with
  | nil => exact absurd hpath (keyPath_ne_nil key)
  | cons name rest => rfl

/-- Keys are reported once, whatever the snapshot, just if the rules require each key once. -/
theorem timesMissing_le_one_iff :
    (∀ s file key, timesMissing s standards file key ≤ 1) ↔
      ∀ file rule, Assoc.find? file standards.config.perFile = some rule →
        rule.requiredKeys.Nodup := by
  constructor
  · intro honce file rule hrule
    -- A snapshot whose only configuration file is empty misses all keys of the rule.
    let s : Snapshot := { Snapshot.empty "/" with configFiles := [(file, .parsed (.object []))] }
    have hfile : Assoc.find? file s.configFiles = some (.parsed (.object [])) := by
      simp [s, Assoc.find?]
    rw [List.nodup_iff_count]
    intro key
    have htimes := honce s file key
    simp only [timesMissing, hrule, hfile, missingKeys_empty] at htimes
    exact htimes
  · intro hnodup s file key
    rw [timesMissing]
    split
    · rename_i rule value hrule _
      exact List.nodup_iff_count.1 ((hnodup file rule hrule).filter _) key
    · exact Nat.zero_le 1

open Standards in
/--
A missing key is reported as often as the rule of its file requires it.  With the settings of a
document it is reported at most once, for every snapshot, just if no rule of the document repeats a
key or appends one that the rule of the preset has already.
-/
theorem missingKeys_once_iff {docs : Documents} {asked : Option String} {path content : String}
    {document : Toml} {loaded : Loaded} (hread : docs.read path = .ok content)
    (hparse : parseDocument path content = .ok document)
    (hload : loadFrom docs asked path = .ok loaded) :
    let rules := loaded.settings.standards
    (∀ s file key, (evaluate s rules).countP (·.isMissingKey file key)
        = timesMissing s rules file key) ∧
      ((∀ s file key, (evaluate s rules).countP (·.isMissingKey file key) ≤ 1) ↔
        ∀ file x, (fileRules? document).bind (Toml.find? file) = some x → AddsOnce
          ((fileRulesUnder (baseOf asked document) document).bind (Toml.find? file)) x) := by
  intro rules
  have haccepted : Accepted asked loaded := .document hload
  have hcount := countP_evaluate haccepted.sound.distinct.configFiles
  refine ⟨hcount, ?_⟩
  have hresolve := resolve_of_loadFrom hread hparse hload
  rw [← nodup_requiredKeys_iff (ordered_of_parseDocument hparse) hresolve,
    ← timesMissing_le_one_iff]
  simp only [rules, hcount]

/-! ## A sample -/

def emptyPackage : Snapshot where
  root := "/app"
  name := "app"
  files := ["package.json"]
  configFiles := [("package.json", .parsed (.object []))]

open Standards in
/-- A document that requires a key which its preset requires already.  If the key is missing it is
reported twice. -/
theorem missingKeys_repeated :
    ∃ loaded, loadFrom (oneDocument ("preset = \"node\"\n[configRules.perFile]\n"
        ++ "\"package.json\" = [\"name\"]\n")) none "/s.toml" = .ok loaded ∧
      (evaluate emptyPackage loaded.settings.standards).countP
        (·.isMissingKey "package.json" "name") = 2 := by
  obtain ⟨loaded, hload, htimes⟩ := ok_of_any
    (x := loadFrom (oneDocument ("preset = \"node\"\n[configRules.perFile]\n"
      ++ "\"package.json\" = [\"name\"]\n")) none "/s.toml")
    (p := fun loaded => timesMissing emptyPackage loaded.settings.standards "package.json" "name" = 2)
    (by decide +kernel)
  have haccepted : Accepted none loaded := .document hload
  refine ⟨loaded, hload, ?_⟩
  rw [countP_evaluate haccepted.sound.distinct.configFiles, htimes]

/-- A document that appends one key and replaces all keys of another file. -/
def appendingText : String :=
  "preset = \"node\"\n[configRules.perFile]\n\"package.json\" = [\"license\"]\n"
    ++ "\".eslintrc.json\" = [\"$reset\", \"rules\"]\n"

open Standards in
theorem missingKeys_once_iff_appending :
    ∃ loaded, loadFrom (oneDocument appendingText) none "/s.toml" = .ok loaded ∧
      ∀ s file key, (evaluate s loaded.settings.standards).countP (·.isMissingKey file key) ≤ 1 := by
  obtain ⟨loaded, hload, _⟩ := ok_of_any (x := loadFrom (oneDocument appendingText) none "/s.toml")
    (p := fun _ => True) (by decide +kernel)
  obtain ⟨document, hparse, hadds⟩ := ok_of_any (x := parseDocument "/s.toml" appendingText)
    (p := fun document => ∀ rules ∈ fileRules? document, ∀ entries ∈ rules.entries?,
      ∀ e ∈ entries, (textsIn (mergeItems [] (keyItems e.2))).Nodup ∧
        (isReset (keyItems e.2) = false → ∀ key ∈ textsIn (keyItems e.2),
          key ∉ textsIn (keyItemsUnder
            ((fileRulesUnder (baseOf none document) document).bind (Toml.find? e.1)) e.2)))
    (by decide +kernel)
  have hread : (oneDocument appendingText).read "/s.toml" = .ok appendingText := rfl
  refine ⟨loaded, hload, (missingKeys_once_iff hread hparse hload).2.2 ?_⟩
  intro file x hx
  obtain ⟨rules, hrules, hfile⟩ := Option.bind_eq_some_iff.1 hx
  obtain ⟨entries, hentries, hfind⟩ := Option.bind_eq_some_iff.1 hfile
  obtain ⟨hown, hapart⟩ := hadds rules hrules entries hentries (file, x) (Assoc.mem_of_find? hfind)
  exact ⟨hown, hapart⟩

end Rules
end ProjectConsistency
