import ProjectConsistency.Proofs.Standards.Sound
import ProjectConsistency.Standards.Encode

/-!
# Encoded — the schema reads settings as they are written

Each value of a section is read back from what is written for it, if sets have no repetitions and
maps are in order.  So the sections are (`sections_read`, `tools_read`), and with them all settings
without a preset (`settings_toJson`).
-/

namespace ProjectConsistency

theorem Uniques.ofList_eq {α : Type} [DecidableEq α] {xs : List α} (h : xs.Nodup) :
    ofList xs = xs := by
  -- By induction on what is still to be added: nothing of it has been found.
  have hfold : ∀ found : List α, (∀ x ∈ found, x ∉ xs) → xs.foldl add found = found ++ xs := by
    induction xs with
    | nil => simp
    | cons x rest ih =>
        obtain ⟨hx, hrest⟩ := List.nodup_cons.1 h
        intro found hfound
        have hnew : x ∉ found := fun hmem => hfound x hmem (by simp)
        have hmore : ∀ y ∈ found ++ [x], y ∉ rest := by
          intro y hy hmem
          rcases List.mem_append.1 hy with hy | hy
          · exact hfound y hy (List.mem_cons_of_mem _ hmem)
          · exact hx (List.mem_singleton.1 hy ▸ hmem)
        rw [List.foldl_cons, add, if_neg hnew, ih hrest _ hmore]
        simp
  exact hfold [] (by simp)

namespace Standards

open FileSystem

namespace Schema

/-! ## Single values -/

theorem textsOf_ofStrings (expected : String) (items : List String) :
    textsOf expected (Json.ofStrings items) = .ok items := by
  change (items.map Json.string).mapM text = .ok items
  induction items with
  | nil => rfl
  | cons s rest ih => simp [text, ih, bind, Except.bind, pure, Except.pure]

theorem textSet_ofStrings {items : List String} (h : items.Nodup) :
    textSet (Json.ofStrings items) = .ok items := by
  rw [textSet, textsOf_ofStrings, Except.map, Uniques.ofList_eq h]

theorem count_ofNat (n : Nat) : count (Json.ofNat n) = .ok n := by
  have hn : ¬ (n : Int) < 0 := by omega
  simp [count, Json.ofNat, Json.ofInt, hn]

theorem keyed_mapValues {α : Type} {item : Json → Read α} {write : α → Json}
    (h : ∀ v, item (write v) = .ok v) (entries : List (String × α)) :
    keyed item (.object (Assoc.mapValues write entries)) = .ok entries := by
  change ((Assoc.mapValues write entries).mapM fun entry => (item entry.2).map ((entry.1, ·)))
    = .ok entries
  induction entries with
  | nil => rfl
  | cons entry rest ih =>
      obtain ⟨key, v⟩ := entry
      change (((key, write v) :: Assoc.mapValues write rest).mapM _) = _
      rw [List.mapM_cons, ih]
      simp [h, Except.map, bind, Except.bind, pure, Except.pure]

theorem ofMembers_mapValues {α : Type} {write : α → Json} {entries : List (String × α)}
    (h : Assoc.Ascending entries) :
    Json.ofMembers (Assoc.mapValues write entries) = .object (Assoc.mapValues write entries) := by
  have hascending : Assoc.Ascending (Assoc.mapValues write entries) := by
    rwa [Assoc.Ascending, Assoc.keys_mapValues]
  rw [Json.ofMembers, hascending.ofList_eq]

theorem choice_casingJson (casing : Casing) : choice casings (casingJson casing) = .ok casing := by
  cases casing <;> rfl

theorem choice_title (style : QuoteStyle) :
    choice quoteStyles (.string style.title) = .ok style := by
  cases style <;> rfl

theorem severity_title (severity : Severity) :
    choiceOver absent severities (.string severity.title) = .ok severity := by
  cases severity <;> rfl

/-! ## Sections -/

theorem namingJson_eq (r : NamingRules) : namingJson r = .object [
    ("constantCasing", casingJson r.constantCasing),
    ("directoryCasing", casingJson r.directoryCasing),
    ("exemptNames", Json.ofStrings r.exemptNames),
    ("fileCasing", casingJson r.fileCasing),
    ("variableCasing", casingJson r.variableCasing)] := rfl

theorem structuralJson_eq (r : StructureRules) : structuralJson r = .object [
    ("maxDepth", Json.ofNat r.maxDepth),
    ("recommendedFiles", Json.ofStrings r.recommendedFiles),
    ("requiredDirectories", Json.ofMembers (Assoc.mapValues .string r.requiredDirectories)),
    ("requiredFiles", Json.ofStrings r.requiredFiles)] := rfl

theorem styleJson_eq (r : StyleRules) : styleJson r = .object [
    ("extensions", Json.ofStrings r.extensions),
    ("indentWidth", Json.ofNat r.indentWidth),
    ("quoteExtensions", Json.ofStrings r.quoteExtensions),
    ("quoteStyle", .string r.quoteStyle.title),
    ("requireTrailingComma", .bool r.requireTrailingComma)] := rfl

theorem docsJson_eq (r : DocRules) : docsJson r = .object [
    ("requiredFiles", Json.ofStrings r.requiredFiles),
    ("requiredReadmeSections", Json.ofStrings r.requiredSections)] := rfl

theorem fileRuleJson_eq (r : ConfigFileRule) : fileRuleJson r = .object [
    ("missingKeySeverity", .string r.severity.title),
    ("requiredKeys", Json.ofStrings r.requiredKeys)] := rfl

theorem scannerJson_eq (r : ScannerSettings) : scannerJson r = .object [
    ("exclude", Json.ofStrings r.exclude),
    ("followLinks", .bool r.followLinks)] := rfl

theorem fileRule_fileRuleJson (r : ConfigFileRule) : fileRule (fileRuleJson r) = .ok r := by
  have hlong : longRule (fileRuleJson r) = .ok r := by
    rw [fileRuleJson_eq]
    simp [longRule, setRule, severity_title, texts, textsOf_ofStrings, bind, Except.bind, pure,
      Except.pure]
  -- A table is not a list of keys, so that the short form does not apply.
  have hshort : ∃ m, texts (fileRuleJson r) = .error m := ⟨_, rfl⟩
  obtain ⟨m, hshort⟩ := hshort
  rw [fileRule, hshort, hlong]

/-- The sections of rules are read as they are written. -/
theorem sections_read {standards : Standards} (h : standards.Sound) :
    naming (namingJson standards.naming) = .ok standards.naming ∧
      structural (structuralJson standards.structural) = .ok standards.structural ∧
      style (styleJson standards.style) = .ok standards.style ∧
      docs (docsJson standards.docs) = .ok standards.docs ∧
      config (configJson standards.config) = .ok standards.config := by
  refine ⟨?_, ?_, ?_, ?_, ?_⟩
  · rw [namingJson_eq]
    simp [naming, record, setMembers, choice_casingJson, textSet_ofStrings h.exemptNames, bind,
      Except.bind, pure, Except.pure]
  · rw [structuralJson_eq, ofMembers_mapValues h.directories]
    have htext : ∀ s, text (.string s) = .ok s := fun _ => rfl
    have hdirectories := keyed_mapValues htext standards.structural.requiredDirectories
    simp [structural, record, setMembers, count_ofNat, textSet_ofStrings h.files,
      textSet_ofStrings h.recommended, hdirectories, bind, Except.bind, pure, Except.pure]
  · rw [styleJson_eq]
    simp [style, record, setMembers, count_ofNat, choice_title, flag,
      textSet_ofStrings h.extensions, textSet_ofStrings h.quoteExtensions, bind, Except.bind, pure,
      Except.pure]
  · rw [docsJson_eq]
    simp [docs, record, setMembers, textSet_ofStrings h.documents, textSet_ofStrings h.sections,
      bind, Except.bind, pure, Except.pure]
  · have hfiles := keyed_mapValues fileRule_fileRuleJson standards.config.perFile
    change config (.object [("perFile", _)]) = _
    rw [ofMembers_mapValues h.configFiles]
    simp [config, record, setMembers, hfiles, bind, Except.bind, pure, Except.pure]

theorem tools_read (s : Settings) :
    scanner (scannerJson s.scanner) = .ok s.scanner ∧
      formatter (formatterJson s.formatter) = .ok s.formatter := by
  refine ⟨?_, ?_⟩
  · rw [scannerJson_eq]
    simp [scanner, record, setMembers, texts, textsOf_ofStrings, flag, bind, Except.bind, pure,
      Except.pure]
  · change formatter (.object [("command", _)]) = _
    simp [formatter, record, setMembers, texts, textsOf_ofStrings, bind, Except.bind, pure,
      Except.pure]

/-! ## Settings -/

/-- The members of a document that holds settings without a preset. -/
def documentMembers (s : Settings) : List (String × Json) := [
  ("configRules", configJson s.standards.config),
  ("docRules", docsJson s.standards.docs),
  ("formatter", formatterJson s.formatter),
  ("namingRules", namingJson s.standards.naming),
  ("scanner", scannerJson s.scanner),
  ("structureRules", structuralJson s.standards.structural),
  ("styleRules", styleJson s.standards.style)]

theorem toJson_eq {s : Settings} (h : s.preset = none) :
    s.toJson = .object (documentMembers s) := by
  rw [Settings.toJson, h]
  rfl

/-- Settings without a preset are read as they are written. -/
theorem settings_toJson {s : Settings} (hsound : s.standards.Sound) (hpreset : s.preset = none) :
    settings s.toJson = .ok s := by
  obtain ⟨hnaming, hstructural, hstyle, hdocs, hconfig⟩ := sections_read hsound
  obtain ⟨hscanner, hformatter⟩ := tools_read s
  have htools : tools (documentMembers s) {}
      = .ok { scanner := s.scanner, formatter := s.formatter } := by
    simp [tools, documentMembers, setTool, hscanner, hformatter, mapError_ok, bind, Except.bind,
      pure, Except.pure]
  have hrules : rules (documentMembers s) {} = .ok s.standards := by
    simp [rules, documentMembers, setRules, hnaming, hstructural, hstyle, hdocs, hconfig,
      mapError_ok, bind, Except.bind, pure, Except.pure]
  rw [toJson_eq hpreset, settings, htools]
  simp only [bind, Except.bind, pure, Except.pure, hrules]
  cases s
  cases hpreset
  rfl

end Schema
end Standards
end ProjectConsistency
