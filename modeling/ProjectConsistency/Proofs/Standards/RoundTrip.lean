import ProjectConsistency.Proofs.Json.Printed
import ProjectConsistency.Proofs.Standards.Encoded
import ProjectConsistency.Proofs.Standards.Lists

/-!
# Round trip — settings survive being written and loaded again

This file defines:

* `Json.Portable` — values that stay the same as a document;
* `Standards.Mirrors` — a value in TOML is the same as one in JSON;
* `Settings.lists` — all lists of the settings.

A portable value has a mirror in TOML that keeps everything, also where markers are dropped
(`mirrors_of_portable`).  Settings that are sound and have no list with a marker are portable
(`portable_toJson`), and are resolved from the mirror of what is written for them
(`resolve_of_mirrors`).  With the parser this closes the circle (`load_roundTrip`).
-/

namespace ProjectConsistency

open Standards

/-- All lists of the settings, with those of the rules for configuration files. -/
def Settings.lists (s : Settings) : List (List String) :=
  ListSetting.all.map (·.get s)
    ++ s.formatter.command :: s.standards.config.perFile.map (·.2.requiredKeys)

/-- The value stays the same as a document: there is no null, integers are counts that fit, names
stand in order, and no list begins with the reset marker. -/
inductive Json.Portable : Nat → Json → Prop where
  | bool (levels : Nat) (b : Bool) : Portable levels (.bool b)
  | count (levels : Nat) {n : Nat} (fits : n ≤ 9223372036854775807) : Portable levels (ofNat n)
  | string (levels : Nat) (s : String) : Portable levels (.string s)
  | array {levels : Nat} {items : List Json} (each : ∀ x ∈ items, Portable levels x)
      (unmarked : items.head? ≠ some (.string resetMarker)) : Portable (levels + 1) (.array items)
  | object {levels : Nat} {members : List (String × Json)} (ascending : Assoc.Ascending members)
      (value : ∀ key x, (key, x) ∈ members → Portable levels x) :
      Portable (levels + 1) (.object members)

namespace Json

variable {levels : Nat}

theorem Portable.plain {x : Json} (h : Portable levels x) : Plain levels x := by
  induction h with
  | bool levels b => exact .bool levels b
  | @count levels n fits =>
      have hhigh : (n : Int) < wordLimit := by
        simp only [wordLimit]
        omega
      exact .integer levels (by simp only [negativeLimit]; omega) hhigh
  | string levels s => exact .string levels s
  | array _ _ ih => exact .array ih
  | object ascending _ ih => exact .object ascending ih

/-- A list of texts is portable unless it starts with the reset marker. -/
theorem portable_ofStrings (levels : Nat) {texts : List String}
    (h : texts.head? ≠ some resetMarker) : Portable (levels + 1) (ofStrings texts) := by
  refine .array (List.forall_mem_map.2 fun s _ => .string levels s) ?_
  cases texts with
  | nil => simp
  | cons s rest => simpa using h

theorem portable_ofMembers {members : List (String × Json)}
    (h : ∀ e ∈ members, Portable levels e.2) : Portable (levels + 1) (ofMembers members) :=
  .object (Assoc.ascending_ofList members) fun _ _ hmem => h _ (Assoc.mem_of_mem_ofList hmem)

/-- The same for members that are listed. -/
theorem portable_record {members : List (String × Json)}
    (h : members.Forall fun e => Portable levels e.2) : Portable (levels + 1) (ofMembers members) :=
  portable_ofMembers (List.forall_iff_forall_mem.1 h)

end Json

namespace Standards

open FileSystem

/-! ## Documents -/

/-- A value in TOML is the same as one in JSON, and has no markers to lose. -/
structure Mirrors (t : Toml) (x : Json) : Prop where
  read : ofJson x = .ok t
  back : t.toJson = x
  unmarked : stripMarkers t = t

/-- Items that are mirrored one by one are mirrored as a list. -/
theorem mirrors_items {items : List Json} (h : ∀ x ∈ items, ∃ t, Mirrors t x) :
    ∃ found, itemsOfJson items = .ok found ∧ found.map Toml.toJson = items ∧
      found.map stripMarkers = found := by
  induction items with
  | nil => exact ⟨[], rfl, rfl, rfl⟩
  | cons x rest ih =>
      obtain ⟨⟨t, ht⟩, hrest⟩ := List.forall_mem_cons.1 h
      obtain ⟨found, hread, hback, hunmarked⟩ := ih hrest
      refine ⟨t :: found, ?_, ?_, ?_⟩
      · simp [itemsOfJson, ht.read, hread, bind, Except.bind, pure, Except.pure]
      · rw [List.map_cons, ht.back, hback]
      · rw [List.map_cons, ht.unmarked, hunmarked]

/-- Members that are mirrored one by one are mirrored as a table. -/
theorem mirrors_members {members : List (String × Json)}
    (h : ∀ key x, (key, x) ∈ members → ∃ t, Mirrors t x) :
    ∃ found, membersOfJson members = .ok found ∧ Assoc.mapValues Toml.toJson found = members ∧
      Assoc.mapValues stripMarkers found = found := by
  induction members with
  | nil => exact ⟨[], rfl, rfl, rfl⟩
  | cons entry rest ih =>
      obtain ⟨key, x⟩ := entry
      obtain ⟨t, ht⟩ := h key x (by simp)
      obtain ⟨found, hread, hback, hunmarked⟩ :=
        ih fun key x hx => h key x (List.mem_cons_of_mem _ hx)
      refine ⟨(key, t) :: found, ?_, ?_, ?_⟩
      · simp [membersOfJson, ht.read, hread, bind, Except.bind, pure, Except.pure]
      · change (key, t.toJson) :: Assoc.mapValues Toml.toJson found = _
        rw [ht.back, hback]
      · change (key, stripMarkers t) :: Assoc.mapValues stripMarkers found = _
        rw [ht.unmarked, hunmarked]

/-- A portable value is the JSON form of a value that stripping leaves alone. -/
theorem mirrors_of_portable {levels : Nat} {x : Json} (h : x.Portable levels) :
    ∃ t, Mirrors t x := by
  induction h with
  | bool levels b => exact ⟨.boolean b, rfl, rfl, rfl⟩
  | @count levels n fits =>
      have hfits : (n : Int) ≤ 9223372036854775807 := by omega
      exact ⟨.integer n, by simp [Json.ofNat, Json.ofInt, ofJson, hfits], rfl, rfl⟩
  | string levels s => exact ⟨.string s, rfl, rfl, rfl⟩
  | @array levels items _ unmarked ih =>
      obtain ⟨found, hread, hback, hstrip⟩ := mirrors_items ih
      refine ⟨.array found, by simp [ofJson, hread, Except.map], ?_, ?_⟩
      · rw [Toml.toJson, Toml.itemsToJson_eq, hback]
      · cases found with
        | nil => rfl
        | cons t rest =>
            -- Only a first item that is the marker would be dropped.
            have hmarker : isMarker t = false := by
              cases t with
              | string s =>
                  rw [← hback] at unmarked
                  simpa [isMarker, Toml.toJson] using unmarked
              | _ => rfl
            rw [stripMarkers, if_neg (by simp [hmarker]), stripItems_eq, ← List.map_cons, hstrip]
  | @object levels members _ _ ih =>
      obtain ⟨found, hread, hback, hstrip⟩ := mirrors_members ih
      refine ⟨.table found, by simp [ofJson, hread, Except.map], ?_, ?_⟩
      · rw [Toml.toJson, Toml.entriesToJson_eq, hback]
      · rw [stripMarkers, stripEntries_eq, hstrip]

/-! ## Settings -/

open Json in
/-- Settings are written as they can be loaded, in five levels. -/
theorem portable_toJson {s : Settings} (hsound : s.standards.Sound) (hpreset : s.preset = none)
    (hlists : ∀ list ∈ s.lists, list.head? ≠ some resetMarker) (levels : Nat) :
    s.toJson.Portable (levels + 5) := by
  have hall : ∀ σ ∈ ListSetting.all, (σ.get s).head? ≠ some resetMarker := fun σ hσ =>
    hlists _ (List.mem_append_left _ (List.mem_map_of_mem hσ))
  have hcommand : s.formatter.command.head? ≠ some resetMarker :=
    hlists _ (by simp [Settings.lists])
  have hkeys : ∀ e ∈ s.standards.config.perFile, e.2.requiredKeys.head? ≠ some resetMarker :=
    fun e he => hlists _
      (List.mem_append_right _ (List.mem_cons_of_mem _ (List.mem_map_of_mem he)))
  -- Section by section: the lists do not begin with the marker, the counts are within range.
  simp only [ListSetting.all, List.forall_mem_cons] at hall
  obtain ⟨hexempt, hfiles, hrecommended, hextensions, hquote, hdocuments, hsections, hexclude, _⟩ :=
    hall
  have hnaming : (namingJson s.standards.naming).Portable (levels + 4) :=
    portable_record ⟨.string _ _, .string _ _, .string _ _, .string _ _,
      portable_ofStrings _ hexempt⟩
  have hdirectories : ∀ e ∈ Assoc.mapValues Json.string s.standards.structural.requiredDirectories,
      e.2.Portable (levels + 2) := List.forall_mem_map.2 fun _ _ => .string _ _
  have hstructural : (structuralJson s.standards.structural).Portable (levels + 4) :=
    portable_record ⟨portable_ofMembers hdirectories, portable_ofStrings _ hfiles,
      portable_ofStrings _ hrecommended, .count _ hsound.maxDepth⟩
  have hstyle : (styleJson s.standards.style).Portable (levels + 4) :=
    portable_record ⟨.count _ hsound.indentWidth, .string _ _, .bool _ _,
      portable_ofStrings _ hextensions, portable_ofStrings _ hquote⟩
  have hdocs : (docsJson s.standards.docs).Portable (levels + 4) :=
    portable_record ⟨portable_ofStrings _ hdocuments, portable_ofStrings _ hsections⟩
  have hrules : ∀ e ∈ Assoc.mapValues fileRuleJson s.standards.config.perFile,
      e.2.Portable (levels + 2) := by
    intro e he
    obtain ⟨entry, hentry, rfl⟩ := List.mem_map.1 he
    exact portable_record ⟨portable_ofStrings _ (hkeys entry hentry), .string _ _⟩
  have hconfig : (configJson s.standards.config).Portable (levels + 4) :=
    portable_record (portable_ofMembers hrules)
  have hscanner : (scannerJson s.scanner).Portable (levels + 4) :=
    portable_record ⟨portable_ofStrings _ hexclude, .bool _ _⟩
  have hformatter : (formatterJson s.formatter).Portable (levels + 4) :=
    portable_record (portable_ofStrings _ hcommand)
  rw [Settings.toJson, hpreset]
  exact portable_record
    ⟨hnaming, hstructural, hstyle, hdocs, hconfig, hscanner, hformatter⟩

/-- Settings that were resolved have passed the checks. -/
theorem check_of_resolve {asked : Option String} {document : Toml} {s : Settings}
    (h : resolve asked document = .ok s) : check s = .ok s := by
  rcases ok_of_bind h with ⟨_, _, h⟩
  rcases ok_of_bind h with ⟨_, _, h⟩
  rcases ok_of_bind h with ⟨_, _, hcheck⟩
  obtain ⟨rfl, _⟩ := of_check hcheck
  exact hcheck

/-- Settings without a preset are resolved from the document that holds them. -/
theorem resolve_of_mirrors {s : Settings} {t : Toml} (ht : Mirrors t s.toJson)
    (hsound : s.standards.Sound) (hpreset : s.preset = none) (hcheck : check s = .ok s) :
    resolve none t = .ok s := by
  have hback := ht.back
  rw [Schema.toJson_eq hpreset] at hback
  cases t with
  | table entries =>
      have hkeys : Assoc.keys entries = Assoc.keys (Schema.documentMembers s) := by
        rw [← Toml.keys_entriesToJson]
        exact congrArg Assoc.keys (Json.object.inj hback)
      have hknown : knownSections (.table entries) = .ok entries := by
        rw [knownSections, hkeys]
        rfl
      -- No section is called `preset`, so nothing is laid below the document.
      have hnone : presetOf none (.table entries) = none := by
        have hmissing : Assoc.find? "preset" entries = none := by
          rw [← Option.not_isSome_iff_eq_none, Assoc.isSome_find?_iff, hkeys]
          simp [Schema.documentMembers, Assoc.keys]
        simp [presetOf, Toml.find?, Toml.entries?, hmissing]
      have hread : Schema.settings (Toml.table entries).toJson = .ok s := by
        rw [ht.back]
        exact Schema.settings_toJson hsound hpreset
      have hsame : { s with preset := none } = s := by
        cases s
        cases hpreset
        rfl
      simp [resolve, hknown, hnone, layered, ht.unmarked, hread, mapError_ok, hsame, hcheck, bind,
        Except.bind]
  | _ => cases hback

/-! ## Loading -/

variable {docs : Documents} {path : String} {loaded : Loaded}

/-- A document that is loaded is regular without its markers. -/
theorem regular_of_loadFrom (h : loadFrom docs none path = .ok loaded) :
    ∃ document, (stripMarkers document).toJson.Regular ∧
      resolve none document = .ok loaded.settings := by
  obtain ⟨_, h⟩ := ok_of_guard h
  rcases ok_of_bind h with ⟨content, _, h⟩
  rcases ok_of_bind h with ⟨document, hparse, h⟩
  rcases ok_of_bind h with ⟨s, hresolve, h⟩
  cases h
  refine ⟨document, ?_, hresolve⟩
  exact holds_stripMarkers hereditary_regular (ordered_of_parseDocument hparse)
    (of_parseDocument hereditary_regular.toInherited hparse)

/-- So is the document of a project root, or the empty document if there is none. -/
theorem regular_of_load {root : String} (h : load docs none root = .ok loaded) :
    ∃ document, (stripMarkers document).toJson.Regular ∧
      resolve none document = .ok loaded.settings := by
  cases hdiscover : discover? docs root with
  | some path =>
      rw [load, hdiscover] at h
      exact regular_of_loadFrom h
  | none =>
      rw [load, hdiscover] at h
      exact ⟨.table [], .object Assoc.ascending_nil nofun, of_loadDefaults h⟩

/--
Settings survive being written and loaded again.  If settings were loaded without a preset, for a
project or from a document, and none of their lists begins with the reset marker, then loading any
JSON document that holds them, whatever the order of its members and its blanks, gives the same
settings.  The settings printed without blanks or with a line for each item are such documents.
-/
theorem load_roundTrip (root path : String)
    (hload : load docs none root = .ok loaded ∨ loadFrom docs none path = .ok loaded)
    (hpreset : loaded.settings.preset = none)
    (hlists : ∀ list ∈ loaded.settings.lists, list.head? ≠ some resetMarker) :
    let value := loaded.settings.toJson
    (∀ text, Json.IsDocument value text → ∀ (docs' : Documents) (path' : String),
      isJsonPath path' = true → docs'.exists? path' = true → docs'.read path' = .ok text →
        loadFrom docs' none path' = .ok ⟨loaded.settings, some path'⟩) ∧
      Json.IsDocument value value.compact ∧ Json.IsDocument value value.pretty := by
  intro value
  obtain ⟨document, hregular, hresolve⟩ := hload.elim regular_of_load regular_of_loadFrom
  have hsound := sound_of_resolve hregular hpreset hresolve
  have hportable : value.Portable Json.levelLimit := portable_toJson hsound hpreset hlists 122
  refine ⟨?_, Json.isDocument_printed hportable.plain⟩
  intro text htext docs' path' hjson hthere hread
  obtain ⟨t, ht⟩ := mirrors_of_portable hportable
  have hparse : parseDocument path' text = .ok t := by
    simp [parseDocument, hjson, Json.parse_of_isDocument htext, ht.read, mapError_ok]
  rw [loadFrom_of_parse hthere hread hparse,
    resolve_of_mirrors ht hsound hpreset (check_of_resolve hresolve)]
  rfl

def plainText : String :=
  "[structureRules]\nmaxDepth = 4\nrequiredFiles = [\"Makefile\", \"Makefile\"]\n"
    ++ "[structureRules.requiredDirectories]\nsrc = \"sources\"\n"
    ++ "[configRules.perFile]\n\"package.json\" = [\"name\"]\n"

/-- The document at another path. -/
def jsonDocument (text : String) : Documents where
  exists? path := path = "/s.json"
  read _ := .ok text
  userFolder := none

theorem load_roundTrip_plain :
    ∃ loaded, loadFrom (oneDocument plainText) none "/s.toml" = .ok loaded ∧
      loaded.settings.standards.structural.requiredFiles = ["Makefile"] ∧
      loaded.settings.standards.config.perFile = [("package.json", ⟨["name"], .warning⟩)] ∧
      loadFrom (jsonDocument loaded.settings.toJson.pretty) none "/s.json"
        = .ok ⟨loaded.settings, some "/s.json"⟩ := by
  obtain ⟨loaded, hload, hpreset, hlists, hfiles, hrules⟩ := ok_of_any
    (x := loadFrom (oneDocument plainText) none "/s.toml")
    (p := fun loaded => loaded.settings.preset = none ∧
      (∀ list ∈ loaded.settings.lists, list.head? ≠ some resetMarker) ∧
      loaded.settings.standards.structural.requiredFiles = ["Makefile"] ∧
      loaded.settings.standards.config.perFile = [("package.json", ⟨["name"], .warning⟩)])
    (by decide +kernel)
  obtain ⟨hagain, _, hpretty⟩ := load_roundTrip "/" "/s.toml" (.inr hload) hpreset hlists
  exact ⟨loaded, hload, hfiles, hrules, hagain _ hpretty _ "/s.json" (by decide) rfl rfl⟩

end Standards
end ProjectConsistency
