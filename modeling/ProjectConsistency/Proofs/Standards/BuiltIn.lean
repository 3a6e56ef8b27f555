import ProjectConsistency.Proofs.Standards.Resolved

/-!
# BuiltIn — the default preset is the built-in model

This file defines:

* `Standards.NamesNoPreset` — the document at a path has no preset of its own;
* `Standards.Loaded.under` — the same settings, under the name of a preset;
* `Standards.SameUnder` — two loads come to the same, but for this name.

The default preset is an empty table.  A document that is laid over it sets its keys one after the
other, and as they stand in order this gives the document itself without its markers
(`mergeEntries_nil`), which is what it is read from without a preset.  The checks after that do not look
at the preset, so all ways of loading come to the same (`load_default`).
-/

namespace ProjectConsistency
namespace Standards

open FileSystem

/-! ## Over nothing -/

/-- Entries with new keys are set one after the other, without their markers. -/
theorem mergeEntries_of_new {base overlay : List (String × Toml)}
    (hnodup : (Assoc.keys overlay).Nodup) (hnew : ∀ key ∈ Assoc.keys overlay, key ∉ Assoc.keys base) :
    mergeEntries base overlay
      = (stripEntries overlay).foldl (fun found e => Assoc.insert e.1 e.2 found) base := by
  induction overlay generalizing base with
  | nil => rfl
  | cons entry rest ih =>
      obtain ⟨key, x⟩ := entry
      obtain ⟨hkey, hrest⟩ := List.nodup_cons.1 hnodup
      have hnone : Assoc.find? key base = none := by
        rw [← Option.not_isSome_iff_eq_none, Assoc.isSome_find?_iff]
        exact hnew key List.mem_cons_self
      rw [mergeEntries_cons, stripEntries, List.foldl_cons, hnone]
      refine ih hrest ?_
      -- The key that was set is none of those that follow.
      intro other hother
      rw [← Assoc.isSome_find?_iff, Assoc.find?_insert, if_neg, Assoc.isSome_find?_iff]
      · exact hnew other (List.mem_cons_of_mem key hother)
      · rintro rfl
        exact hkey hother

/-- A table over an empty one only loses its markers. -/
theorem mergeEntries_nil {overlay : List (String × Toml)} (h : Assoc.Ascending overlay) :
    mergeEntries [] overlay = stripEntries overlay := by
  have hstripped : Assoc.Ascending (stripEntries overlay) := by
    rwa [stripEntries_eq, Assoc.Ascending, Assoc.keys_mapValues]
  rw [mergeEntries_of_new h.nodup (by simp [Assoc.keys])]
  exact hstripped.ofList_eq

theorem layered_default {document : Toml} (hordered : document.Ordered)
    (htable : document.entries?.isSome) :
    layered (some "default") document = layered none document := by
  cases hordered with
  | @table entries ascending _ =>
      have hmerged : layered (some "default") (.table entries)
          = .ok (.table (mergeEntries [] entries)) := rfl
      rw [hmerged, mergeEntries_nil ascending]
      rfl
  | _ => cases htable

/-! ## Settings -/

/-- Checks do not look at the preset. -/
theorem check_withPreset (s : Settings) (preset : Option String) :
    check { s with preset } = (check s).map fun s => { s with preset } := by
  by_cases hwidth : s.standards.style.indentWidth = 0
  · simp [check, hwidth, Except.map]
  · cases hfilter : NameFilter.ofPatterns s.scanner.exclude <;>
      simp [check, hwidth, hfilter, Except.map]

theorem entries_of_knownSections {document : Toml} {entries : List (String × Toml)}
    (h : knownSections document = .ok entries) : document.entries?.isSome := by
  cases document with
  | table entries => rfl
  | _ => cases h

/-- A document without a preset gives the same settings over the default preset. -/
theorem resolve_default {document : Toml} (hordered : document.Ordered)
    (hpreset : document.find? "preset" = none) :
    resolve (some "default") document
      = (resolve none document).map fun s => { s with preset := some "default" } := by
  have hnamed : ∀ asked, presetOf asked document = asked := by
    intro asked
    rw [presetOf, hpreset]
    rfl
  -- The stages in their order: the sections, the layers, the schema and the checks.
  cases hknown : knownSections document with
  | error e => simp only [resolve, hknown, bind, Except.bind, Except.map]
  | ok entries =>
      have hlayers := layered_default hordered (entries_of_knownSections hknown)
      simp only [resolve, hknown, hnamed, hlayers, bind, Except.bind]
      cases layered none document with
      | error e => rfl
      | ok value =>
          cases hread : Schema.settings value.toJson with
          | error m => simp only [hread, mapError_error, Except.map]
          | ok s =>
              simp only [hread, mapError_ok]
              rw [check_withPreset s none, check_withPreset s (some "default")]
              cases check s <;> rfl

theorem preset_of_resolve {document : Toml} {s : Settings}
    (hpreset : document.find? "preset" = none) (h : resolve none document = .ok s) :
    s.preset = none := by
  obtain ⟨_, ⟨read, _, rfl⟩, _⟩ := of_resolve h
  change presetOf none document = none
  rw [presetOf, hpreset]
  rfl

/-! ## Loading -/

/-- The document at the path has no preset of its own, if there is a document that can be read. -/
def NamesNoPreset (docs : Documents) (path : String) : Prop :=
  ∀ content document, docs.read path = .ok content → parseDocument path content = .ok document →
    document.find? "preset" = none

/-- The same settings from the same document, under the name of a preset. -/
def Loaded.under (loaded : Loaded) (name : String) : Loaded :=
  { loaded with settings := { loaded.settings with preset := some name } }

/-- Either both loads end with the same error, or both end with settings that differ in the name of the
preset only: the first ones have none. -/
inductive SameUnder (name : String) : Except Failure Loaded → Except Failure Loaded → Prop where
  | failed (e : Failure) : SameUnder name (.error e) (.error e)
  | loaded (loaded : Loaded) (plain : loaded.settings.preset = none) :
      SameUnder name (.ok loaded) (.ok (loaded.under name))

/-- Two loads compare as the settings that they end with. -/
theorem sameUnder_of_resolve {document : Toml} (hordered : document.Ordered)
    (hpreset : document.find? "preset" = none) (source : Option String) :
    SameUnder "default" ((resolve none document).map fun settings => ⟨settings, source⟩)
      ((resolve (some "default") document).map fun settings => ⟨settings, source⟩) := by
  rw [resolve_default hordered hpreset]
  cases hresolve : resolve none document with
  | error e => exact .failed e
  | ok s => exact .loaded ⟨s, source⟩ (preset_of_resolve hpreset hresolve)

theorem sameUnder_loadDefaults :
    SameUnder "default" (loadDefaults none) (loadDefaults (some "default")) :=
  sameUnder_of_resolve (Toml.inherited_ordered.table [] .nil) rfl none

theorem sameUnder_loadFrom {docs : Documents} {path : String} (h : NamesNoPreset docs path) :
    SameUnder "default" (loadFrom docs none path) (loadFrom docs (some "default") path) := by
  by_cases hthere : docs.exists? path = true
  · cases hread : docs.read path with
    | error e =>
        have hfails : ∀ asked, loadFrom docs asked path = .error (.io e) := by
          intro asked
          simp [loadFrom, hthere, hread, mapError_error, bind, Except.bind]
        rw [hfails, hfails]
        exact .failed _
    | ok content =>
        cases hparse : parseDocument path content with
        | error e =>
            have hfails : ∀ asked, loadFrom docs asked path = .error e := by
              intro asked
              simp [loadFrom, hthere, hread, hparse, mapError_ok, bind, Except.bind]
            rw [hfails, hfails]
            exact .failed _
        | ok document =>
            rw [loadFrom_of_parse hthere hread hparse, loadFrom_of_parse hthere hread hparse]
            exact sameUnder_of_resolve (ordered_of_parseDocument hparse)
              (h content document hread hparse) (some path)
  · have hmissing : docs.exists? path = false := by simpa using hthere
    rw [loadFrom_of_missing hmissing, loadFrom_of_missing hmissing]
    exact .failed _

/--
The default preset is the built-in model.  A document without a preset of its own is loaded over it as
it is loaded by itself, from its path and by a search, and so is no document: the settings differ in the
name of the preset only, and the errors are the same.
-/
theorem load_default (docs : Documents) :
    (∀ path, NamesNoPreset docs path →
        SameUnder "default" (loadFrom docs none path) (loadFrom docs (some "default") path)) ∧
      (∀ root, (∀ path, discover? docs root = some path → NamesNoPreset docs path) →
        SameUnder "default" (load docs none root) (load docs (some "default") root)) ∧
      SameUnder "default" (loadDefaults none) (loadDefaults (some "default")) := by
  refine ⟨fun path => sameUnder_loadFrom, ?_, sameUnder_loadDefaults⟩
  intro root h
  rw [load, load]
  cases hfound : discover? docs root with
  | none => exact sameUnder_loadDefaults
  | some path => exact sameUnder_loadFrom (h path hfound)

/-- A document with two lists that begin with the reset marker. -/
def markedText : String :=
  "[structureRules]\nrequiredFiles = [\"$reset\", \"Makefile\"]\n\n"
    ++ "[configRules.perFile]\n\"a.json\" = [\"$reset\", \"name\"]\n"

theorem load_default_marked :
    NamesNoPreset (oneDocument markedText) "/s.toml" ∧
      ∃ plain named, loadFrom (oneDocument markedText) none "/s.toml" = .ok plain ∧
        loadFrom (oneDocument markedText) (some "default") "/s.toml" = .ok named ∧
        plain.settings.standards.structural.requiredFiles = ["Makefile"] ∧
        named = plain.under "default" := by
  obtain ⟨plain, hplain, hfiles⟩ := ok_of_any
    (x := loadFrom (oneDocument markedText) none "/s.toml")
    (p := fun loaded => loaded.settings.standards.structural.requiredFiles = ["Makefile"])
    (by decide +kernel)
  obtain ⟨document, hparse, hnone⟩ := ok_of_any (x := parseDocument "/s.toml" markedText)
    (p := fun document => (document.find? "preset").isNone = true) (by decide +kernel)
  have hpreset : NamesNoPreset (oneDocument markedText) "/s.toml" := by
    intro content other hread hother
    cases hread
    rw [hparse] at hother
    cases hother
    exact Option.isNone_iff_eq_none.1 hnone
  have hsame := (load_default (oneDocument markedText)).1 "/s.toml" hpreset
  rw [hplain] at hsame
  generalize hnamed : loadFrom (oneDocument markedText) (some "default") "/s.toml" = result at hsame
  cases hsame with
  | loaded => exact ⟨hpreset, plain, _, hplain, rfl, hfiles, rfl⟩

end Standards
end ProjectConsistency
