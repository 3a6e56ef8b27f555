import ProjectConsistency.Proofs.Standards.Fields

/-!
# Lists — which settings extend those of the preset

This file defines:

* `ListSetting` — a setting that is a list of texts, and `ListSetting.all`;
* `ListSetting.written` — what a document writes for it.

Lists are appended where documents are laid over each other, so a list of a document extends a list
that its preset spells out.  A list that the preset leaves out has no value at that time: the
built-in values fill in after the layers are merged, and only where neither of them writes the list.
`loadFrom_extends_preset` says what the loaded list holds in each case.
-/

namespace ProjectConsistency
namespace Standards

open FileSystem

/-! ## Reading lists -/

namespace Schema

/-- A list of texts is read from these texts. -/
theorem eq_of_textsOf {expected : String} {x : Json} {found : List String}
    (h : textsOf expected x = .ok found) : x = .array (found.map .string) := by
  cases x with
  | array items =>
      have hmapM : items.mapM text = .ok found := h
      clear h
      induction items generalizing found with
      | nil =>
          cases hmapM
          rfl
      | cons x rest ih =>
          rw [List.mapM_cons] at hmapM
          rcases ok_of_bind hmapM with ⟨first, hfirst, hmapM⟩
          rcases ok_of_bind hmapM with ⟨others, hothers, hmapM⟩
          cases hmapM
          have hx : x = .string first := by
            cases x with
            | string s =>
                cases hfirst
                rfl
            | _ => cases hfirst
          have hrest : rest = others.map .string := Json.array.inj (ih hothers)
          rw [hx, hrest, List.map_cons]
  | _ => cases h

theorem of_textsOf {expected : String} {x : Json} {found : List String}
    (h : textsOf expected x = .ok found) :
    ∃ items, x = .array items ∧ ∀ t, t ∈ found ↔ .string t ∈ items :=
  ⟨_, eq_of_textsOf h, by simp⟩

/-- A set of texts is read from an array, and holds its texts. -/
theorem of_textSet {x : Json} {found : List String} (h : textSet x = .ok found) :
    ∃ items, x = .array items ∧ ∀ t, t ∈ found ↔ .string t ∈ items := by
  cases htexts : textsOf "a set" x with
  | error m => simp [textSet, htexts, Except.map] at h
  | ok texts =>
      simp only [textSet, htexts, Except.map] at h
      cases h
      obtain ⟨items, hx, hmem⟩ := of_textsOf htexts
      refine ⟨items, hx, ?_⟩
      intro t
      rw [Uniques.mem_ofList, hmem]

end Schema

/-! ## List settings -/

/-- A setting that is a list of texts, at a key of a section. -/
structure ListSetting where
  place : String
  key : String
  get : Settings → List String

namespace ListSetting

def all : List ListSetting := [
  ⟨"namingRules", "exemptNames", (·.standards.naming.exemptNames)⟩,
  ⟨"structureRules", "requiredFiles", (·.standards.structural.requiredFiles)⟩,
  ⟨"structureRules", "recommendedFiles", (·.standards.structural.recommendedFiles)⟩,
  ⟨"styleRules", "extensions", (·.standards.style.extensions)⟩,
  ⟨"styleRules", "quoteExtensions", (·.standards.style.quoteExtensions)⟩,
  ⟨"docRules", "requiredFiles", (·.standards.docs.requiredFiles)⟩,
  ⟨"docRules", "requiredReadmeSections", (·.standards.docs.requiredSections)⟩,
  ⟨"scanner", "exclude", (·.scanner.exclude)⟩]

def written (σ : ListSetting) (document : Toml) : Option Toml :=
  (document.find? σ.place).bind (Toml.find? σ.key)

def resets (σ : ListSetting) (document : Toml) : Bool :=
  (σ.written document).any fun
    | .array items => isReset items
    | _ => false

/-- The document writes the section of the list as a table, or leaves it out. -/
def Tabled (σ : ListSetting) (document : Toml) : Prop :=
  (document.find? σ.place).all fun x => x.entries?.isSome

instance (σ : ListSetting) (document : Toml) : Decidable (σ.Tabled document) :=
  inferInstanceAs (Decidable (_ = true))

variable {σ : ListSetting} {s : Settings}

theorem Tabled.of_find? {document x : Toml} (h : σ.Tabled document)
    (hfind : document.find? σ.place = some x) : ∃ entries, x = .table entries := by
  cases x with
  | table entries => exact ⟨entries, rfl⟩
  | _ => simp [Tabled, hfind, Toml.entries?] at h

theorem written_of_missing {document : Toml} (h : document.find? σ.place = none) :
    σ.written document = none := by
  rw [written, h]
  rfl

/-- What a document writes under a list is looked up in its section. -/
theorem written_of_section {document : Toml} {inner : List (String × Toml)}
    (h : document.find? σ.place = some (.table inner)) :
    σ.written document = Assoc.find? σ.key inner := by
  rw [written, h]
  rfl

/-- What is written for the list, if its section is a table. -/
structure Holds (σ : ListSetting) (document : Toml) (s : Settings) : Prop where
  absent : σ.written document = none → σ.get s = σ.get {}
  present : ∀ x, σ.written document = some x →
    ∃ items, x = .array items ∧ ∀ t, t ∈ σ.get s ↔ ∃ item ∈ items, item.toJson = .string t

/-- A list at a key of a record holds what is written. -/
theorem holds_of_reads {α : Type} {reader : Json → Schema.Read α} {place key : String}
    {read : Json → Schema.Read (List String)} {of : Settings → α} {field : α → List String}
    (hplace : Schema.Reads Schema.settings {} place reader of)
    (hkey : Schema.Reads reader (of {}) key read field)
    (hread : ∀ {x found}, read x = .ok found →
      ∃ items, x = .array items ∧ ∀ t, t ∈ found ↔ .string t ∈ items)
    {document : Toml} (hordered : document.Ordered)
    (htabled : Tabled ⟨place, key, fun s => field (of s)⟩ document)
    (h : Schema.settings document.toJson = .ok s) :
    Holds ⟨place, key, fun s => field (of s)⟩ document s := by
  cases hordered with
  | @table entries ascending value =>
      -- The section is read first, then the list within it.
      have hsection := hplace (Toml.entriesToJson entries) s
        (by rw [Toml.keys_entriesToJson]; exact ascending.nodup) h
      rw [Toml.find?_entriesToJson] at hsection
      cases hfind : Assoc.find? place entries with
      | none =>
          rw [hfind] at hsection
          -- Without the section both have their built-in values.
          have hsame : of {} = of s := Except.ok.inj hsection
          refine ⟨fun _ => congrArg field hsame.symm, ?_⟩
          intro x hx
          have hnone : written ⟨place, key, fun s => field (of s)⟩ (.table entries) = none :=
            written_of_missing hfind
          rw [hnone] at hx
          cases hx
      | some x =>
          rw [hfind] at hsection
          obtain ⟨inner, rfl⟩ := htabled.of_find? hfind
          have hinner := Toml.ordered_table_iff.1 (value _ _ (Assoc.mem_of_find? hfind))
          have hlist := hkey (Toml.entriesToJson inner) (of s)
            (by rw [Toml.keys_entriesToJson]; exact hinner.ascending.nodup) hsection
          rw [Toml.find?_entriesToJson] at hlist
          have hwritten : written ⟨place, key, fun s => field (of s)⟩ (.table entries)
              = Assoc.find? key inner := written_of_section hfind
          refine ⟨?_, ?_⟩
          · intro hnone
            rw [← hwritten, hnone] at hlist
            exact (Except.ok.inj hlist).symm
          · intro x hx
            rw [← hwritten, hx] at hlist
            obtain ⟨items, harray, hmem⟩ := hread hlist
            -- Only an array decodes to a list.
            cases x with
            | array values =>
                rw [Toml.toJson, Toml.itemsToJson_eq] at harray
                cases harray
                refine ⟨values, rfl, ?_⟩
                intro t
                rw [hmem, List.mem_map]
            | _ => cases harray
  | _ => cases h

/-- A list setting holds what is written for it. -/
theorem holds_of_settings (hσ : σ ∈ all) {document : Toml} (hordered : document.Ordered)
    (htabled : σ.Tabled document) (h : Schema.settings document.toJson = .ok s) :
    σ.Holds document s := by
  obtain ⟨hnaming, hstructural, hstyle, hdocs, hscanner⟩ := Schema.reads_sections
  obtain ⟨hexempt, hrequired, hrecommended, hextensions, hquote, hdocuments, hheadings, hexclude⟩ :=
    Schema.reads_lists
  simp only [all, List.mem_cons, List.not_mem_nil, or_false] at hσ
  rcases hσ with rfl | rfl | rfl | rfl | rfl | rfl | rfl | rfl
  · exact holds_of_reads hnaming hexempt Schema.of_textSet hordered htabled h
  · exact holds_of_reads hstructural hrequired Schema.of_textSet hordered htabled h
  · exact holds_of_reads hstructural hrecommended Schema.of_textSet hordered htabled h
  · exact holds_of_reads hstyle hextensions Schema.of_textSet hordered htabled h
  · exact holds_of_reads hstyle hquote Schema.of_textSet hordered htabled h
  · exact holds_of_reads hdocs hdocuments Schema.of_textSet hordered htabled h
  · exact holds_of_reads hdocs hheadings Schema.of_textSet hordered htabled h
  · exact holds_of_reads hscanner hexclude Schema.of_textsOf hordered htabled h

/-! ## Lists over a preset -/

/-- Over another document the list is laid over what that writes. -/
theorem written_laid {below : Option Toml} {document : Toml} (hordered : document.Ordered)
    (htable : document.entries?.isSome) (htabled : σ.Tabled document) :
    σ.written (laid below document)
      = (σ.written document).elim (below.bind σ.written)
          fun x => some (laid (below.bind σ.written) x) := by
  have hbind : (below.bind (Toml.find? σ.place)).bind (Toml.find? σ.key) = below.bind σ.written :=
    Option.bind_assoc ..
  cases hordered with
  | @table overlay ascending value =>
      obtain ⟨entries, heq, hfind⟩ := laid_table below ascending.nodup
      have hplace : (laid below (.table overlay)).find? σ.place
          = (Assoc.find? σ.place overlay).elim (below.bind (Toml.find? σ.place))
              fun x => some (laid (below.bind (Toml.find? σ.place)) x) := by
        rw [heq]
        exact hfind σ.place
      -- Laying goes down twice: to the section, and within it to the list.
      cases hsection : Assoc.find? σ.place overlay with
      | none =>
          have hnone : σ.written (.table overlay) = none := written_of_missing hsection
          rw [hnone, written, hplace, hsection]
          exact hbind
      | some x =>
          obtain ⟨inner, rfl⟩ := htabled.of_find? hsection
          have hinner := Toml.ordered_table_iff.1 (value _ _ (Assoc.mem_of_find? hsection))
          obtain ⟨merged, hmerged, hkey⟩ :=
            laid_table (below.bind (Toml.find? σ.place)) hinner.ascending.nodup
          have hsome : σ.written (.table overlay) = Assoc.find? σ.key inner :=
            written_of_section hsection
          rw [hsome, written, hplace, hsection, ← hbind]
          change (some (laid (below.bind (Toml.find? σ.place)) (.table inner))).bind _ = _
          rw [hmerged]
          exact hkey σ.key
  | _ => cases htable

/-- The section stays a table. -/
theorem tabled_laid {below : Option Toml} {document : Toml} (hordered : document.Ordered)
    (htable : document.entries?.isSome) (htabled : σ.Tabled document)
    (hbelow : ∀ base, below = some base → σ.Tabled base) : σ.Tabled (laid below document) := by
  cases hordered with
  | @table overlay ascending value =>
      obtain ⟨entries, heq, hfind⟩ := laid_table below ascending.nodup
      rw [heq]
      change (Assoc.find? σ.place entries).all _ = true
      rw [hfind]
      cases hsection : Assoc.find? σ.place overlay with
      | none =>
          cases below with
          | none => rfl
          | some base => exact hbelow base rfl
      | some x =>
          obtain ⟨inner, rfl⟩ := htabled.of_find? hsection
          have hinner := Toml.ordered_table_iff.1 (value _ _ (Assoc.mem_of_find? hsection))
          obtain ⟨merged, hmerged, _⟩ :=
            laid_table (below.bind (Toml.find? σ.place)) hinner.ascending.nodup
          simp [hmerged, Toml.entries?]
  | _ => cases htable

/-! ## Presets -/

/-- The name of the preset is no list. -/
theorem Holds.withPreset (hσ : σ ∈ all) {document : Toml} (h : σ.Holds document s)
    (preset : Option String) : σ.Holds document { s with preset } := by
  simp only [all, List.mem_cons, List.not_mem_nil, or_false] at hσ
  rcases hσ with rfl | rfl | rfl | rfl | rfl | rfl | rfl | rfl <;> exact ⟨h.absent, h.present⟩

/-- The sections of presets are tables, and presets are accepted without a document. -/
theorem of_preset {name : String} {base : Toml} (h : Preset.find? name = some base) :
    base.entries?.isSome ∧ (∀ σ ∈ all, σ.Tabled base) ∧
      ∃ defaults, loadDefaults (some name) = .ok defaults := by
  have hall : ∀ e ∈ Preset.all, e.2.entries?.isSome ∧ (∀ σ ∈ all, σ.Tabled e.2) ∧
      (loadDefaults (some e.1)).toOption.isSome := by decide +kernel
  obtain ⟨htable, htabled, hload⟩ := hall _ (Assoc.mem_of_find? h)
  refine ⟨htable, htabled, ?_⟩
  cases hdefaults : loadDefaults (some name) with
  | error e => simp [hdefaults, Except.toOption] at hload
  | ok defaults => exact ⟨defaults, rfl⟩

/-- Without a document the lists are those of the preset's own document. -/
theorem holds_of_loadDefaults (hσ : σ ∈ all) {name : String} {base : Toml}
    (hbase : Preset.find? name = some base) {defaults : Loaded}
    (h : loadDefaults (some name) = .ok defaults) : σ.Holds base defaults.settings := by
  obtain ⟨htable, htabled, _⟩ := of_preset hbase
  obtain ⟨_, ⟨read, hread, hdefaults⟩, _⟩ := of_resolve (of_loadDefaults h)
  have hlaid : laid (baseOf (some name) (.table [])) (.table []) = base := by
    have hname : baseOf (some name) (.table []) = some base := hbase
    rw [hname]
    cases base with
    | table entries => rfl
    | _ => simp [Toml.entries?] at htable
  rw [hlaid] at hread
  rw [hdefaults]
  exact (holds_of_settings hσ (Preset.ordered_of_find? hbase) (htabled σ hσ) hread).withPreset hσ _

/-- Markers are no texts. -/
theorem toJson_stripMarkers {x : Toml} {t : String} :
    (stripMarkers x).toJson = .string t ↔ x.toJson = .string t := by
  cases x with
  | array items =>
      cases items with
      | nil => simp [stripMarkers, Toml.toJson]
      | cons x rest => by_cases h : isMarker x = true <;> simp [stripMarkers, h, Toml.toJson]
  | table entries => simp [stripMarkers, Toml.toJson]
  | _ => simp [stripMarkers]

/-- Only a list becomes a list. -/
theorem array_of_laid {below : Option Toml} {x : Toml} {items : List Toml}
    (h : laid below x = .array items) : ∃ own, x = .array own := by
  cases x with
  | array own => exact ⟨own, rfl⟩
  | table overlay =>
      cases below with
      | none => cases h
      | some base => cases base <;> cases h
  | _ => cases below <;> cases h

/--
What a list holds over a preset whose own lists are known: the preset's elements too if the preset
writes the list or the document does not, and else the document's alone.
-/
theorem Holds.extends {base document layers : Toml} {built loaded : Settings}
    (hbase : σ.Holds base built) (hover : σ.Holds layers loaded)
    (hwritten : σ.written layers = (σ.written document).elim (σ.written base)
      fun x => some (laid (σ.written base) x))
    (hreset : σ.resets document = false) :
    ((σ.written base).isSome ∨ σ.written document = none → ∀ t ∈ σ.get built, t ∈ σ.get loaded) ∧
      (σ.written base = none → ∀ x, σ.written document = some x →
        ∃ items, x = .array items ∧
          ∀ t, t ∈ σ.get loaded ↔ ∃ item ∈ items, item.toJson = .string t) := by
  -- Either the document leaves the list to the base, or it lays its own items over it.
  cases hown : σ.written document with
  | none =>
      have hsame : σ.written layers = σ.written base := by
        rw [hwritten, hown]
        rfl
      refine ⟨?_, fun _ x hx => absurd hx (by simp)⟩
      intro _ t ht
      cases hlist : σ.written base with
      | none => rwa [hover.absent (hsame.trans hlist), ← hbase.absent hlist]
      | some b =>
          obtain ⟨items, rfl, hmem⟩ := hbase.present b hlist
          obtain ⟨items', heq, hmem'⟩ := hover.present _ (hsame.trans hlist)
          cases heq
          exact (hmem' t).2 ((hmem t).1 ht)
  | some x =>
      have hlaid : σ.written layers = some (laid (σ.written base) x) := by
        rw [hwritten, hown]
        rfl
      obtain ⟨items, heq, hmem⟩ := hover.present _ hlaid
      obtain ⟨own, rfl⟩ := array_of_laid heq
      have hplain : isReset own = false := by simpa [resets, hown] using hreset
      refine ⟨?_, ?_⟩
      -- Over a list of the base the own items are appended.
      · intro hcase t ht
        obtain ⟨b, hlist⟩ := Option.isSome_iff_exists.1 (hcase.resolve_right (by simp))
        obtain ⟨others, rfl, hothers⟩ := hbase.present b hlist
        rw [hlist, laid_array_of_array hplain] at heq
        cases heq
        rcases (hothers t).1 ht with ⟨item, hitem, htext⟩
        exact (hmem t).2 ⟨item, List.mem_append_left own hitem, htext⟩
      -- Without one they are all there is.
      · intro hlist y hy
        cases hy
        rw [hlist, laid_array hplain (by simp)] at heq
        cases heq
        refine ⟨own, rfl, ?_⟩
        intro t
        rw [hmem]
        simp [toJson_stripMarkers]

end ListSetting

/--
Settings that are loaded over a preset hold every element of a list that the preset spells out, and
of a list that the document leaves out, unless the document begins the list with the reset marker.
Of a list that only the document writes they hold what the document writes, and no built-in values.
-/
theorem loadFrom_extends_preset {docs : Documents} {asked : Option String} {path content : String}
    {document : Toml} {loaded : Loaded} {name : String}
    (hread : docs.read path = .ok content) (hparse : parseDocument path content = .ok document)
    (hload : loadFrom docs asked path = .ok loaded)
    (hpreset : loaded.settings.preset = some name) :
    ∃ base defaults, Preset.find? name = some base ∧ loadDefaults (some name) = .ok defaults ∧
      ∀ σ ∈ ListSetting.all, σ.Tabled document → σ.resets document = false →
        ((σ.written base).isSome ∨ σ.written document = none →
          ∀ t ∈ σ.get defaults.settings, t ∈ σ.get loaded.settings) ∧
        (σ.written base = none → ∀ x, σ.written document = some x →
          ∃ items, x = .array items ∧
            ∀ t, t ∈ σ.get loaded.settings ↔ ∃ item ∈ items, item.toJson = .string t) := by
  have hresolve := resolve_of_loadFrom hread hparse hload
  obtain ⟨⟨entries, rfl, _⟩, ⟨read, hsettings, hloaded⟩, hknown⟩ := of_resolve hresolve
  have hasked : presetOf asked (.table entries) = some name := by
    rw [hloaded] at hpreset
    exact hpreset
  obtain ⟨base, hbase⟩ := Option.isSome_iff_exists.1 (hknown name hasked)
  obtain ⟨_, htabled, defaults, hdefaults⟩ := ListSetting.of_preset hbase
  have hbelow : baseOf asked (.table entries) = some base := by
    rw [baseOf, hasked]
    exact hbase
  rw [hbelow] at hsettings
  have hordered := ordered_of_parseDocument hparse
  have hlaid : (laid (some base) (.table entries)).Ordered :=
    ordered_laid hordered fun b hb => Option.some.inj hb ▸ Preset.ordered_of_find? hbase
  refine ⟨base, defaults, hbase, hdefaults, ?_⟩
  intro σ hσ hdocument hreset
  -- Both the settings of the preset alone and the loaded ones are what their layers write.
  have hbuilt := ListSetting.holds_of_loadDefaults hσ hbase hdefaults
  have hover : σ.Holds (laid (some base) (.table entries)) loaded.settings := by
    rw [hloaded]
    refine (ListSetting.holds_of_settings hσ hlaid ?_ hsettings).withPreset hσ _
    exact ListSetting.tabled_laid hordered rfl hdocument
      fun b hb => Option.some.inj hb ▸ htabled σ hσ
  exact hbuilt.extends hover (ListSetting.written_laid hordered rfl hdocument) hreset

/-! ## Sample documents -/

def requiringText : String := "[structureRules]\nrequiredFiles = [\"Makefile\"]\n"

theorem loadFrom_extends_preset_strict :
    ∃ document loaded defaults,
      parseDocument "/s.toml" requiringText = .ok document ∧
      loadFrom (oneDocument requiringText) (some "strict") "/s.toml" = .ok loaded ∧
      loaded.settings.preset = some "strict" ∧ loadDefaults (some "strict") = .ok defaults ∧
      ∀ t ∈ defaults.settings.standards.structural.requiredFiles,
        t ∈ loaded.settings.standards.structural.requiredFiles := by
  obtain ⟨loaded, hload, hpreset⟩ := ok_of_any
    (x := loadFrom (oneDocument requiringText) (some "strict") "/s.toml")
    (p := fun loaded => loaded.settings.preset = some "strict") (by decide +kernel)
  let σ : ListSetting :=
    ⟨"structureRules", "requiredFiles", (·.standards.structural.requiredFiles)⟩
  obtain ⟨document, hparse, htabled, hreset⟩ := ok_of_any
    (x := parseDocument "/s.toml" requiringText)
    (p := fun d => σ.Tabled d ∧ σ.resets d = false) (by decide +kernel)
  have hread : (oneDocument requiringText).read "/s.toml" = .ok requiringText := rfl
  obtain ⟨base, defaults, hbase, hdefaults, hlists⟩ :=
    loadFrom_extends_preset hread hparse hload hpreset
  have hwritten : (σ.written base).isSome := by
    cases hbase
    decide +kernel
  refine ⟨document, loaded, defaults, hparse, hload, hpreset, hdefaults, ?_⟩
  exact (hlists σ (by simp [σ, ListSetting.all]) htabled hreset).1 (.inl hwritten)

/--
Elements of a list are lost without the marker: those that only the built-in values have, if the
document writes the list; those of the preset asked for, if the document names another one; and all
of a section that the document writes as a list of its values.
-/
theorem loadFrom_loses_elements :
    (loadDefaults (some "strict")).toOption.any (fun defaults =>
        "README.md" ∈ defaults.settings.standards.naming.exemptNames ∧
        "LICENSE" ∈ defaults.settings.standards.structural.requiredFiles) = true ∧
      (loadFrom (oneDocument "[namingRules]\nexemptNames = [\"X\"]\n") (some "strict")
          "/s.toml").toOption.map (·.settings.standards.naming.exemptNames) = some ["X"] ∧
      (loadFrom (oneDocument "preset = \"python\"\n") (some "strict")
          "/s.toml").toOption.map (·.settings.standards.structural.requiredFiles)
        = some ["README.md", "requirements.txt"] ∧
      (loadFrom (oneDocument "structureRules = [\x7b\x7d, [\"X\"]]\n") (some "strict")
          "/s.toml").toOption.map (·.settings.standards.structural.requiredFiles) = some ["X"] := by
  decide +kernel

end Standards
end ProjectConsistency
