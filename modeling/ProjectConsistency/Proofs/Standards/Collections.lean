import ProjectConsistency.Proofs.Standards.Accepted

/-!
# Collections — the keyed collections of the rules, over a preset

This file defines:

* `firstIn` — what a section holds for its first field;
* `ReadsFirst` — settings are read from what is written for the first field of a section;
* `Collection` — a keyed collection that is the first field of a section of the rules;
* `Collection.directories`, `Collection.configFiles` — the two that there are;
* `Collection.written`, `Collection.under`, `Collection.combined` — what a document writes for a
  collection, what is below that, and both together;
* `Collection.HasKey`, `Collection.Filled` — the keys of a collection and their order.

A section is written as a table or as a list, and in the list its first field comes first.  So the
collection of the layers is the one of the document over the one of the preset
(`Collection.firstIn_laid`), which is what the settings are read from (`Collection.read_of_resolve`).
Tables hold their keys in ascending order, so the collection has all keys of the two in this order,
in whichever order they were written (`Collection.filled_of_resolve`).
-/

namespace ProjectConsistency
namespace Standards

open FileSystem

/-! ## First fields -/

/-- What a section holds for its first field.  The section can be a table, or a list of its fields. -/
def firstIn (key : String) : Toml → Option Toml
  | .array xs => xs.head?
  | x => x.find? key

namespace Schema

variable {α β : Type} {set : Setter α} {r r' start : α} {key : String} {read : Json → Read β}
  {get : α → β}

/-- Items for other fields leave a field alone. -/
theorem Field.kept_items (hfield : Field set key read get) {fields : List String}
    (hkey : key ∉ fields) {items rest : List Json}
    (h : setItems set r fields items = .ok (r', rest)) : get r' = get r := by
  -- By induction on the fields, each of which takes one item as long as there are items.
  induction fields generalizing r items with
  | nil =>
      cases h
      rfl
  | cons name fields ih =>
      obtain ⟨hname, hfields⟩ := not_or.1 (mt List.mem_cons.2 hkey)
      cases items with
      | nil =>
          cases h
          rfl
      | cons x items =>
          rcases ok_of_bind h with ⟨next, hset, hitems⟩
          exact (ih hfields hitems).trans (hfield.other (Ne.symm hname) hset)

/-- A record that is read holds what is written for its first field. -/
theorem Field.first (hfield : Field set key read get) {nested : Bool} {name : String}
    {fields : List String} (hkey : key ∉ fields) {x : Toml} (hx : x.Ordered)
    (h : record nested name (key :: fields) set start x.toJson = .ok r) :
    readOr read (get start) ((firstIn key x).map Toml.toJson) = .ok (get r) := by
  cases hx with
  | @table entries ascending _ =>
      have hread := reads_of_field hfield (Toml.entriesToJson entries) r
        (by rw [Toml.keys_entriesToJson]; exact ascending.nodup) h
      rwa [Toml.find?_entriesToJson] at hread
  | @array xs _ =>
      rw [Toml.toJson, Toml.itemsToJson_eq] at h
      rcases ok_of_bind h with ⟨⟨result, rest⟩, hitems, h⟩
      have hresult : result = r := by
        by_cases hrest : rest.isEmpty = true
        · simpa [hrest, pure, Except.pure] using h
        · simp [hrest] at h
      subst hresult
      cases xs with
      | nil =>
          cases hitems
          rfl
      | cons x xs =>
          rcases ok_of_bind hitems with ⟨next, hset, hitems⟩
          rw [hfield.kept_items hkey hitems]
          exact hfield.own hset
  | _ => cases h

/-- A record is written as a table or as a list. -/
theorem table_or_array {nested : Bool} {name : String} {fields : List String} {x : Toml}
    (h : record nested name fields set start x.toJson = .ok r) :
    (∃ entries, x = .table entries) ∨ ∃ xs, x = .array xs := by
  cases x with
  | table entries => exact .inl ⟨entries, rfl⟩
  | array xs => exact .inr ⟨xs, rfl⟩
  | _ => cases h

/-- A section of rules is read from what is written for it. -/
theorem Field.of_settings {place : String} {reader : Json → Read α} {of : Standards → α}
    (hplace : Field setRules place reader of) {value : Toml} (hvalue : value.Ordered) {s : Settings}
    (h : settings value.toJson = .ok s) :
    readOr reader (of {}) ((value.find? place).map Toml.toJson) = .ok (of s.standards) := by
  cases hvalue with
  | @table entries ascending _ =>
      have hread := reads_rules hplace (Toml.entriesToJson entries) s
        (by rw [Toml.keys_entriesToJson]; exact ascending.nodup) h
      rwa [Toml.find?_entriesToJson] at hread
  | _ => cases h

end Schema

/-! ## Collections -/

section

variable {α β : Type} {set : Schema.Setter β} {of : Standards → β} {place key name : String}
  {fields : List String} {item : Json → Schema.Read α} {get : β → List (String × α)}

/-- Settings that are read hold what is written for the first field of a section, which is a table or
a list. -/
structure ReadsFirst (place key : String) (item : Json → Schema.Read α)
    (get : Standards → List (String × α)) : Prop where
  table_or_array : ∀ {value x : Toml} {s : Settings}, value.Ordered →
    Schema.settings value.toJson = .ok s → value.find? place = some x →
      (∃ entries, x = .table entries) ∨ ∃ xs, x = .array xs
  first : ∀ {value : Toml} {s : Settings}, value.Ordered → Schema.settings value.toJson = .ok s →
    Schema.readOr (Schema.keyed item) (get {})
      (((value.find? place).bind (firstIn key)).map Toml.toJson) = .ok (get s.standards)

theorem ReadsFirst.of_fields
    (hplace : Schema.Field Schema.setRules place
      (Schema.record true name (key :: fields) set (of {})) of)
    (hfield : Schema.Field set key (Schema.keyed item) get) (hkey : key ∉ fields) :
    ReadsFirst place key item fun standards => get (of standards) := by
  refine ⟨?_, ?_⟩
  · intro value x s hvalue h hfind
    have hsection := hplace.of_settings hvalue h
    rw [hfind] at hsection
    exact Schema.table_or_array hsection
  · intro value s hvalue h
    have hsection := hplace.of_settings hvalue h
    cases hfind : value.find? place with
    | none =>
        rw [hfind] at hsection
        have hbuiltIn : of {} = of s.standards := Except.ok.inj hsection
        rw [hbuiltIn]
        rfl
    | some x =>
        rw [hfind] at hsection
        exact hfield.first hkey (hvalue.of_find? hfind) hsection

end

/-- A collection of the rules that is the first field of its section. -/
structure Collection (α : Type) where
  place : String
  key : String
  item : Json → Schema.Read α
  get : Standards → List (String × α)
  reads : ReadsFirst place key item get
  ascending : ∀ {standards : Standards}, standards.Sound → Assoc.Ascending (get standards)

namespace Collection

/-- The first fields of the sections for directories and for configuration files. -/
theorem fields_first :
    (∃ set : Schema.Setter StructureRules, Schema.structural = Schema.record true "StructureRules"
        ["requiredDirectories", "requiredFiles", "recommendedFiles", "maxDepth"] set {} ∧
      Schema.Field set "requiredDirectories" (Schema.keyed Schema.text) (·.requiredDirectories)) ∧
    ∃ set : Schema.Setter ConfigRules,
      Schema.config = Schema.record true "ConfigRules" ["perFile"] set {} ∧
      Schema.Field set "perFile" (Schema.keyed Schema.fileRule) (·.perFile) := by
  refine ⟨⟨_, rfl, ?_⟩, ⟨_, rfl, ?_⟩⟩
  all_goals
    refine ⟨fun h => Schema.own_of_bind (by exact fun _ => rfl) h, fun hne h => ?_⟩
    split at h
    all_goals first
      | exact absurd rfl hne
      | exact Schema.kept_of_bind (by exact fun _ => rfl) h
      | (cases h; rfl)

def directories : Collection String where
  place := "structureRules"
  key := "requiredDirectories"
  item := Schema.text
  get standards := standards.structural.requiredDirectories
  reads := by
    obtain ⟨_, hsection, _⟩ := Schema.fields_rules
    obtain ⟨⟨set, hset, hfield⟩, _⟩ := fields_first
    rw [hset] at hsection
    exact .of_fields hsection hfield (by decide)
  ascending h := h.directories

def configFiles : Collection ConfigFileRule where
  place := "configRules"
  key := "perFile"
  item := Schema.fileRule
  get standards := standards.config.perFile
  reads := by
    obtain ⟨_, _, _, _, hsection⟩ := Schema.fields_rules
    obtain ⟨_, set, hset, hfield⟩ := fields_first
    rw [hset] at hsection
    exact .of_fields hsection hfield (by decide)
  ascending h := h.configFiles

variable {α : Type} (c : Collection α)

/-! ## Layers -/

def written (document : Toml) : Option Toml :=
  match document.find? c.place with
  | some (.array xs) => (mergeItems [] xs).head?
  | other => other.bind (Toml.find? c.key)

/-- What is below that.  There is nothing below a section that is no table. -/
def under (below : Option Toml) (document : Toml) : Option Toml :=
  match document.find? c.place with
  | none => below.bind c.written
  | some (.table _) => below.bind c.written
  | some _ => none

/-- What a document and what is below it hold together. -/
def combined (below : Option Toml) (document : Toml) : Option Toml :=
  (c.written document).elim (c.under below document) fun x => some (laid (c.under below document) x)

variable {c} {below : Option Toml} {document : Toml}

/-- A collection that is below is in a table. -/
theorem bind_written (h : ∀ xs, below.bind (Toml.find? c.place) ≠ some (.array xs)) :
    below.bind c.written = (below.bind (Toml.find? c.place)).bind (firstIn c.key) ∧
      below.bind c.written = (below.bind (Toml.find? c.place)).bind (Toml.find? c.key) := by
  cases below with
  | none => exact ⟨rfl, rfl⟩
  | some base =>
      cases hbase : base.find? c.place with
      | none => simp [written, hbase]
      | some x =>
          cases x with
          | array xs => exact absurd hbase (h xs)
          | _ => simp [written, firstIn, hbase]

/-- The collection in the layers is that of a document over the one below it. -/
theorem firstIn_laid (hordered : document.Ordered) (htable : document.entries?.isSome)
    (hbelow : ∀ xs, below.bind (Toml.find? c.place) ≠ some (.array xs))
    (hlisted : ∀ x, (laid below document).find? c.place = some x →
      (∃ entries, x = .table entries) ∨ ∃ xs, x = .array xs) :
    ((laid below document).find? c.place).bind (firstIn c.key) = c.combined below document := by
  obtain ⟨hsame, hkey⟩ := bind_written hbelow
  cases hordered with
  | @table overlay ascending value =>
      obtain ⟨entries, heq, hfind⟩ := laid_table below ascending.nodup
      have hlayer : (laid below (.table overlay)).find? c.place
          = (Assoc.find? c.place overlay).elim (below.bind (Toml.find? c.place))
              fun x => some (laid (below.bind (Toml.find? c.place)) x) := by
        rw [heq]
        exact hfind c.place
      have hown : (Toml.table overlay).find? c.place = Assoc.find? c.place overlay := rfl
      rw [combined, written, under, hown]
      cases hsection : Assoc.find? c.place overlay with
      | none =>
          rw [hlayer, hsection]
          exact hsame.symm
      | some x =>
          rw [hsection] at hlayer
          have hlaid : (laid below (.table overlay)).find? c.place
              = some (laid (below.bind (Toml.find? c.place)) x) := hlayer
          rw [hlaid]
          -- A section of the document is a table, a list or something that no section is read from.
          cases value _ _ (Assoc.mem_of_find? hsection) with
          | @table inner hinner _ =>
              -- The section is merged key by key, and the collection is at one of the keys.
              obtain ⟨merged, hmerged, hinside⟩ :=
                laid_table (below.bind (Toml.find? c.place)) hinner.nodup
              rw [hmerged]
              simp only [hkey]
              exact hinside c.key
          | @array xs _ =>
              -- There is no list below, so the items stay as they are but for their markers.
              have hlist : laid (below.bind (Toml.find? c.place)) (.array xs)
                  = .array ((mergeItems [] xs).map stripMarkers) := by
                rw [← stripMarkers_array]
                cases hbase : below.bind (Toml.find? c.place) with
                | none => rfl
                | some b =>
                    cases b with
                    | array others => exact absurd hbase (hbelow others)
                    | _ => rfl
              rw [hlist, Option.bind_some, firstIn, List.head?_map]
              change _ = (mergeItems [] xs).head?.elim none fun x => some (stripMarkers x)
              cases (mergeItems [] xs).head? <;> rfl
          | _ =>
              have hfault := hlisted _ hlaid
              generalize below.bind (Toml.find? c.place) = base at hfault
              cases base <;> simp [laid, merge, stripMarkers] at hfault
  | _ => cases htable

/-- The sections of a preset are tables. -/
theorem tabled_of_baseOf {asked : Option String} (place : String) (document : Toml)
    (xs : List Toml) :
    (baseOf asked document).bind (Toml.find? place) ≠ some (.array xs) := by
  have hall : ∀ e ∈ Preset.all, ∀ entries ∈ e.2.entries?, ∀ entry ∈ entries,
      entry.2.entries?.isSome = true := by
    decide +kernel
  -- A list would be the section of a preset, and the presets can be looked through.
  intro hlist
  obtain ⟨base, hbase, hfind⟩ := Option.bind_eq_some_iff.1 hlist
  obtain ⟨name, hpreset⟩ := of_baseOf hbase
  obtain ⟨entries, hentries, hplace⟩ := Option.bind_eq_some_iff.1 hfind
  have htable := hall _ (Assoc.mem_of_find? hpreset) entries hentries _ (Assoc.mem_of_find? hplace)
  cases htable

/-- Accepted settings hold the collection of the document over that of its preset. -/
theorem read_of_resolve {asked : Option String} (hordered : document.Ordered) {s : Settings}
    (h : resolve asked document = .ok s) :
    Schema.readOr (Schema.keyed c.item) (c.get {})
      ((c.combined (baseOf asked document) document).map Toml.toJson) = .ok (c.get s.standards) := by
  obtain ⟨⟨overlay, hdocument, _⟩, ⟨read, hread, rfl⟩, _⟩ := of_resolve h
  have htable : document.entries?.isSome := by simp [hdocument, Toml.entries?]
  have hlayers : (laid (baseOf asked document) document).Ordered := by
    refine ordered_laid hordered ?_
    intro b hb
    obtain ⟨_, hfind⟩ := of_baseOf hb
    exact Preset.ordered_of_find? hfind
  have hfirst := firstIn_laid (c := c) hordered htable
    (tabled_of_baseOf c.place document) fun x hx => c.reads.table_or_array hlayers hread hx
  have hcollection := c.reads.first hlayers hread
  rwa [hfirst] at hcollection

/-- Below the collection of a document is that of its preset. -/
theorem of_under {asked : Option String} {v : Toml}
    (h : c.under (baseOf asked document) document = some v) :
    ∃ name base, Preset.find? name = some base ∧ c.written base = some v := by
  have hbase : (baseOf asked document).bind c.written = some v := by
    rw [under] at h
    split at h
    · exact h
    · exact h
    · cases h
  obtain ⟨base, hbase, hwritten⟩ := Option.bind_eq_some_iff.1 hbase
  obtain ⟨name, hfind⟩ := of_baseOf hbase
  exact ⟨name, base, hfind, hwritten⟩

theorem ordered_written {v : Toml} (h : document.Ordered) (hv : c.written document = some v) :
    v.Ordered := by
  rw [written] at hv
  split at hv
  · rename_i xs hxs
    have hlist : (Toml.array xs).Ordered := h.of_find? hxs
    have hmem : v ∈ xs := by
      have hmerged : v ∈ mergeItems [] xs := List.mem_of_head? hv
      by_cases hreset : isReset xs = true
      · rw [mergeItems, if_pos hreset] at hmerged
        exact List.mem_of_mem_drop hmerged
      · rwa [mergeItems, if_neg hreset] at hmerged
    exact Toml.hereditary_ordered.items hlist v hmem
  · rcases Option.bind_eq_some_iff.1 hv with ⟨x, hx, hv⟩
    exact (h.of_find? hx).of_find? hv

/-! ## Keys -/

/-- The document or what is below it has the key. -/
def HasKey (c : Collection α) (below : Option Toml) (document : Toml) (key : String) : Prop :=
  ((c.written document).bind (Toml.find? key)).isSome ∨
    ((c.under below document).bind (Toml.find? key)).isSome

/-- A collection has the keys that are written for it, in ascending order, or is the built-in one. -/
structure Filled (c : Collection α) (below : Option Toml) (document : Toml)
    (standards : Standards) : Prop where
  ascending : Assoc.Ascending (c.get standards)
  written : (c.written document).isSome ∨ (c.under below document).isSome →
    ∀ key, key ∈ Assoc.keys (c.get standards) ↔ c.HasKey below document key
  builtIn : c.written document = none → c.under below document = none →
    c.get standards = c.get {}

/-- A collection that is read has the keys of what is written. -/
theorem mem_keys_of_keyed {v : Toml} {found : List (String × α)}
    (h : Schema.keyed c.item v.toJson = .ok found) (key : String) :
    key ∈ Assoc.keys found ↔ (v.find? key).isSome := by
  cases v with
  | table entries =>
      have hkeys : Assoc.keys found = Assoc.keys (Toml.entriesToJson entries) :=
        Schema.keys_of_keyed h
      rw [hkeys, Toml.keys_entriesToJson, ← Assoc.isSome_find?_iff]
      rfl
  | _ => cases h

/-- So does one that is read from what is laid over another one. -/
theorem mem_keys_of_keyed_laid {below : Option Toml} {v : Toml} (hv : v.Ordered)
    {found : List (String × α)} (h : Schema.keyed c.item (laid below v).toJson = .ok found)
    (key : String) :
    key ∈ Assoc.keys found ↔
      (v.find? key).isSome ∨ (below.bind (Toml.find? key)).isSome := by
  rw [mem_keys_of_keyed h]
  cases hv with
  | @table overlay ascending _ =>
      obtain ⟨entries, heq, hfind⟩ := laid_table below ascending.nodup
      have hlayer : (Toml.table entries).find? key = Assoc.find? key entries := rfl
      have hown : (Toml.table overlay).find? key = Assoc.find? key overlay := rfl
      rw [heq, hlayer, hfind, hown]
      cases Assoc.find? key overlay <;> simp
  | @array xs _ =>
      obtain ⟨merged, heq⟩ := exists_laid_array below xs
      rw [heq] at h
      cases h
  | _ => cases below <;> cases h

/-- The collections of accepted settings have the keys of the document and of its preset. -/
theorem filled_of_resolve {asked : Option String} (hordered : document.Ordered) {s : Settings}
    (h : resolve asked document = .ok s) (hsound : s.standards.Sound) :
    c.Filled (baseOf asked document) document s.standards := by
  have hread := read_of_resolve (c := c) hordered h
  refine ⟨c.ascending hsound, ?_, ?_⟩
  · -- The document writes the collection, or else what is below it does.
    intro hsome key
    rw [combined] at hread
    rw [HasKey]
    cases hown : c.written document with
    | some x =>
        rw [hown] at hread
        exact mem_keys_of_keyed_laid (ordered_written hordered hown) hread key
    | none =>
        cases hunder : c.under (baseOf asked document) document with
        | none => simp [hown, hunder] at hsome
        | some b =>
            rw [hown, hunder] at hread
            rw [mem_keys_of_keyed hread]
            simp
  · intro hown hunder
    rw [combined, hown, hunder] at hread
    exact (Except.ok.inj hread).symm

end Collection

end Standards
end ProjectConsistency
