import ProjectConsistency.Proofs.Standards.Distinct
import ProjectConsistency.Proofs.Standards.Fields

/-!
# Sound — what holds for rules that were loaded

This file defines:

* `Json.Regular` — integers of a document have a limit, and names stand in order;
* `Schema.Keeps` — what a reader reads has a property;
* `Standards.Sound` — sets without repetitions, maps in order, counts that fit a document.

A parsed document is regular just if its parts are (`hereditary_regular`), so it is regular over its
preset and without its markers.  Each step that sets a field keeps the field sound (`Field.keeps`), so
a record that is read is sound, whether it was a table or a list (`keeps_of_field`), and so are all
rules (`sound_of_settings`).
-/

namespace ProjectConsistency

/-- Integers are small enough for a document, and names stand in ascending order. -/
inductive Json.Regular : Json → Prop where
  | null : Regular .null
  | bool (b : Bool) : Regular (.bool b)
  | integer {n : Int} (fits : n ≤ 9223372036854775807) : Regular (.number (.integer n))
  | double (x : Double) : Regular (.number (.double x))
  | string (s : String) : Regular (.string s)
  | array {items : List Json} (each : ∀ x ∈ items, Regular x) : Regular (.array items)
  | object {members : List (String × Json)} (ascending : Assoc.Ascending members)
      (value : ∀ key x, (key, x) ∈ members → Regular x) : Regular (.object members)

namespace Standards

open FileSystem

/-! ## Documents -/

/-- The values of a document give regular JSON at every depth. -/
theorem hereditary_regular : Toml.Hereditary fun t => t.toJson.Regular where
  string := .string
  integer _ := .integer
  float := .double
  boolean := .bool
  datetime := .string
  array items h := by
    rw [Toml.toJson, Toml.itemsToJson_eq]
    exact .array (List.forall_mem_map.2 h)
  table entries h := by
    rw [Toml.toJson, Toml.entriesToJson_eq]
    refine .object ?_ ?_
    · rw [Assoc.Ascending, Assoc.keys_mapValues]
      exact h.ascending
    · intro key x hx
      obtain ⟨⟨_, y⟩, hy, heq⟩ := List.mem_map.1 hx
      cases heq
      exact h.value _ y hy
  items h := by
    rw [Toml.toJson, Toml.itemsToJson_eq] at h
    cases h with
    | array each => exact List.forall_mem_map.1 each
  entries h := by
    rw [Toml.toJson, Toml.entriesToJson_eq] at h
    cases h with
    | object ascending value =>
        refine ⟨?_, ?_⟩
        · rwa [Assoc.Ascending, Assoc.keys_mapValues] at ascending
        · intro key x hx
          exact value key _ (List.mem_map.2 ⟨_, hx, rfl⟩)

namespace Schema

variable {α β : Type} {set : Setter α} {r r' start : α} {members : List (String × Json)}
  {key : String} {read : Json → Read β} {get : α → β} {P : β → Prop}

/-! ## Single values -/

/-- A count that is read fits in 63 bits. -/
theorem le_of_count {x : Json} {n : Nat} (hx : x.Regular) (h : count x = .ok n) :
    n ≤ 9223372036854775807 := by
  cases hx with
  | @integer m fits =>
      by_cases hneg : m < 0
      · simp [count, hneg] at h
      · simp only [count, hneg, if_false] at h
        cases h
        omega
  | _ => cases h

theorem nodup_of_textSet {x : Json} {found : List String} (h : textSet x = .ok found) :
    found.Nodup := by
  cases htexts : textsOf "a set" x with
  | error m => simp [textSet, htexts, Except.map] at h
  | ok texts =>
      simp only [textSet, htexts, Except.map] at h
      cases h
      exact Uniques.nodup_ofList texts

/-- Members that are read keep their names and their order. -/
theorem keys_of_keyed {item : Json → Read α} {found : List (String × α)}
    (h : keyed item (.object members) = .ok found) : Assoc.keys found = Assoc.keys members := by
  have hmapM : (members.mapM fun entry => (item entry.2).map ((entry.1, ·))) = .ok found := h
  clear h
  induction members generalizing found with
  | nil =>
      cases hmapM
      rfl
  | cons entry rest ih =>
      obtain ⟨key, x⟩ := entry
      rw [List.mapM_cons] at hmapM
      rcases ok_of_bind hmapM with ⟨first, hfirst, hmapM⟩
      rcases ok_of_bind hmapM with ⟨others, hothers, hmapM⟩
      cases hmapM
      cases hitem : item x with
      | error m => simp [hitem, Except.map] at hfirst
      | ok v =>
          simp only [hitem, Except.map] at hfirst
          cases hfirst
          exact congrArg (key :: ·) (ih hothers)

theorem ascending_of_keyed {item : Json → Read α} {x : Json} {found : List (String × α)}
    (hx : x.Regular) (h : keyed item x = .ok found) : Assoc.Ascending found := by
  cases hx with
  | object ascending _ => rwa [Assoc.Ascending, keys_of_keyed h]
  | _ => cases h

/-! ## Records -/

def Keeps (reader : Json → Read α) (get : α → β) (P : β → Prop) : Prop :=
  ∀ x r, x.Regular → reader x = .ok r → P (get r)

/-- A setter keeps a property of a field if what it reads for the field has it. -/
theorem Field.keeps {name : String} {x : Json} (hfield : Field set key read get)
    (hread : ∀ x v, x.Regular → read x = .ok v → P v) (hx : x.Regular)
    (h : set name x r = .ok r') (hr : P (get r)) : P (get r') := by
  by_cases hname : name = key
  · subst hname
    exact hread x _ hx (hfield.own h)
  · rwa [hfield.other hname h]

/-- A property of the values read under a key is kept by every other step. -/
theorem Field.keeps_steps (hfield : Field set key read get)
    (hread : ∀ x v, x.Regular → read x = .ok v → P v)
    (hmembers : ∀ name x, (name, x) ∈ members → x.Regular) (h : Steps set r members r')
    (hr : P (get r)) : P (get r') := by
  induction h with
  | nil => exact hr
  | cons hset _ ih =>
      exact ih (fun name x hx => hmembers name x (List.mem_cons_of_mem _ hx))
        (hfield.keeps hread (hmembers _ _ List.mem_cons_self) hset hr)

/-- The same for values in order. -/
theorem Field.keeps_items {fields : List String} {items rest : List Json}
    (hfield : Field set key read get) (hread : ∀ x v, x.Regular → read x = .ok v → P v)
    (hitems : ∀ x ∈ items, x.Regular) (h : setItems set r fields items = .ok (r', rest))
    (hr : P (get r)) : P (get r') := by
  fun_induction setItems set r fields items with
  | case1 r name fields x items ih =>
      obtain ⟨hx, hitems⟩ := List.forall_mem_cons.1 hitems
      rcases ok_of_bind h with ⟨next, hset, h⟩
      exact ih next hitems h (hfield.keeps hread hx hset hr)
  | case2 =>
      cases h
      exact hr

theorem keeps_of_field {nested : Bool} {name : String} {fields : List String} (key : String)
    (read : Json → Read β) (hread : ∀ x v, x.Regular → read x = .ok v → P v)
    (hstart : P (get start)) (hfield : Field set key read get) :
    Keeps (record nested name fields set start) get P := by
  -- A record is a table, or a list of values in the order of the fields.
  intro x r hx h
  cases hx with
  | object _ value => exact hfield.keeps_steps hread value (of_setMembers h).1 hstart
  | array each =>
      rcases ok_of_bind h with ⟨⟨result, rest⟩, hitems, h⟩
      by_cases hrest : rest.isEmpty = true
      · simp only [hrest, if_true] at h
        cases h
        exact hfield.keeps_items hread each hitems hstart
      · simp [hrest] at h
  | _ => cases h

/-- Sets are read without repetition. -/
theorem keeps_sets :
    Keeps naming (·.exemptNames) List.Nodup ∧
      Keeps structural (·.requiredFiles) List.Nodup ∧
      Keeps structural (·.recommendedFiles) List.Nodup ∧
      Keeps style (·.extensions) List.Nodup ∧
      Keeps style (·.quoteExtensions) List.Nodup ∧
      Keeps docs (·.requiredFiles) List.Nodup ∧
      Keeps docs (·.requiredSections) List.Nodup := by
  have hset : ∀ (x : Json) (v : List String), x.Regular → textSet x = .ok v → v.Nodup :=
    fun _ _ _ h => nodup_of_textSet h
  refine ⟨keeps_of_field "exemptNames" textSet hset (by decide) ?_,
    keeps_of_field "requiredFiles" textSet hset (by decide) ?_,
    keeps_of_field "recommendedFiles" textSet hset (by decide) ?_,
    keeps_of_field "extensions" textSet hset (by decide) ?_,
    keeps_of_field "quoteExtensions" textSet hset (by decide) ?_,
    keeps_of_field "requiredFiles" textSet hset (by decide) ?_,
    keeps_of_field "requiredReadmeSections" textSet hset (by decide) ?_⟩
  -- Each setter sets the field for its key and leaves it as it is for the others.
  all_goals
    refine ⟨fun h => own_of_bind (by exact fun _ => rfl) h, fun hne h => ?_⟩
    split at h
    all_goals first
      | exact absurd rfl hne
      | exact kept_of_bind (by exact fun _ => rfl) h
      | (cases h; rfl)

theorem ascending_builtIn : Assoc.Ascending ({} : ConfigRules).perFile := by
  unfold Assoc.Ascending
  decide

/-- Counts are read as they fit, and keyed collections in order. -/
theorem keeps_counts :
    Keeps structural (·.maxDepth) (· ≤ 9223372036854775807) ∧
      Keeps style (·.indentWidth) (· ≤ 9223372036854775807) ∧
      Keeps structural (·.requiredDirectories) Assoc.Ascending ∧
      Keeps config (·.perFile) Assoc.Ascending := by
  refine ⟨keeps_of_field "maxDepth" count (fun _ _ => le_of_count) (by decide) ?_,
    keeps_of_field "indentWidth" count (fun _ _ => le_of_count) (by decide) ?_,
    keeps_of_field "requiredDirectories" (keyed text) (fun _ _ => ascending_of_keyed)
      Assoc.ascending_nil ?_,
    keeps_of_field "perFile" (keyed fileRule) (fun _ _ => ascending_of_keyed)
      ascending_builtIn ?_⟩
  all_goals
    refine ⟨fun h => own_of_bind (by exact fun _ => rfl) h, fun hne h => ?_⟩
    split at h
    all_goals first
      | exact absurd rfl hne
      | exact kept_of_bind (by exact fun _ => rfl) h
      | (cases h; rfl)

end Schema

/-! ## Rules -/

/-- What holds for rules that were read from a document: there are no repetitions, names stand in
order, and counts are small enough for a document. -/
structure Sound (standards : Standards) : Prop where
  exemptNames : standards.naming.exemptNames.Nodup
  directories : Assoc.Ascending standards.structural.requiredDirectories
  files : standards.structural.requiredFiles.Nodup
  recommended : standards.structural.recommendedFiles.Nodup
  maxDepth : standards.structural.maxDepth ≤ 9223372036854775807
  indentWidth : standards.style.indentWidth ≤ 9223372036854775807
  extensions : standards.style.extensions.Nodup
  quoteExtensions : standards.style.quoteExtensions.Nodup
  documents : standards.docs.requiredFiles.Nodup
  sections : standards.docs.requiredSections.Nodup
  configFiles : Assoc.Ascending standards.config.perFile

/-- Sound standards list nothing twice where the settings keep sets. -/
theorem Sound.distinct {standards : Standards} (h : standards.Sound) : standards.Distinct where
  directories := h.directories.nodup
  files := h.files
  recommended := h.recommended
  documents := h.documents
  sections := h.sections
  configFiles := h.configFiles.nodup

/-- Settings decoded from regular values are sound. -/
theorem sound_of_settings {x : Json} {s : Settings} (hx : x.Regular)
    (h : Schema.settings x = .ok s) : s.standards.Sound := by
  obtain ⟨members, rfl, _, _, hsteps, _⟩ := Schema.of_settings h
  cases hx with
  | object _ value =>
      obtain ⟨hnaming, hstructural, hstyle, hdocs, hconfig⟩ := Schema.fields_rules
      obtain ⟨hexempt, hfiles, hrecommended, hextensions, hquote, hdocuments, hsections⟩ :=
        Schema.keeps_sets
      obtain ⟨hdepth, hindent, hdirectories, hperFile⟩ := Schema.keeps_counts
      exact {
        exemptNames := hnaming.keeps_steps hexempt value hsteps (by decide)
        directories := hstructural.keeps_steps hdirectories value hsteps Assoc.ascending_nil
        files := hstructural.keeps_steps hfiles value hsteps (by decide)
        recommended := hstructural.keeps_steps hrecommended value hsteps (by decide)
        maxDepth := hstructural.keeps_steps hdepth value hsteps (by decide)
        indentWidth := hstyle.keeps_steps hindent value hsteps (by decide)
        extensions := hstyle.keeps_steps hextensions value hsteps (by decide)
        quoteExtensions := hstyle.keeps_steps hquote value hsteps (by decide)
        documents := hdocs.keeps_steps hdocuments value hsteps (by decide)
        sections := hdocs.keeps_steps hsections value hsteps (by decide)
        configFiles := hconfig.keeps_steps hperFile value hsteps Schema.ascending_builtIn }

/-- Rules that are read from regular layers are sound, whatever the preset is. -/
theorem sound_of_layers {asked : Option String} {document : Toml} {s : Settings}
    (hlayers : (laid (baseOf asked document) document).toJson.Regular)
    (h : resolve asked document = .ok s) : s.standards.Sound := by
  obtain ⟨_, ⟨read, hread, rfl⟩, _⟩ := of_resolve h
  have hsound : read.standards.Sound := sound_of_settings hlayers hread
  exact hsound

/-- Without a preset there is only the document without its markers. -/
theorem sound_of_resolve {document : Toml} {s : Settings}
    (hdocument : (stripMarkers document).toJson.Regular) (hpreset : s.preset = none)
    (h : resolve none document = .ok s) : s.standards.Sound := by
  obtain ⟨_, ⟨read, _, rfl⟩, _⟩ := of_resolve h
  have hnone : presetOf none document = none := hpreset
  refine sound_of_layers ?_ h
  rwa [baseOf, hnone]

end Standards
end ProjectConsistency
