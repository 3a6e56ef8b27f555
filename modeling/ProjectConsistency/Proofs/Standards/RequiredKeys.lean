import ProjectConsistency.Proofs.Standards.Collections
import ProjectConsistency.Proofs.Standards.Lists

/-!
# RequiredKeys — the keys that a configuration file must define, over a preset

This file defines:

* `Toml.text?`, `Toml.items`, `textsIn` — values as texts and as lists;
* `keyItems` — what a rule for a configuration file writes for its keys, in either form;
* `keyItemsUnder` — what is below that in a rule of the same form;
* `fileRules?`, `fileRulesUnder` — the rules that a document writes, and what is below them;
* `keysOver` — the keys of a rule over another one;
* `AddsOnce` — a rule repeats no key, and none of the rule below it.

A rule is a list of keys, or a table with such a list.  Over a rule of the same form the keys are
appended, over one of the other form they replace it, and nothing sorts out the keys that come twice
(`requiredKeys_of_laid`).  The rules themselves are the collection `Collection.configFiles`, which
is laid over that of the preset by the names of the files, so each rule that is loaded goes back to
a rule of the document, a rule of the preset or both (`find?_perFile`).  Built-in values and presets
repeat no key, so all repetitions come from the document (`nodup_requiredKeys_iff`).
-/

namespace ProjectConsistency

namespace Toml

/-- The text that a value is read as. -/
def text? (x : Toml) : Option String :=
  match x.toJson with
  | .string s => some s
  | _ => none

def items : Toml → List Toml
  | array xs => xs
  | _ => []

theorem text?_eq_some_iff {x : Toml} {t : String} : x.text? = some t ↔ x.toJson = .string t := by
  rw [text?]
  split <;> simp_all

end Toml

namespace Standards

open FileSystem

def textsIn (xs : List Toml) : List String :=
  xs.filterMap Toml.text?

/-! ## Lists of keys -/

/-- Stripping the markers within the items leaves the texts among them. -/
theorem textsIn_map_stripMarkers (xs : List Toml) :
    textsIn (xs.map stripMarkers) = textsIn xs := by
  have hsame : ∀ x : Toml, (stripMarkers x).text? = x.text? := by
    intro x
    ext t
    rw [Toml.text?_eq_some_iff, Toml.text?_eq_some_iff, ListSetting.toJson_stripMarkers]
  rw [textsIn, List.filterMap_map, textsIn]
  exact List.filterMap_congr fun x _ => hsame x

/-- A list over another one is appended to it, but for a marker. -/
theorem textsIn_laid (below : Option Toml) (own : List Toml) :
    ∃ merged, laid below (.array own) = .array merged ∧
      textsIn merged = textsIn (mergeItems (below.elim [] Toml.items) own) := by
  have hstrip : ∃ merged, stripMarkers (.array own) = .array merged ∧
      textsIn merged = textsIn (mergeItems [] own) :=
    ⟨_, stripMarkers_array own, textsIn_map_stripMarkers _⟩
  cases below with
  | none => exact hstrip
  | some base =>
      cases base with
      | array others => exact ⟨mergeItems others own, rfl, rfl⟩
      | _ => exact hstrip

/-- Required keys that decode are the texts of an array. -/
theorem textsIn_of_texts {x : Toml} {keys : List String} (h : Schema.texts x.toJson = .ok keys) :
    ∃ xs, x = .array xs ∧ textsIn xs = keys := by
  have harray := Schema.eq_of_textsOf h
  cases x with
  | array xs =>
      refine ⟨xs, rfl, ?_⟩
      rw [Toml.toJson, Toml.itemsToJson_eq] at harray
      have hitems : xs.map Toml.toJson = keys.map .string := Json.array.inj harray
      clear h harray
      induction xs generalizing keys with
      | nil =>
          cases keys with
          | nil => rfl
          | cons key rest => cases hitems
      | cons x rest ih =>
          cases keys with
          | nil => cases hitems
          | cons key keys =>
              obtain ⟨hx, hrest⟩ := List.cons.inj hitems
              rw [textsIn, List.filterMap_cons_some (Toml.text?_eq_some_iff.2 hx)]
              exact congrArg (key :: ·) (ih hrest)
  | _ => cases harray

/-! ## Rules for configuration files -/

/-- What a rule writes for its keys: the rule itself, or the list in its long form. -/
def keyItems : Toml → List Toml
  | .table entries => (Assoc.find? "requiredKeys" entries).elim [] Toml.items
  | x => x.items

/-- What is below the keys of a rule, if the rule below has the same form. -/
def keyItemsUnder (below : Option Toml) : Toml → List Toml
  | .table _ => (below.bind (Toml.find? "requiredKeys")).elim [] Toml.items
  | _ => below.elim [] Toml.items

/-- The long form of a rule holds the keys that it writes. -/
theorem field_requiredKeys :
    Schema.Field Schema.setRule "requiredKeys" Schema.texts (·.requiredKeys) := by
  refine ⟨fun h => Schema.own_of_bind (by exact fun _ => rfl) h, fun hne h => ?_⟩
  unfold Schema.setRule at h
  split at h
  · exact absurd rfl hne
  · exact Schema.kept_of_bind (by exact fun _ => rfl) h
  · cases h
    rfl

theorem steps_of_longRule {members : List (String × Json)} {rule : ConfigFileRule}
    (h : Schema.longRule (.object members) = .ok rule) :
    Schema.Steps Schema.setRule {} members rule := by
  refine Schema.steps_of_foldlM (fun _ => id) ?_
  have hsame : ∀ x : Schema.Read ConfigFileRule, x.mapError id = x := by
    intro x
    cases x <;> rfl
  simp only [hsame]
  exact h

/-- A rule that is read holds the texts that it writes for its keys. -/
theorem requiredKeys_of_fileRule {x : Toml} (hx : x.Ordered) {rule : ConfigFileRule}
    (h : Schema.fileRule x.toJson = .ok rule) :
    rule.requiredKeys = textsIn (keyItems x) ∧
      ∀ y, x.find? "requiredKeys" = some y → ∃ xs, y = .array xs := by
  -- The short form is tried first; the long form is read only where it fails.
  cases htexts : Schema.texts x.toJson with
  | ok keys =>
      obtain ⟨xs, rfl, hkeys⟩ := textsIn_of_texts htexts
      simp only [Schema.fileRule, htexts] at h
      cases h
      exact ⟨hkeys.symm, nofun⟩
  | error m =>
      cases hlong : Schema.longRule x.toJson with
      | error m => simp [Schema.fileRule, htexts, hlong] at h
      | ok found =>
          simp only [Schema.fileRule, htexts, hlong] at h
          cases h
          cases hx with
          | @table entries ascending value =>
              have hread := field_requiredKeys.of_steps
                (by rw [Toml.keys_entriesToJson]; exact ascending.nodup) (steps_of_longRule hlong)
              rw [Toml.find?_entriesToJson] at hread
              have hfind : (Toml.table entries).find? "requiredKeys"
                  = Assoc.find? "requiredKeys" entries := rfl
              rw [hfind, keyItems]
              cases hkeys : Assoc.find? "requiredKeys" entries with
              | none =>
                  rw [hkeys] at hread
                  exact ⟨(Except.ok.inj hread).symm, nofun⟩
              | some y =>
                  rw [hkeys] at hread
                  obtain ⟨xs, rfl, htextsIn⟩ := textsIn_of_texts hread
                  refine ⟨htextsIn.symm, ?_⟩
                  intro z hz
                  cases hz
                  exact ⟨xs, rfl⟩
          | _ => cases hlong

/-- Over a rule of the same form keys are appended, and a marker or another form replaces them. -/
theorem requiredKeys_of_laid {below : Option Toml} {x : Toml} (hx : x.Ordered)
    (hlaid : (laid below x).Ordered) {rule : ConfigFileRule}
    (h : Schema.fileRule (laid below x).toJson = .ok rule) :
    rule.requiredKeys = textsIn (mergeItems (keyItemsUnder below x) (keyItems x)) := by
  obtain ⟨hkeys, harray⟩ := requiredKeys_of_fileRule hlaid h
  rw [hkeys]
  cases hx with
  | @array own _ =>
      obtain ⟨merged, heq, htexts⟩ := textsIn_laid below own
      rw [heq]
      exact htexts
  | @table entries ascending _ =>
      obtain ⟨merged, heq, hfind⟩ := laid_table below ascending.nodup
      rw [heq] at harray ⊢
      have hmerged := hfind "requiredKeys"
      rw [keyItems, keyItems, keyItemsUnder, hmerged]
      cases hown : Assoc.find? "requiredKeys" entries with
      | none => simp [mergeItems, isReset]
      | some y =>
          rw [hown] at hmerged
          obtain ⟨_, hlist⟩ := harray _ hmerged
          obtain ⟨own, rfl⟩ := ListSetting.array_of_laid hlist
          obtain ⟨list, heq', htexts⟩ :=
            textsIn_laid (below.bind (Toml.find? "requiredKeys")) own
          simp only [Option.elim, heq', Toml.items]
          exact htexts
  | _ => cases below <;> cases h

/-! ## All rules for configuration files -/

/-- Members that are read are found under their names. -/
theorem Schema.find?_keyed {α : Type} {item : Json → Read α} {members : List (String × Json)}
    {found : List (String × α)} (h : keyed item (.object members) = .ok found) (key : String) :
    (Assoc.find? key members).mapM item = .ok (Assoc.find? key found) := by
  have hmapM : (members.mapM fun entry => (item entry.2).map ((entry.1, ·))) = .ok found := h
  clear h
  induction members generalizing found with
  | nil =>
      cases hmapM
      rfl
  | cons entry rest ih =>
      obtain ⟨name, x⟩ := entry
      rw [List.mapM_cons] at hmapM
      rcases ok_of_bind hmapM with ⟨first, hfirst, hmapM⟩
      rcases ok_of_bind hmapM with ⟨others, hothers, hmapM⟩
      cases hmapM
      cases hitem : item x with
      | error m => simp [hitem, Except.map] at hfirst
      | ok v =>
          simp only [hitem, Except.map] at hfirst
          cases hfirst
          by_cases hname : name = key
          · have hread : (some x).mapM item = .ok (some v) := by
              change some <$> item x = _
              rw [hitem]
              rfl
            simpa [Assoc.find?, hname] using hread
          · simpa [Assoc.find?, hname] using ih hothers

def fileRules? (document : Toml) : Option Toml :=
  match document.find? "configRules" with
  | some (.array xs) => (mergeItems [] xs).head?
  | other => other.bind (Toml.find? "perFile")

/-- What is below these rules.  There is nothing below a section that is no table. -/
def fileRulesUnder (below : Option Toml) (document : Toml) : Option Toml :=
  match document.find? "configRules" with
  | none => below.bind fileRules?
  | some (.table _) => below.bind fileRules?
  | some _ => none

/-- The keys that a rule requires, from what a document and what is below it write for the file. -/
def keysOver (below : Option Toml) : Option Toml → Option (List String)
  | none => below.map fun b => textsIn (keyItems b)
  | some x => some (textsIn (mergeItems (keyItemsUnder below x) (keyItems x)))

/-- Rules that are read hold the keys that are written. -/
theorem find?_of_keyed {v : Toml} (hv : v.Ordered) {found : List (String × ConfigFileRule)}
    (h : Schema.keyed Schema.fileRule v.toJson = .ok found) (file : String) :
    (Assoc.find? file found).map (·.requiredKeys)
      = (v.find? file).map fun b => textsIn (keyItems b) := by
  cases v with
  | table entries =>
      have hfound := Schema.find?_keyed h file
      rw [Toml.find?_entriesToJson] at hfound
      change _ = (Assoc.find? file entries).map _
      cases hfile : Assoc.find? file entries with
      | none =>
          rw [hfile] at hfound
          rw [← Except.ok.inj hfound]
          rfl
      | some x =>
          rw [hfile] at hfound
          rcases ok_of_bind hfound with ⟨rule, hrule, hfound⟩
          rw [← Except.ok.inj hfound]
          have hwritten : (Toml.table entries).find? file = some x := hfile
          have hx : x.Ordered := hv.of_find? hwritten
          exact congrArg some (requiredKeys_of_fileRule hx hrule).1
  | _ => cases h

/-- The same for rules over other ones. -/
theorem find?_of_keyed_laid {below : Option Toml} {x : Toml} (hx : x.Ordered)
    (hbelow : ∀ b, below = some b → b.Ordered) {found : List (String × ConfigFileRule)}
    (h : Schema.keyed Schema.fileRule (laid below x).toJson = .ok found) (file : String) :
    (Assoc.find? file found).map (·.requiredKeys)
      = keysOver (below.bind (Toml.find? file)) (x.find? file) := by
  have hlayers := ordered_laid hx hbelow
  rw [find?_of_keyed hlayers h]
  cases x with
  | table overlay =>
      have hoverlay := Toml.ordered_table_iff.1 hx
      obtain ⟨entries, heq, hfind⟩ := laid_table below hoverlay.ascending.nodup
      rw [heq] at h hlayers ⊢
      change (Assoc.find? file entries).map _ = keysOver _ (Assoc.find? file overlay)
      have hfile := hfind file
      cases hown : Assoc.find? file overlay with
      | none =>
          rw [hfile, hown]
          rfl
      | some y =>
          rw [hown] at hfile
          have hread := Schema.find?_keyed h file
          rw [Toml.find?_entriesToJson, hfile] at hread
          rcases ok_of_bind hread with ⟨rule, hrule, _⟩
          have hwritten : (Toml.table entries).find? file
              = some (laid (below.bind (Toml.find? file)) y) := hfile
          have hlaid := hlayers.of_find? hwritten
          rw [hfile]
          refine congrArg some ((requiredKeys_of_fileRule hlaid hrule).1.symm.trans ?_)
          exact requiredKeys_of_laid (hoverlay.of_find? hown) hlaid hrule
  | array own =>
      obtain ⟨merged, heq, _⟩ := textsIn_laid below own
      rw [heq] at h
      cases h
  | _ => cases below <;> cases h

/-- Below the rules of a document are those of its preset. -/
theorem of_fileRulesUnder {asked : Option String} {document v : Toml}
    (h : fileRulesUnder (baseOf asked document) document = some v) :
    ∃ name base, Preset.find? name = some base ∧ fileRules? base = some v :=
  Collection.of_under (c := Collection.configFiles) h

/--
Each rule of accepted settings has the keys that the document and its preset write for its file.  If
neither writes rules for configuration files, these are the built-in ones.
-/
theorem find?_perFile {asked : Option String} {document : Toml} (hordered : document.Ordered)
    {s : Settings} (h : resolve asked document = .ok s) :
    let own := fileRules? document
    let under := fileRulesUnder (baseOf asked document) document
    (own.isSome ∨ under.isSome → ∀ file,
        (Assoc.find? file s.standards.config.perFile).map (·.requiredKeys)
          = keysOver (under.bind (Toml.find? file)) (own.bind (Toml.find? file))) ∧
      (own = none → under = none →
        s.standards.config.perFile = ({} : ConfigRules).perFile) := by
  intro own under
  have hperFile : Schema.readOr (Schema.keyed Schema.fileRule) ({} : ConfigRules).perFile
      ((own.elim under fun x => some (laid under x)).map Toml.toJson)
      = .ok s.standards.config.perFile :=
    Collection.read_of_resolve (c := Collection.configFiles) hordered h
  have hwritten : ∀ {document v : Toml}, document.Ordered → fileRules? document = some v →
      v.Ordered :=
    Collection.ordered_written (c := Collection.configFiles)
  have hown : ∀ x, own = some x → x.Ordered := fun x hx => hwritten hordered hx
  have hunder : ∀ b, under = some b → b.Ordered := by
    intro b hb
    obtain ⟨_, _, hfind, hrules⟩ := of_fileRulesUnder hb
    exact hwritten (Preset.ordered_of_find? hfind) hrules
  clear_value own under
  refine ⟨?_, ?_⟩
  · intro hsome file
    cases own with
    | some x => exact find?_of_keyed_laid (hown x rfl) hunder hperFile file
    | none =>
        cases under with
        | none => simp at hsome
        | some b => exact find?_of_keyed (hunder b rfl) hperFile file
  · rintro rfl rfl
    exact (Except.ok.inj hperFile).symm

/-! ## Repetitions -/

/-- No rule of a preset repeats a key. -/
theorem nodup_of_preset {name : String} {base : Toml} (h : Preset.find? name = some base)
    {file : String} {b : Toml} (hb : (fileRules? base).bind (Toml.find? file) = some b) :
    (textsIn (keyItems b)).Nodup := by
  have hall : ∀ e ∈ Preset.all, ∀ rules ∈ fileRules? e.2, ∀ entries ∈ rules.entries?,
      ∀ rule ∈ entries, (textsIn (keyItems rule.2)).Nodup := by decide +kernel
  obtain ⟨rules, hrules, hfile⟩ := Option.bind_eq_some_iff.1 hb
  obtain ⟨entries, hentries, hfind⟩ := Option.bind_eq_some_iff.1 hfile
  exact hall _ (Assoc.mem_of_find? h) rules hrules entries hentries (file, b)
    (Assoc.mem_of_find? hfind)

/-- The keys of a preset that the keys of a rule are appended to have no repetitions. -/
theorem nodup_under {asked : Option String} {document : Toml} (file : String) (x : Toml) :
    (textsIn (keyItemsUnder
      ((fileRulesUnder (baseOf asked document) document).bind (Toml.find? file)) x)).Nodup := by
  have hempty : ([] : List String).Nodup := List.nodup_nil
  cases hunder : (fileRulesUnder (baseOf asked document) document).bind (Toml.find? file) with
  | none => cases x <;> exact hempty
  | some b =>
      obtain ⟨v, hv, hfile⟩ := Option.bind_eq_some_iff.1 hunder
      obtain ⟨name, base, hfind, hrules⟩ := of_fileRulesUnder hv
      have hkeys : (textsIn (keyItems b)).Nodup := nodup_of_preset hfind (by rw [hrules]; exact hfile)
      -- What is below are the keys of this rule, or nothing if it has the other form.
      cases x with
      | table _ =>
          cases b with
          | table _ => exact hkeys
          | _ => exact hempty
      | _ =>
          cases b with
          | array _ => exact hkeys
          | _ => exact hempty

/-- A rule of a document repeats no key, and appends none that the rule below it has. -/
structure AddsOnce (below : Option Toml) (x : Toml) : Prop where
  own : (textsIn (mergeItems [] (keyItems x))).Nodup
  apart : isReset (keyItems x) = false →
    ∀ key ∈ textsIn (keyItems x), key ∉ textsIn (keyItemsUnder below x)

/-- Keys are added once when the merged array holds none of them twice. -/
theorem addsOnce_iff {below : Option Toml} {x : Toml}
    (h : (textsIn (keyItemsUnder below x)).Nodup) :
    AddsOnce below x ↔ (textsIn (mergeItems (keyItemsUnder below x) (keyItems x))).Nodup := by
  by_cases hreset : isReset (keyItems x) = true
  · rw [mergeItems, if_pos hreset]
    constructor
    · intro hadds
      simpa [mergeItems, hreset] using hadds.own
    · intro hnodup
      exact ⟨by simpa [mergeItems, hreset] using hnodup, by simp [hreset]⟩
  · have happend : textsIn (keyItemsUnder below x ++ keyItems x)
        = textsIn (keyItemsUnder below x) ++ textsIn (keyItems x) := List.filterMap_append
    rw [mergeItems, if_neg hreset, happend, List.nodup_append]
    constructor
    · intro hadds
      refine ⟨h, by simpa [mergeItems, hreset] using hadds.own, ?_⟩
      rintro key hunder _ hkey rfl
      exact hadds.apart (by simpa using hreset) key hkey hunder
    · rintro ⟨_, hown, hapart⟩
      refine ⟨by simpa [mergeItems, hreset] using hown, ?_⟩
      exact fun _ key hkey hunder => hapart key hunder key hkey rfl

/--
The rules of accepted settings repeat no key just if the document repeats none in a rule, and no key
that it appends to the rule of its preset is in that rule already.
-/
theorem nodup_requiredKeys_iff {asked : Option String} {document : Toml}
    (hordered : document.Ordered) {s : Settings} (h : resolve asked document = .ok s) :
    (∀ file rule, Assoc.find? file s.standards.config.perFile = some rule →
        rule.requiredKeys.Nodup) ↔
      ∀ file x, (fileRules? document).bind (Toml.find? file) = some x → AddsOnce
        ((fileRulesUnder (baseOf asked document) document).bind (Toml.find? file)) x := by
  obtain ⟨hwritten, hbuiltIn⟩ := find?_perFile hordered h
  constructor
  · intro hnodup file x hx
    obtain ⟨v, hv, _⟩ := Option.bind_eq_some_iff.1 hx
    have hkeys := hwritten (.inl (by simp [hv])) file
    rw [hx] at hkeys
    obtain ⟨rule, hrule, hsame⟩ := Option.map_eq_some_iff.1 hkeys
    rw [addsOnce_iff (nodup_under file x), ← hsame]
    exact hnodup file rule hrule
  · intro happended file rule hrule
    by_cases hnone : fileRules? document = none ∧
        fileRulesUnder (baseOf asked document) document = none
    · -- Nothing is written for configuration files.
      rw [hbuiltIn hnone.1 hnone.2] at hrule
      have hall : ∀ e ∈ ({} : ConfigRules).perFile, e.2.requiredKeys.Nodup := by decide
      exact hall _ (Assoc.mem_of_find? hrule)
    · have hsome : (fileRules? document).isSome ∨
          (fileRulesUnder (baseOf asked document) document).isSome := by
        rwa [not_and_or, ← ne_eq, ← ne_eq, Option.ne_none_iff_isSome,
          Option.ne_none_iff_isSome] at hnone
      have hkeys := hwritten hsome file
      rw [hrule] at hkeys
      cases hown : (fileRules? document).bind (Toml.find? file) with
      | some x =>
          rw [hown] at hkeys
          have hsame : rule.requiredKeys = _ := Option.some.inj hkeys
          rw [hsame]
          exact (addsOnce_iff (nodup_under file x)).1 (happended file x hown)
      | none =>
          rw [hown] at hkeys
          obtain ⟨b, hb, hsame⟩ := Option.map_eq_some_iff.1 hkeys.symm
          have hsame : textsIn (keyItems b) = rule.requiredKeys := hsame
          obtain ⟨v, hv, hfile⟩ := Option.bind_eq_some_iff.1 hb
          obtain ⟨name, base, hfind, hrules⟩ := of_fileRulesUnder hv
          rw [← hsame]
          exact nodup_of_preset hfind (by rw [hrules]; exact hfile)

end Standards
end ProjectConsistency
