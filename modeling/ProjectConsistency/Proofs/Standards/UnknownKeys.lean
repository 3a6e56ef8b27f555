import Mathlib.Data.List.Forall2
import ProjectConsistency.Proofs.Standards.Fields

/-!
# UnknownKeys — which unknown keys of a document are refused

This file defines:

* `UnknownKey` — a key that a document, or a section that is a table, cannot have;
* `dropRuleKeys` — a document without the unknown keys of its rules for configuration files;
* `Alike` — tables with the same keys, whose values are alike in some way.

A document and its sections are read by setters that refuse any other key, and no key of a document
is lost when it is laid over a preset.  The long form of a rule for a configuration file is read by a
setter that passes other keys over: a document is loaded as if they were not written.  Both halves are
in `loadFrom_unknown_keys`.
-/

namespace ProjectConsistency

namespace Assoc

variable {α : Type} {p : String → Bool}

/-- A key that is set and filtered out leaves nothing behind. -/
theorem filter_insert_of_not {key : String} (hkey : p key = false) (x : α)
    (entries : List (String × α)) :
    (insert key x entries).filter (fun e => p e.1) = entries.filter fun e => p e.1 := by
  induction entries with
  | nil => simp [insert, hkey]
  | cons entry rest ih =>
      obtain ⟨k, v⟩ := entry
      by_cases heq : key = k
      · subst heq
        simp [insert, hkey]
      · by_cases hlt : key < k
        · simp [insert, heq, hlt, hkey]
        · simp only [insert, heq, hlt, if_false, List.filter_cons, ih]

/-- A key that the filter keeps may be set before or after it. -/
theorem filter_insert_of {key : String} (hkey : p key = true) (x : α)
    {entries : List (String × α)} (h : Ascending entries) :
    (insert key x entries).filter (fun e => p e.1)
      = insert key x (entries.filter fun e => p e.1) := by
  induction entries with
  | nil => simp [insert, hkey]
  | cons entry rest ih =>
      obtain ⟨k, v⟩ := entry
      obtain ⟨hfirst, hrest⟩ := ascending_cons.1 h
      rcases lt_trichotomy key k with hlt | rfl | hgt
      · -- All keys that are left are above the new one.
        have hhead : ∀ kept : List (String × α), (∀ e ∈ kept, key < e.1) →
            insert key x kept = (key, x) :: kept := by
          intro kept hkept
          cases kept with
          | nil => rfl
          | cons e others =>
              have habove := hkept e (by simp)
              rw [insert, if_neg (ne_of_lt habove), if_pos habove]
        rw [insert, if_neg (ne_of_lt hlt), if_pos hlt, List.filter_cons_of_pos (by exact hkey),
          hhead]
        intro e he
        rcases List.mem_cons.1 (List.mem_of_mem_filter he) with rfl | hmem
        · exact hlt
        · exact lt_trans hlt (hfirst e.1 e.2 hmem)
      · simp [insert, hkey]
      · have hne := ne_of_gt hgt
        have hnlt := lt_asymm hgt
        by_cases hk : p k = true
        · simp [insert, hne, hnlt, hk, ih hrest]
        · simp [insert, hne, hnlt, hk, ih hrest]

theorem find?_filter {key : String} (hkey : p key = true) (entries : List (String × α)) :
    find? key (entries.filter fun e => p e.1) = find? key entries := by
  induction entries with
  | nil => rfl
  | cons entry rest ih =>
      obtain ⟨k, v⟩ := entry
      by_cases heq : k = key
      · subst heq
        simp [find?, hkey]
      · by_cases hk : p k = true <;> simp [find?, heq, hk, ih]

end Assoc

namespace Standards

open FileSystem

/-! ## Keys that are refused -/

def sectionKeys : List (String × List String) := [
  ("namingRules",
    ["fileCasing", "directoryCasing", "variableCasing", "constantCasing", "exemptNames"]),
  ("structureRules", ["requiredDirectories", "requiredFiles", "recommendedFiles", "maxDepth"]),
  ("styleRules",
    ["indentWidth", "quoteStyle", "requireTrailingComma", "extensions", "quoteExtensions"]),
  ("docRules", ["requiredFiles", "requiredReadmeSections"]),
  ("configRules", ["perFile"]),
  ("scanner", ["exclude", "followLinks"]),
  ("formatter", ["command"])]

/-- A document has a key that it cannot have, or one of its sections has. -/
inductive UnknownKey (document : Toml) : Prop where
  | document {entries : List (String × Toml)} {key : String} (table : document = .table entries)
      (mem : key ∈ Assoc.keys entries) (unknown : key ∉ documentKeys)
  | inSection {place : String} {keys : List String} {entries : List (String × Toml)} {key : String}
      (known : (place, keys) ∈ sectionKeys) (table : document.find? place = some (.table entries))
      (mem : key ∈ Assoc.keys entries) (unknown : key ∉ keys)

namespace Schema

/-- A table in the place of a record has only the record's keys. -/
theorem Field.keys_subset {α β : Type} {set : Setter α} {place name : String} {nested : Bool}
    {fields : List String} {setField : Setter β} {start : β} {get : α → β}
    (hfield : Field set place (record nested name fields setField start) get)
    {r r' : α} {members inner : List (String × Json)} (hsteps : Steps set r members r')
    (hmem : (place, Json.object inner) ∈ members) : ∀ key ∈ Assoc.keys inner, key ∈ fields := by
  obtain ⟨before, after, hset⟩ := hsteps.of_mem hmem
  exact (of_setMembers (hfield.own hset)).2

/-- The sections of a document that is accepted have only their own keys. -/
theorem keys_subset {place : String} {keys : List String} (hknown : (place, keys) ∈ sectionKeys)
    {members inner : List (String × Json)} {s : Settings}
    (h : settings (.object members) = .ok s) (hmem : (place, Json.object inner) ∈ members) :
    ∀ key ∈ Assoc.keys inner, key ∈ keys := by
  obtain ⟨_, heq, _, htools, hrules, _⟩ := of_settings h
  cases heq
  obtain ⟨hscanner, hformatter⟩ := fields_tools
  obtain ⟨hnaming, hstructural, hstyle, hdocs, hconfig⟩ := fields_rules
  simp only [sectionKeys, List.mem_cons, List.not_mem_nil, or_false, Prod.mk.injEq] at hknown
  rcases hknown with ⟨rfl, rfl⟩ | ⟨rfl, rfl⟩ | ⟨rfl, rfl⟩ | ⟨rfl, rfl⟩ | ⟨rfl, rfl⟩ | ⟨rfl, rfl⟩
    | ⟨rfl, rfl⟩
  · exact hnaming.keys_subset hrules hmem
  · exact hstructural.keys_subset hrules hmem
  · exact hstyle.keys_subset hrules hmem
  · exact hdocs.keys_subset hrules hmem
  · exact hconfig.keys_subset hrules hmem
  · exact hscanner.keys_subset htools hmem
  · exact hformatter.keys_subset htools hmem

end Schema

/-- A document with such a key is refused, whatever it is laid over. -/
theorem resolve_of_unknownKey {document : Toml} (hordered : document.Ordered)
    (h : UnknownKey document) (asked : Option String) : ∃ e, resolve asked document = .error e := by
  cases hresolve : resolve asked document with
  | error e => exact ⟨e, rfl⟩
  | ok s =>
      obtain ⟨⟨entries, rfl, hkeys⟩, ⟨read, hread, _⟩, _⟩ := of_resolve hresolve
      exfalso
      cases h with
      | document table mem unknown =>
          cases table
          exact unknown (hkeys _ mem)
      | @inSection place keys inner key known table mem unknown =>
          -- The key is still in its section when the document lies over the preset.
          have hascending := (Toml.ordered_table_iff.1 hordered).ascending
          have hinner := Toml.ordered_table_iff.1 (hordered.of_find? table)
          obtain ⟨merged, hmerged, hfind⟩ :=
            laid_table (baseOf asked (.table entries)) hascending.nodup
          obtain ⟨merged', hmerged', hfind'⟩ :=
            laid_table ((baseOf asked (.table entries)).bind (Toml.find? place))
              hinner.ascending.nodup
          have hsection : Assoc.find? place entries = some (.table inner) := table
          have hplace : Assoc.find? place merged = some (.table merged') := by
            rw [hfind, hsection, ← hmerged']
            rfl
          rw [hmerged] at hread
          have hmember : (place, Json.object (Toml.entriesToJson merged'))
              ∈ Toml.entriesToJson merged := by
            refine Assoc.mem_of_find? ?_
            rw [Toml.find?_entriesToJson, hplace]
            rfl
          have hkept : key ∈ Assoc.keys (Toml.entriesToJson merged') := by
            obtain ⟨x, hx⟩ := Option.isSome_iff_exists.1 ((Assoc.isSome_find?_iff _ _).2 mem)
            rw [Toml.keys_entriesToJson, ← Assoc.isSome_find?_iff, hfind', hx]
            rfl
          exact unknown (Schema.keys_subset known hread hmember key hkept)

/-! ## Tables that are alike -/

/-- Tables with the same keys in the same order, whose values are alike; or the same value. -/
inductive Alike (same : String → Toml → Toml → Prop) : Toml → Toml → Prop where
  | refl (x : Toml) : Alike same x x
  | table {entries entries' : List (String × Toml)}
      (each : List.Forall₂ (fun e e' => e.1 = e'.1 ∧ same e.1 e.2 e'.2) entries entries') :
      Alike same (.table entries) (.table entries')

variable {same : String → Toml → Toml → Prop}

/-- The table with another value at each key. -/
def mapTable (f : String → Toml → Toml) : Toml → Toml
  | .table entries => .table (entries.map fun (key, x) => (key, f key x))
  | other => other

/-- Setting alike values under one key keeps two tables alike. -/
theorem forall₂_insert {key : String} {x x' : Toml} (hx : same key x x')
    {entries entries' : List (String × Toml)}
    (h : List.Forall₂ (fun e e' => e.1 = e'.1 ∧ same e.1 e.2 e'.2) entries entries') :
    List.Forall₂ (fun e e' => e.1 = e'.1 ∧ same e.1 e.2 e'.2)
      (Assoc.insert key x entries) (Assoc.insert key x' entries') := by
  induction h with
  | nil => exact .cons ⟨rfl, hx⟩ .nil
  | @cons e e' rest rest' hfirst hrest ih =>
      obtain ⟨k, v⟩ := e
      obtain ⟨k', v'⟩ := e'
      obtain ⟨hk, hv⟩ := hfirst
      obtain rfl : k = k' := hk
      by_cases heq : key = k
      · simp only [Assoc.insert, heq, if_true]
        exact .cons ⟨rfl, heq ▸ hx⟩ hrest
      · by_cases hlt : key < k
        · simp only [Assoc.insert, heq, hlt, if_true, if_false]
          exact .cons ⟨rfl, hx⟩ (.cons ⟨rfl, hv⟩ hrest)
        · simp only [Assoc.insert, heq, hlt, if_false]
          exact .cons ⟨rfl, hv⟩ ih

/-- Changed values that are alike over what is below make the tables alike. -/
theorem forall₂_mergeEntries {f : String → Toml → Toml} {overlay start : List (String × Toml)}
    (hnodup : (Assoc.keys overlay).Nodup)
    (hsame : ∀ key x, (key, x) ∈ overlay →
      same key (laid (Assoc.find? key start) (f key x)) (laid (Assoc.find? key start) x))
    {base base' : List (String × Toml)}
    (hbase : List.Forall₂ (fun e e' => e.1 = e'.1 ∧ same e.1 e.2 e'.2) base base')
    (hstart : ∀ key ∈ Assoc.keys overlay, Assoc.find? key base = Assoc.find? key start ∧
      Assoc.find? key base' = Assoc.find? key start) :
    List.Forall₂ (fun e e' => e.1 = e'.1 ∧ same e.1 e.2 e'.2)
      (mergeEntries base (overlay.map fun (key, x) => (key, f key x)))
      (mergeEntries base' overlay) := by
  induction overlay generalizing base base' with
  | nil => exact hbase
  | cons entry rest ih =>
      obtain ⟨key, x⟩ := entry
      have hcons : key ∉ Assoc.keys rest ∧ (Assoc.keys rest).Nodup := by
        simpa [Assoc.keys] using hnodup
      obtain ⟨hbefore, hbefore'⟩ := hstart key (by simp [Assoc.keys])
      rw [List.map_cons, mergeEntries_cons, mergeEntries_cons, hbefore, hbefore']
      refine ih hcons.2 ?_ (forall₂_insert (hsame key x (by simp)) hbase) ?_
      · intro other y hy
        exact hsame other y (List.mem_cons_of_mem _ hy)
      · -- The later keys are other keys.
        intro other hother
        have hne : key ≠ other := fun heq => hcons.1 (heq ▸ hother)
        rw [Assoc.find?_insert, if_neg hne, Assoc.find?_insert, if_neg hne]
        exact hstart other (List.mem_cons_of_mem _ hother)

/-- Values that are laid alike at every key are alike. -/
theorem alike_laid (hrefl : ∀ key x, same key x x) {f : String → Toml → Toml} {x : Toml}
    (hx : x.Ordered) (below : Option Toml)
    (hsame : ∀ key y, x.find? key = some y →
      same key (laid (below.bind (Toml.find? key)) (f key y))
        (laid (below.bind (Toml.find? key)) y)) :
    Alike same (laid below (mapTable f x)) (laid below x) := by
  cases hx with
  | @table overlay ascending value =>
      have hoverlay : ∀ key y, (key, y) ∈ overlay →
          same key (laid (below.bind (Toml.find? key)) (f key y))
            (laid (below.bind (Toml.find? key)) y) := by
        intro key y hy
        exact hsame key y ((Assoc.find?_eq_some_iff ascending.nodup).2 hy)
      -- Over anything but a table the entries only lose their markers.
      have hstrip : (∀ key y, (key, y) ∈ overlay → same key (stripMarkers (f key y)) (stripMarkers y)) →
          Alike same (.table (stripEntries (overlay.map fun (key, y) => (key, f key y))))
            (.table (stripEntries overlay)) := by
        intro h
        refine .table ?_
        rw [stripEntries_eq, stripEntries_eq, Assoc.mapValues, Assoc.mapValues, List.map_map,
          List.forall₂_map_left_iff, List.forall₂_map_right_iff, List.forall₂_same]
        intro e he
        exact ⟨rfl, h e.1 e.2 he⟩
      cases below with
      | none => exact hstrip hoverlay
      | some base =>
          cases base with
          | table entries =>
              refine .table (forall₂_mergeEntries ascending.nodup hoverlay ?_ ?_)
              · rw [List.forall₂_same]
                intro e _
                exact ⟨rfl, hrefl e.1 e.2⟩
              · intro key _
                exact ⟨rfl, rfl⟩
          | _ => exact hstrip hoverlay
  | _ => exact .refl _

/-! ## What is read of tables that are alike -/

namespace Schema

theorem keyed_of_alike {α : Type} {item : Json → Read α} {x x' : Toml}
    (h : Alike (fun _ y y' => item y.toJson = item y'.toJson) x x') :
    keyed item x.toJson = keyed item x'.toJson := by
  cases h with
  | refl => rfl
  | @table entries entries' each =>
      simp only [Toml.toJson, keyed, Toml.entriesToJson_eq, Assoc.mapValues]
      induction each with
      | nil => rfl
      | @cons e e' rest rest' hfirst _ ih =>
          obtain ⟨hkey, hread⟩ := hfirst
          simp only [List.map_cons, List.mapM_cons, hkey, hread, ih]

/-- A record does not tell alike tables apart. -/
theorem record_of_alike {α : Type} {nested : Bool} {name : String} {fields : List String}
    {set : Setter α} {start : α} {x x' : Toml}
    (h : Alike (fun key y y' => ∀ r, set key y.toJson r = set key y'.toJson r) x x') :
    record nested name fields set start x.toJson = record nested name fields set start x'.toJson := by
  cases h with
  | refl => rfl
  | @table entries entries' each =>
      simp only [Toml.toJson, record]
      induction each generalizing start with
      | nil => rfl
      | @cons e e' rest rest' hfirst _ ih =>
          obtain ⟨key, y⟩ := e
          obtain ⟨key', y'⟩ := e'
          obtain ⟨hkey, hread⟩ := hfirst
          obtain rfl : key = key' := hkey
          simp only [Toml.entriesToJson, setMembers, hread start]
          by_cases hfield : key ∈ fields
          · cases set key y'.toJson start with
            | error m => rfl
            | ok next => simp only [hfield, if_true, ih]
          · simp only [hfield, if_false]

theorem foldlM_of_alike {α : Type} {step : α → String × Json → Read α}
    {entries entries' : List (String × Toml)}
    (h : List.Forall₂ (fun e e' => e.1 = e'.1 ∧
      ∀ r, step r (e.1, e.2.toJson) = step r (e.1, e'.2.toJson)) entries entries') (r : α) :
    (Toml.entriesToJson entries).foldlM step r = (Toml.entriesToJson entries').foldlM step r := by
  induction h generalizing r with
  | nil => rfl
  | @cons e e' rest rest' hfirst _ ih =>
      obtain ⟨key, y⟩ := e
      obtain ⟨key', y'⟩ := e'
      obtain ⟨hkey, hread⟩ := hfirst
      obtain rfl : key = key' := hkey
      simp only [Toml.entriesToJson, List.foldlM_cons, hread r, ih]

/-- Settings do not tell alike documents apart. -/
theorem settings_of_alike {x x' : Toml}
    (h : Alike (fun key y y' => (∀ s, setTool key y.toJson s = setTool key y'.toJson s) ∧
      ∀ s, setRules key y.toJson s = setRules key y'.toJson s) x x') :
    settings x.toJson = settings x'.toJson := by
  cases h with
  | refl => rfl
  | @table entries entries' each =>
      have htools : ∀ s, tools (Toml.entriesToJson entries) s
          = tools (Toml.entriesToJson entries') s := by
        intro s
        refine foldlM_of_alike (each.imp ?_) s
        rintro e e' ⟨hkey, htool, _⟩
        exact ⟨hkey, fun r => congrArg (Except.mapError _) (htool r)⟩
      have hrules : ∀ s, rules (Toml.entriesToJson entries) s
          = rules (Toml.entriesToJson entries') s := by
        intro s
        refine foldlM_of_alike (each.imp ?_) s
        rintro e e' ⟨hkey, _, hrule⟩
        exact ⟨hkey, fun r => congrArg (Except.mapError _) (hrule r)⟩
      simp only [Toml.toJson, settings, htools, hrules]

end Schema

/-! ## Keys that are passed over -/

def ruleKeys : List String := ["requiredKeys", "missingKeySeverity"]

def knownRule : Toml → Toml
  | .table entries => .table (entries.filter fun e => decide (e.1 ∈ ruleKeys))
  | other => other

/-- The table with its value at one key changed. -/
def atKey (key : String) (f : Toml → Toml) : Toml → Toml :=
  mapTable fun k x => if k = key then f x else x

/-- The document without the unknown keys of its rules for configuration files. -/
def dropRuleKeys : Toml → Toml :=
  atKey "configRules" (atKey "perFile" (mapTable fun _ => knownRule))

/-- The long form of a rule reads its own keys only. -/
theorem longRule_filter (members : List (String × Json)) :
    Schema.longRule (.object (members.filter fun e => decide (e.1 ∈ ruleKeys)))
      = Schema.longRule (.object members) := by
  have hfold : ∀ r : ConfigFileRule,
      (members.filter fun e => decide (e.1 ∈ ruleKeys)).foldlM
          (fun r (e : String × Json) => Schema.setRule e.1 e.2 r) r
        = members.foldlM (fun r (e : String × Json) => Schema.setRule e.1 e.2 r) r := by
    induction members with
    | nil => exact fun _ => rfl
    | cons e rest ih =>
        intro r
        by_cases hkey : e.1 ∈ ruleKeys
        · simp only [List.filter_cons, hkey, decide_true, if_true, List.foldlM_cons, ih]
        · have hpass : Schema.setRule e.1 e.2 r = .ok r := by
            have hne : e.1 ≠ "requiredKeys" ∧ e.1 ≠ "missingKeySeverity" := by
              simpa [ruleKeys] using hkey
            unfold Schema.setRule
            split
            · exact absurd ‹_› hne.1
            · exact absurd ‹_› hne.2
            · rfl
          rw [List.filter_cons_of_neg (by simpa using hkey), List.foldlM_cons, hpass, ih]
          rfl
  exact hfold {}

/-- A rule is read without its other keys. -/
theorem fileRule_knownRule (x : Toml) :
    Schema.fileRule (knownRule x).toJson = Schema.fileRule x.toJson := by
  cases x with
  | table entries =>
      have hfilter : Toml.entriesToJson (entries.filter fun e => decide (e.1 ∈ ruleKeys))
          = (Toml.entriesToJson entries).filter fun e => decide (e.1 ∈ ruleKeys) := by
        rw [Toml.entriesToJson_eq, Toml.entriesToJson_eq, Assoc.mapValues, Assoc.mapValues,
          List.filter_map]
        rfl
      have hlong := longRule_filter (Toml.entriesToJson entries)
      rw [← hfilter] at hlong
      simp only [knownRule, Toml.toJson, Schema.fileRule, hlong]
      rfl
  | _ => rfl

theorem filter_mergeEntries {p : String → Bool} {base : List (String × Toml)}
    (hbase : Assoc.Ascending base) (overlay : List (String × Toml)) :
    (mergeEntries base overlay).filter (fun e => p e.1)
      = mergeEntries (base.filter fun e => p e.1) (overlay.filter fun e => p e.1) := by
  induction overlay generalizing base with
  | nil => rfl
  | cons e rest ih =>
      obtain ⟨key, x⟩ := e
      rw [mergeEntries_cons, ih (hbase.insert _ _)]
      by_cases hkey : p key = true
      · rw [List.filter_cons_of_pos (by exact hkey), mergeEntries_cons, Assoc.find?_filter hkey,
          Assoc.filter_insert_of hkey _ hbase]
      · rw [List.filter_cons_of_neg (by exact hkey),
          Assoc.filter_insert_of_not (Bool.eq_false_iff.2 hkey)]

/-- Over any rule, a rule comes to the same without its other keys. -/
theorem knownRule_laid {below : Option Toml} (hbelow : ∀ b, below = some b → b.Ordered) (x : Toml) :
    knownRule (laid below (knownRule x)) = knownRule (laid below x) := by
  cases x with
  | table overlay =>
      have hstrip : knownRule (.table (stripEntries (overlay.filter fun e => decide (e.1 ∈ ruleKeys))))
          = knownRule (.table (stripEntries overlay)) := by
        simp only [knownRule, stripEntries_eq, Assoc.mapValues, List.filter_map, Function.comp_def,
          List.filter_filter, Bool.and_self]
      cases below with
      | none => exact hstrip
      | some base =>
          cases hbelow base rfl with
          | table ascending _ =>
              have hmerge := filter_mergeEntries (p := fun key => decide (key ∈ ruleKeys)) ascending
              simp only [laid, merge, knownRule, hmerge, List.filter_filter, Bool.and_self]
          | _ => exact hstrip
  | _ => rfl

/-- Only what is laid at the one key changes. -/
theorem alike_laid_atKey (hrefl : ∀ key x, same key x x) {key : String} {g : Toml → Toml} {x : Toml}
    (hx : x.Ordered) (below : Option Toml)
    (hsame : ∀ y, x.find? key = some y →
      same key (laid (below.bind (Toml.find? key)) (g y)) (laid (below.bind (Toml.find? key)) y)) :
    Alike same (laid below (atKey key g x)) (laid below x) := by
  refine alike_laid hrefl hx below ?_
  intro other y hy
  by_cases hother : other = key
  · subst hother
    rw [if_pos rfl]
    exact hsame y hy
  · rw [if_neg hother]
    exact hrefl other _

/-- The rules for files decode alike without their unknown keys. -/
theorem files_dropRuleKeys {x : Toml} (hx : x.Ordered) {below : Option Toml}
    (hbelow : ∀ b, below = some b → b.Ordered) :
    Schema.keyed Schema.fileRule (laid below (mapTable (fun _ => knownRule) x)).toJson
      = Schema.keyed Schema.fileRule (laid below x).toJson := by
  refine Schema.keyed_of_alike (alike_laid ?_ hx below ?_)
  · exact fun _ _ => rfl
  · intro name rule _
    have hrule := knownRule_laid (ordered_below hbelow name) rule
    rw [← fileRule_knownRule, hrule, fileRule_knownRule]

theorem config_dropRuleKeys {x : Toml} (hx : x.Ordered) {below : Option Toml}
    (hbelow : ∀ b, below = some b → b.Ordered) :
    Schema.config (laid below (atKey "perFile" (mapTable fun _ => knownRule) x)).toJson
      = Schema.config (laid below x).toJson := by
  refine Schema.record_of_alike (alike_laid_atKey ?_ hx below ?_)
  · exact fun _ _ _ => rfl
  · intro files hfiles r
    have hread := files_dropRuleKeys (hx.of_find? hfiles) (ordered_below hbelow "perFile")
    simp only [hread]

/-- The unknown keys of rules for configuration files do not matter. -/
theorem settings_dropRuleKeys {document : Toml} (hordered : document.Ordered) {below : Option Toml}
    (hbelow : ∀ b, below = some b → b.Ordered) :
    Schema.settings (laid below (dropRuleKeys document)).toJson
      = Schema.settings (laid below document).toJson := by
  refine Schema.settings_of_alike (alike_laid_atKey ?_ hordered below ?_)
  · exact fun _ _ => ⟨fun _ => rfl, fun _ => rfl⟩
  · intro config hconfig
    have hread := config_dropRuleKeys (hordered.of_find? hconfig) (ordered_below hbelow "configRules")
    refine ⟨fun _ => rfl, fun s => ?_⟩
    simp only [Schema.setRules, hread]

/-- Dropping unknown keys of rules keeps the keys of the document. -/
theorem keys_dropRuleKeys (entries : List (String × Toml)) :
    ∃ entries', dropRuleKeys (.table entries) = .table entries' ∧
      Assoc.keys entries' = Assoc.keys entries ∧
      Assoc.find? "preset" entries' = Assoc.find? "preset" entries := by
  refine ⟨_, rfl, ?_, ?_⟩
  · simp only [Assoc.keys, List.map_map, Function.comp_def]
  · induction entries with
    | nil => rfl
    | cons e rest ih =>
        obtain ⟨key, x⟩ := e
        by_cases hkey : key = "preset"
        · subst hkey
          rfl
        · simpa [Assoc.find?, hkey] using ih

/-- A document is accepted, or refused, as without the unknown keys of such rules. -/
theorem resolve_dropRuleKeys {document : Toml} (hordered : document.Ordered)
    (asked : Option String) : resolve asked (dropRuleKeys document) = resolve asked document := by
  cases document with
  | table entries =>
      obtain ⟨entries', heq, hkeys, hfind⟩ := keys_dropRuleKeys entries
      have hpreset : presetOf asked (.table entries') = presetOf asked (.table entries) := by
        change ((Assoc.find? "preset" entries').bind Toml.string?).or asked = _
        rw [hfind]
        rfl
      -- Only the decoder meets the rules; all stages before it read the keys of the document alone.
      have hlayers : ∀ below : Option Toml, (∀ b, below = some b → b.Ordered) →
          Schema.settings (laid below (.table entries')).toJson
            = Schema.settings (laid below (.table entries)).toJson := by
        intro below hbelow
        rw [← heq]
        exact settings_dropRuleKeys hordered hbelow
      rw [heq]
      simp only [resolve, knownSections, hkeys, hpreset]
      cases (Assoc.keys entries).find? (· ∉ documentKeys) with
      | some key => rfl
      | none =>
          cases presetOf asked (.table entries) with
          | none =>
              have hread := hlayers none (by simp)
              simp only [laid] at hread
              simp only [layered, bind, Except.bind, hread]
          | some name =>
              cases hbase : Preset.find? name with
              | none => simp only [layered, presetDocument, hbase, Except.map, bind, Except.bind]
              | some base =>
                  have hread := hlayers (some base)
                    fun b hb => Option.some.inj hb ▸ Preset.ordered_of_find? hbase
                  simp only [laid] at hread
                  simp only [layered, presetDocument, hbase, Except.map, bind, Except.bind, hread]
  | _ => rfl

/--
A document that has a key it cannot have, or has one in a section that is a table, is refused.  The
unknown keys of rules for configuration files are dropped: loading gives what the document without
them gives.
-/
theorem loadFrom_unknown_keys {docs : Documents} {path content : String} {document : Toml}
    (hthere : docs.exists? path = true) (hread : docs.read path = .ok content)
    (hparse : parseDocument path content = .ok document) (asked : Option String) :
    (UnknownKey document → ∃ e, loadFrom docs asked path = .error e) ∧
      loadFrom docs asked path = (resolve asked (dropRuleKeys document)).map fun settings =>
        ⟨settings, some path⟩ := by
  have hordered := ordered_of_parseDocument hparse
  have hload := loadFrom_of_parse hthere hread hparse asked
  refine ⟨?_, ?_⟩
  · intro hunknown
    obtain ⟨e, hresolve⟩ := resolve_of_unknownKey hordered hunknown asked
    refine ⟨e, ?_⟩
    rw [hload, hresolve]
    rfl
  · rw [hload, resolve_dropRuleKeys hordered]

/-- A document with a misspelt key of the scanner. -/
def misspeltText : String := "[scanner]\nexclud = []\n"

theorem loadFrom_unknown_keys_misspelt :
    ∃ document, parseDocument "/s.toml" misspeltText = .ok document ∧ UnknownKey document ∧
      (∃ e, loadFrom (oneDocument misspeltText) none "/s.toml" = .error e) ∧
      loadFrom (oneDocument misspeltText) none "/s.toml"
        = (resolve none (dropRuleKeys document)).map fun settings => ⟨settings, some "/s.toml"⟩ := by
  obtain ⟨document, hparse, hkeys⟩ := ok_of_any
    (x := parseDocument "/s.toml" misspeltText)
    (p := fun d => ((d.find? "scanner").bind Toml.entries?).map Assoc.keys = some ["exclud"])
    (by decide +kernel)
  have hunknown : UnknownKey document := by
    have hknown : ("scanner", ["exclude", "followLinks"]) ∈ sectionKeys := by decide
    obtain ⟨inner, hinner, hkeys⟩ := Option.map_eq_some_iff.1 hkeys
    obtain ⟨x, hsection, hentries⟩ := Option.bind_eq_some_iff.1 hinner
    cases x with
    | table entries =>
        cases hentries
        have hmem : "exclud" ∈ Assoc.keys inner := by simp [hkeys]
        exact .inSection hknown hsection hmem (by decide)
    | _ => cases hentries
  have hread : (oneDocument misspeltText).read "/s.toml" = .ok misspeltText := rfl
  obtain ⟨hrefused, hdropped⟩ := loadFrom_unknown_keys (by decide) hread hparse none
  exact ⟨document, hparse, hunknown, hrefused hunknown, hdropped⟩

/-- A misspelt key of a rule for a configuration file leaves a rule that demands no key. -/
theorem loadFrom_drops_key :
    (loadFrom (oneDocument "[configRules.perFile.\"package.json\"]\nrequiredKey = [\"name\"]\n")
        none "/s.toml").toOption.map (·.settings.standards.config.perFile)
      = some [("package.json", ⟨[], .warning⟩)] := by
  decide +kernel

end Standards
end ProjectConsistency
