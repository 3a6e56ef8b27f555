import ProjectConsistency.Proofs.Standards.Resolved

/-!
# Fields — what the schema reads at a key

This file defines:

* `Schema.Steps` — a record is changed by its members, one after the other;
* `Schema.Field` — a setter reads a field at one key and leaves it alone at the others;
* `Schema.readOr` — a value that is read if it is written, and has a start value if it is not.

If no key stands twice, a field holds what is written at its key, or else what it began with
(`Field.of_steps`).  This is all that has to be known about a record and about the sections of a
document: the lists of the sections are in `reads_lists`, the sections in `reads_sections`.
-/

namespace ProjectConsistency

theorem Toml.entriesToJson_eq (entries : List (String × Toml)) :
    entriesToJson entries = Assoc.mapValues toJson entries := by
  induction entries with
  | nil => rfl
  | cons entry rest ih =>
      rw [entriesToJson, ih]
      rfl

theorem Toml.itemsToJson_eq (items : List Toml) : itemsToJson items = items.map toJson := by
  induction items with
  | nil => rfl
  | cons x rest ih => rw [itemsToJson, ih, List.map_cons]

theorem Toml.find?_entriesToJson (key : String) (entries : List (String × Toml)) :
    Assoc.find? key (entriesToJson entries) = (Assoc.find? key entries).map toJson := by
  rw [entriesToJson_eq, Assoc.find?_mapValues]

theorem Toml.keys_entriesToJson (entries : List (String × Toml)) :
    Assoc.keys (entriesToJson entries) = Assoc.keys entries := by
  rw [entriesToJson_eq, Assoc.keys_mapValues]

namespace Standards
namespace Schema

open FileSystem

variable {α β γ : Type} {set : Setter α} {r r' : α} {members : List (String × Json)}

/-! ## Members in a row -/

inductive Steps (set : Setter α) : α → List (String × Json) → α → Prop where
  | nil (r : α) : Steps set r [] r
  | cons {key : String} {x : Json} {r r' r'' : α} {rest : List (String × Json)} :
      set key x r = .ok r' → Steps set r' rest r'' → Steps set r ((key, x) :: rest) r''

/-- Members that are accepted have the names of fields. -/
theorem of_setMembers {fields : List String} (h : setMembers fields set r members = .ok r') :
    Steps set r members r' ∧ ∀ key ∈ Assoc.keys members, key ∈ fields := by
  induction members generalizing r with
  | nil =>
      cases h
      exact ⟨.nil _, by simp [Assoc.keys]⟩
  | cons entry rest ih =>
      obtain ⟨name, x⟩ := entry
      by_cases hname : name ∈ fields
      · cases hset : set name x r with
        | error m => simp [setMembers, hname, hset] at h
        | ok next =>
            simp only [setMembers, hname, hset, if_true] at h
            obtain ⟨hsteps, hkeys⟩ := ih h
            refine ⟨.cons hset hsteps, ?_⟩
            intro key hkey
            rcases List.mem_cons.1 hkey with rfl | hrest
            · exact hname
            · exact hkeys key hrest
      · simp [setMembers, hname] at h

/-- A fold that gives a result has given one at every step. -/
theorem steps_of_foldlM (place : String → Mismatch → Mismatch)
    (h : members.foldlM (fun r (key, x) => (set key x r).mapError (place key)) r = .ok r') :
    Steps set r members r' := by
  induction members generalizing r with
  | nil =>
      cases h
      exact .nil _
  | cons entry rest ih =>
      obtain ⟨name, x⟩ := entry
      rcases ok_of_bind h with ⟨next, hset, hrest⟩
      cases hfirst : set name x r with
      | error m => simp [hfirst, mapError_error] at hset
      | ok found =>
          simp only [hfirst, mapError_ok] at hset
          cases hset
          exact .cons hfirst (ih hrest)

/-- Each member is set at some point. -/
theorem Steps.of_mem (h : Steps set r members r') {key : String} {x : Json}
    (hmem : (key, x) ∈ members) : ∃ before after, set key x before = .ok after := by
  induction h with
  | nil => cases hmem
  | cons hset _ ih =>
      rcases List.mem_cons.1 hmem with heq | hrest
      · cases heq
        exact ⟨_, _, hset⟩
      · exact ih hrest

/-- What no member changes is as before. -/
theorem Steps.kept {get : α → β} (hkept : ∀ {key x r r'}, set key x r = .ok r' → get r' = get r)
    (h : Steps set r members r') : get r' = get r := by
  induction h with
  | nil => rfl
  | cons hset _ ih => exact ih.trans (hkept hset)

/-! ## Fields -/

/-- A setter reads a field at one key and leaves it alone at the others. -/
structure Field (set : Setter α) (key : String) (read : Json → Read β) (get : α → β) : Prop where
  own : ∀ {x r r'}, set key x r = .ok r' → read x = .ok (get r')
  other : ∀ {name x r r'}, name ≠ key → set name x r = .ok r' → get r' = get r

/-- A value that is read if it is written, and has a start value if it is not. -/
def readOr (read : Json → Read β) (start : β) : Option Json → Read β
  | none => .ok start
  | some x => read x

/-- The field that a key sets is the value read. -/
theorem own_of_bind {read : Read β} {put : β → α} {get : α → β} (hput : ∀ v, get (put v) = v)
    (h : (do return put (← read)) = Except.ok r') : read = .ok (get r') := by
  rcases ok_of_bind h with ⟨v, hread, h⟩
  cases h
  rw [hread, hput]

/-- The fields that a key does not set are kept. -/
theorem kept_of_bind {read : Read γ} {put : γ → α} {get : α → β} (hput : ∀ v, get (put v) = get r)
    (h : (do return put (← read)) = Except.ok r') : get r' = get r := by
  rcases ok_of_bind h with ⟨v, _, h⟩
  cases h
  exact hput v

/-- A field holds what is written at its key, or else what it began with. -/
theorem Field.of_steps {key : String} {read : Json → Read β} {get : α → β}
    (hfield : Field set key read get) (hnodup : (Assoc.keys members).Nodup)
    (h : Steps set r members r') :
    readOr read (get r) (Assoc.find? key members) = .ok (get r') := by
  induction h with
  | nil => rfl
  | @cons name x r next r' rest hset hrest ih =>
      have hcons : name ∉ Assoc.keys rest ∧ (Assoc.keys rest).Nodup := by
        simpa [Assoc.keys] using hnodup
      have hlater := ih hcons.2
      by_cases hname : name = key
      · -- The members after it leave the field alone.
        subst hname
        have hnone : Assoc.find? name rest = none := by
          rw [← Option.not_isSome_iff_eq_none, Assoc.isSome_find?_iff]
          exact hcons.1
        rw [hnone] at hlater
        have hsame : get next = get r' := Except.ok.inj hlater
        simp only [Assoc.find?, if_true, readOr]
        rw [← hsame]
        exact hfield.own hset
      · rw [hfield.other hname hset] at hlater
        simpa [Assoc.find?, hname] using hlater

/-! ## Sections -/

/-- A reader of tables reads a field at one key. -/
def Reads (reader : Json → Read α) (start : α) (key : String) (read : Json → Read β)
    (get : α → β) : Prop :=
  ∀ members r, (Assoc.keys members).Nodup → reader (.object members) = .ok r →
    readOr read (get start) (Assoc.find? key members) = .ok (get r)

/-- A field of a record is the last value read under its key, or the one it started with. -/
theorem reads_of_field {nested : Bool} {name : String} {fields : List String} {start : α}
    {key : String} {read : Json → Read β} {get : α → β} (h : Field set key read get) :
    Reads (record nested name fields set start) start key read get := by
  intro members r hnodup hread
  exact h.of_steps hnodup (of_setMembers hread).1

/-- The lists of texts in the sections. -/
theorem reads_lists :
    Reads naming {} "exemptNames" textSet (·.exemptNames) ∧
      Reads structural {} "requiredFiles" textSet (·.requiredFiles) ∧
      Reads structural {} "recommendedFiles" textSet (·.recommendedFiles) ∧
      Reads style {} "extensions" textSet (·.extensions) ∧
      Reads style {} "quoteExtensions" textSet (·.quoteExtensions) ∧
      Reads docs {} "requiredFiles" textSet (·.requiredFiles) ∧
      Reads docs {} "requiredReadmeSections" textSet (·.requiredSections) ∧
      Reads scanner {} "exclude" texts (·.exclude) := by
  refine ⟨?_, ?_, ?_, ?_, ?_, ?_, ?_, ?_⟩
  all_goals
    refine reads_of_field ⟨fun h => own_of_bind (by exact fun _ => rfl) h, fun hne h => ?_⟩
    split at h
    all_goals first
      | exact absurd rfl hne
      | exact kept_of_bind (by exact fun _ => rfl) h
      | (cases h; rfl)

/-- The sections with the settings of the tools. -/
theorem fields_tools :
    Field setTool "scanner" scanner (·.scanner) ∧
      Field setTool "formatter" formatter (·.formatter) := by
  refine ⟨?_, ?_⟩
  all_goals
    refine ⟨fun h => own_of_bind (by exact fun _ => rfl) h, fun hne h => ?_⟩
    unfold setTool at h
    split at h
    all_goals first
      | exact absurd rfl hne
      | exact kept_of_bind (by exact fun _ => rfl) h
      | (cases h; rfl)

/-- The sections with rules. -/
theorem fields_rules :
    Field setRules "namingRules" naming (·.naming) ∧
      Field setRules "structureRules" structural (·.structural) ∧
      Field setRules "styleRules" style (·.style) ∧
      Field setRules "docRules" docs (·.docs) ∧
      Field setRules "configRules" config (·.config) := by
  refine ⟨?_, ?_, ?_, ?_, ?_⟩
  all_goals
    refine ⟨fun h => own_of_bind (by exact fun _ => rfl) h, fun hne h => ?_⟩
    unfold setRules at h
    split at h
    all_goals first
      | exact absurd rfl hne
      | exact kept_of_bind (by exact fun _ => rfl) h
      | (cases h; rfl)

/-! ## Documents -/

/-- The tools leave the rules alone. -/
theorem standards_of_setTool {key : String} {x : Json} {s s' : Settings}
    (h : setTool key x s = .ok s') : s'.standards = s.standards := by
  unfold setTool at h
  split at h
  all_goals first
    | exact kept_of_bind (by exact fun _ => rfl) h
    | (cases h; rfl)

/-- Settings that are read come from a table, whose members are gone through twice. -/
theorem of_settings {value : Json} {s : Settings} (h : settings value = .ok s) :
    ∃ members, value = .object members ∧ ∃ found, Steps setTool {} members found ∧
      Steps setRules {} members s.standards ∧ s = { found with standards := s.standards } := by
  cases value with
  | object members =>
      rcases ok_of_bind h with ⟨found, htools, h⟩
      rcases ok_of_bind h with ⟨rules, hrules, h⟩
      cases h
      have hsteps := steps_of_foldlM _ htools
      have hstart : found.standards = {} := hsteps.kept standards_of_setTool
      rw [hstart] at hrules
      refine ⟨members, rfl, found, hsteps, ?_, rfl⟩
      exact steps_of_foldlM (fun _ => Mismatch.withoutPath) hrules
  | _ => cases h

/-- A section of rules is what is written at its key, or has its built-in values. -/
theorem reads_rules {key : String} {read : Json → Read β} {get : Standards → β}
    (hfield : Field setRules key read get) : Reads settings {} key read (get ·.standards) := by
  intro members s hnodup h
  obtain ⟨_, heq, _, _, hsteps, _⟩ := of_settings h
  cases heq
  exact hfield.of_steps hnodup hsteps

/-- So are the sections that hold the lists of texts. -/
theorem reads_sections :
    Reads settings {} "namingRules" naming (·.standards.naming) ∧
      Reads settings {} "structureRules" structural (·.standards.structural) ∧
      Reads settings {} "styleRules" style (·.standards.style) ∧
      Reads settings {} "docRules" docs (·.standards.docs) ∧
      Reads settings {} "scanner" scanner (·.scanner) := by
  obtain ⟨hnaming, hstructural, hstyle, hdocs, _⟩ := fields_rules
  refine ⟨reads_rules hnaming, reads_rules hstructural, reads_rules hstyle, reads_rules hdocs, ?_⟩
  intro members s hnodup h
  obtain ⟨_, heq, found, hsteps, _, hs⟩ := of_settings h
  cases heq
  have hsame : found.scanner = s.scanner := by rw [hs]
  exact (fields_tools.1.of_steps hnodup hsteps).trans (congrArg _ hsame)

end Schema
end Standards
end ProjectConsistency
