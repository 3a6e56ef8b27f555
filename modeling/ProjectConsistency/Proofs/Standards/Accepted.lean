import ProjectConsistency.Proofs.Standards.Sound

/-!
# Accepted — all settings that loading ends with

This file defines:

* `Standards.Accepted` — settings that are loaded over the preset asked for, in whichever way.

Whether there is a document or not, and wherever it is found, accepted settings are those of a parsed
document over its preset (`Accepted.resolved`).  Presets are regular as documents are, and so are the
two laid over each other.  So the rules of all accepted settings are sound (`Accepted.sound`).
-/

namespace ProjectConsistency
namespace Standards

open FileSystem

variable {asked : Option String} {loaded : Loaded}

/-- Settings that loading ends with, from a document, by search, or without a document. -/
inductive Accepted (asked : Option String) (loaded : Loaded) : Prop where
  | document {docs : Documents} {path : String} (h : loadFrom docs asked path = .ok loaded)
  | search {docs : Documents} {root : String} (h : load docs asked root = .ok loaded)
  | defaults (h : loadDefaults asked = .ok loaded)

/-- A document that is loaded was read and parsed. -/
theorem parsed_of_loadFrom {docs : Documents} {path : String}
    (h : loadFrom docs asked path = .ok loaded) :
    ∃ content document, docs.read path = .ok content ∧ parseDocument path content = .ok document ∧
      resolve asked document = .ok loaded.settings := by
  obtain ⟨_, h⟩ := ok_of_guard h
  rcases ok_of_bind h with ⟨content, hcontent, h⟩
  rcases ok_of_bind h with ⟨document, hparse, h⟩
  rcases ok_of_bind h with ⟨s, hresolve, h⟩
  cases h
  cases hread : docs.read path with
  | error e => simp [hread, mapError_error] at hcontent
  | ok text =>
      rw [hread, mapError_ok] at hcontent
      cases hcontent
      exact ⟨content, document, rfl, hparse, hresolve⟩

/-- Accepted settings are those of a document that has each key once and integers that fit. -/
theorem Accepted.resolved (h : Accepted asked loaded) :
    ∃ document : Toml, document.Ordered ∧ document.toJson.Regular ∧
      resolve asked document = .ok loaded.settings := by
  have hparsed : ∀ {docs : Documents} {path : String}, loadFrom docs asked path = .ok loaded →
      ∃ document : Toml, document.Ordered ∧ document.toJson.Regular ∧
        resolve asked document = .ok loaded.settings := by
    intro docs path h
    obtain ⟨_, document, _, hparse, hresolve⟩ := parsed_of_loadFrom h
    exact ⟨document, ordered_of_parseDocument hparse,
      of_parseDocument hereditary_regular.toInherited hparse, hresolve⟩
  have hempty : loadDefaults asked = .ok loaded →
      ∃ document : Toml, document.Ordered ∧ document.toJson.Regular ∧
        resolve asked document = .ok loaded.settings := by
    intro h
    exact ⟨.table [], Toml.inherited_ordered.table [] .nil,
      hereditary_regular.table [] .nil, of_loadDefaults h⟩
  cases h with
  | document h => exact hparsed h
  | defaults h => exact hempty h
  | @search docs root h =>
      cases hdiscover : discover? docs root with
      | some path =>
          rw [load, hdiscover] at h
          exact hparsed h
      | none =>
          rw [load, hdiscover] at h
          exact hempty h

/-- The rules of accepted settings are sound. -/
theorem Accepted.sound (h : Accepted asked loaded) : loaded.settings.standards.Sound := by
  obtain ⟨document, hordered, hregular, hresolve⟩ := h.resolved
  refine sound_of_layers ?_ hresolve
  refine holds_laid hereditary_regular hordered hregular ?_
  intro base hbase
  obtain ⟨_, _, hfind⟩ := Option.bind_eq_some_iff.1 hbase
  exact Preset.of_find? hereditary_regular.toInherited hfind

end Standards
end ProjectConsistency
