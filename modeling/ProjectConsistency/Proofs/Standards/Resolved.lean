import ProjectConsistency.Proofs.CommandLine.Loading
import ProjectConsistency.Proofs.Json.Ordered
import ProjectConsistency.Proofs.Standards.Layering
import ProjectConsistency.Proofs.Toml.Ordered

/-!
# Resolved — from a document to its settings

A document is parsed, laid over its preset and read by the schema.  Whether it is written in TOML or
in JSON, what values inherit from their parts holds for a parsed document (`of_parseDocument`), so
no table in it has a key twice (`ordered_of_parseDocument`).  Settings that are accepted are those
that the schema reads from the layers (`of_resolve`), and a document that is there and can be parsed
is loaded as it is resolved (`loadFrom_of_parse`).
-/

namespace ProjectConsistency
namespace Standards

open FileSystem

/-! ## Parsed documents -/

theorem of_itemsOfJson {items : List Json} {found : List Toml} (h : itemsOfJson items = .ok found) :
    ∀ t ∈ found, ∃ x ∈ items, ofJson x = .ok t := by
  induction items generalizing found with
  | nil =>
      cases h
      simp
  | cons x rest ih =>
      rcases ok_of_bind h with ⟨first, hfirst, h⟩
      rcases ok_of_bind h with ⟨others, hothers, h⟩
      cases h
      intro t ht
      rcases List.mem_cons.1 ht with rfl | ht
      · exact ⟨x, by simp, hfirst⟩
      · rcases ih hothers t ht with ⟨y, hy, hread⟩
        exact ⟨y, List.mem_cons_of_mem _ hy, hread⟩

/-- Members keep their names and their order. -/
theorem of_membersOfJson {members : List (String × Json)} {found : List (String × Toml)}
    (h : membersOfJson members = .ok found) :
    Assoc.keys found = Assoc.keys members ∧
      ∀ key t, (key, t) ∈ found → ∃ x, (key, x) ∈ members ∧ ofJson x = .ok t := by
  induction members generalizing found with
  | nil =>
      cases h
      simp [Assoc.keys]
  | cons entry rest ih =>
      obtain ⟨name, x⟩ := entry
      rcases ok_of_bind h with ⟨first, hfirst, h⟩
      rcases ok_of_bind h with ⟨others, hothers, h⟩
      cases h
      obtain ⟨hkeys, hvalues⟩ := ih hothers
      refine ⟨congrArg (name :: ·) hkeys, ?_⟩
      intro key t ht
      rcases List.mem_cons.1 ht with heq | ht
      · cases heq
        exact ⟨x, by simp, hfirst⟩
      · rcases hvalues key t ht with ⟨y, hy, hread⟩
        exact ⟨y, List.mem_cons_of_mem _ hy, hread⟩

/-- A value in JSON has the property in TOML if its objects have each name once. -/
theorem of_ofJson {P : Toml → Prop} (hP : Toml.Inherited P) {x : Json} {t : Toml}
    (hx : x.Ordered) (h : ofJson x = .ok t) : P t := by
  induction hx generalizing t with
  | null => cases h
  | bool b =>
      cases h
      exact hP.boolean b
  | number n =>
      cases n with
      | integer n =>
          -- Greater integers are refused.
          by_cases hn : n ≤ 9223372036854775807
          · simp only [ofJson, hn, if_true] at h
            cases h
            exact hP.integer n hn
          · simp [ofJson, hn] at h
      | double x =>
          cases h
          exact hP.float x
  | string s =>
      cases h
      exact hP.string s
  | @array items _ ih =>
      cases hitems : itemsOfJson items with
      | error e => simp [ofJson, hitems, Except.map] at h
      | ok found =>
          simp only [ofJson, hitems, Except.map] at h
          cases h
          refine hP.array _ ?_
          intro y hy
          rcases of_itemsOfJson hitems y hy with ⟨x, hx, hread⟩
          exact ih x hx hread
  | @object members ascending _ ih =>
      cases hmembers : membersOfJson members with
      | error e => simp [ofJson, hmembers, Except.map] at h
      | ok found =>
          simp only [ofJson, hmembers, Except.map] at h
          cases h
          obtain ⟨hkeys, hvalues⟩ := of_membersOfJson hmembers
          refine hP.table _ ⟨?_, ?_⟩
          · rwa [Assoc.Ascending, hkeys]
          · intro key y hy
            rcases hvalues key y hy with ⟨x, hx, hread⟩
            exact ih key x hx hread

/-- What is inherited by values, a document that is parsed has, whether it is TOML or JSON. -/
theorem of_parseDocument {P : Toml → Prop} (hP : Toml.Inherited P) {path content : String}
    {document : Toml} (h : parseDocument path content = .ok document) : P document := by
  by_cases hjson : isJsonPath path = true
  · rw [parseDocument, if_pos hjson] at h
    cases hparse : Json.parse content with
    | error e => simp [hparse] at h
    | ok value =>
        cases hvalue : ofJson value with
        | error reason => simp [hparse, hvalue, mapError_error] at h
        | ok t =>
            simp only [hparse, hvalue, mapError_ok] at h
            cases h
            exact of_ofJson hP (Json.ordered_parse hparse) hvalue
  · rw [parseDocument, if_neg hjson] at h
    cases hdocument : Toml.document content with
    | error line => simp [hdocument, mapError_error, Except.map] at h
    | ok entries =>
        simp only [hdocument, mapError_ok, Except.map] at h
        cases h
        exact Toml.of_document hP hdocument

/-- No table of a document that is parsed has a key twice. -/
theorem ordered_of_parseDocument {path content : String} {document : Toml}
    (h : parseDocument path content = .ok document) : document.Ordered :=
  of_parseDocument Toml.inherited_ordered h

/-! ## Settings -/

/-- What a document is laid over: the document of its preset, if it has a preset. -/
def baseOf (asked : Option String) (document : Toml) : Option Toml :=
  (presetOf asked document).bind Preset.find?

/-- The base of a document is a preset. -/
theorem of_baseOf {asked : Option String} {document base : Toml}
    (h : baseOf asked document = some base) : ∃ name, Preset.find? name = some base := by
  obtain ⟨name, _, hfind⟩ := Option.bind_eq_some_iff.1 h
  exact ⟨name, hfind⟩

/-- A layered value is the document over the preset it asks for. -/
theorem of_layered {preset : Option String} {document value : Toml}
    (h : layered preset document = .ok value) :
    value = laid (preset.bind Preset.find?) document ∧
      ∀ name, preset = some name → (Preset.find? name).isSome := by
  cases preset with
  | none =>
      cases h
      exact ⟨rfl, by simp⟩
  | some name =>
      cases hbase : Preset.find? name with
      | none => simp [layered, presetDocument, hbase, Except.map] at h
      | some base =>
          simp only [layered, presetDocument, hbase, Except.map] at h
          cases h
          refine ⟨by simp [hbase, laid], ?_⟩
          intro other hother
          cases hother
          simp [hbase]

/-- Settings are what the schema reads from the layers, with the name of the preset. -/
theorem of_resolve {asked : Option String} {document : Toml} {s : Settings}
    (h : resolve asked document = .ok s) :
    (∃ entries, document = .table entries ∧ ∀ key ∈ Assoc.keys entries, key ∈ documentKeys) ∧
      (∃ read, Schema.settings (laid (baseOf asked document) document).toJson = .ok read ∧
        s = { read with preset := presetOf asked document }) ∧
      ∀ name, presetOf asked document = some name → (Preset.find? name).isSome := by
  -- Each stage of the loading has given a result.
  rcases ok_of_bind h with ⟨_, hknown, h⟩
  rcases ok_of_bind h with ⟨value, hlayered, h⟩
  rcases ok_of_bind h with ⟨read, hread, hcheck⟩
  obtain ⟨rfl, _⟩ := of_check hcheck
  obtain ⟨rfl, hpreset⟩ := of_layered hlayered
  refine ⟨?_, ⟨read, ?_, rfl⟩, hpreset⟩
  · cases document with
    | table entries =>
        refine ⟨entries, rfl, ?_⟩
        intro key hkey
        -- An unknown section would have been found.
        by_contra hunknown
        cases hfind : (Assoc.keys entries).find? (· ∉ documentKeys) with
        | none => exact List.find?_eq_none.1 hfind key hkey (by simpa using hunknown)
        | some other =>
            simp only [knownSections, hfind] at hknown
            cases hknown
    | _ => simp [knownSections] at hknown
  · cases hsettings : Schema.settings (laid (baseOf asked document) document).toJson with
    | error m =>
        rw [baseOf] at hsettings
        simp [hsettings, mapError_error] at hread
    | ok found =>
        rw [baseOf] at hsettings
        rw [hsettings, mapError_ok] at hread
        cases hread
        rfl

/-- A document that is there and can be parsed is loaded as it is resolved. -/
theorem loadFrom_of_parse {docs : Documents} {path content : String} {document : Toml}
    (hthere : docs.exists? path = true) (hread : docs.read path = .ok content)
    (hparse : parseDocument path content = .ok document) (asked : Option String) :
    loadFrom docs asked path
      = (resolve asked document).map fun settings => ⟨settings, some path⟩ := by
  cases hresolve : resolve asked document with
  | error e => simp [loadFrom, hthere, hread, hparse, hresolve, mapError_ok, bind, Except.bind,
      Except.map]
  | ok s => simp [loadFrom, hthere, hread, hparse, hresolve, mapError_ok, bind, Except.bind,
      Except.map, pure, Except.pure]

/-- Loading a document that parses is resolving it. -/
theorem resolve_of_loadFrom {docs : Documents} {asked : Option String} {path content : String}
    {document : Toml} {loaded : Loaded} (hread : docs.read path = .ok content)
    (hparse : parseDocument path content = .ok document)
    (h : loadFrom docs asked path = .ok loaded) : resolve asked document = .ok loaded.settings := by
  rw [loadFrom_of_parse (of_loadFrom h).1 hread hparse] at h
  cases hresolve : resolve asked document with
  | error e => simp [hresolve, Except.map] at h
  | ok s =>
      simp only [hresolve, Except.map] at h
      cases h
      rfl

def oneDocument (content : String) : Documents where
  exists? path := path = "/s.toml"
  read _ := .ok content
  userFolder := none

/-- A result that can be computed to have a property. -/
theorem ok_of_any {ε α : Type} {x : Except ε α} {p : α → Prop} [DecidablePred p]
    (h : x.toOption.any (fun a => decide (p a)) = true) : ∃ a, x = .ok a ∧ p a := by
  cases x with
  | error e => cases h
  | ok a => exact ⟨a, rfl, by simpa [Except.toOption] using h⟩

end Standards
end ProjectConsistency
