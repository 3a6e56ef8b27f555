import ProjectConsistency.Proofs.Toml.Ordered
import ProjectConsistency.Standards.Layers
import ProjectConsistency.Standards.Preset

/-!
# Layering — what a key holds in a document over a preset

This file defines:

* `Standards.laid` — a value of a document over what is below it, if anything is.

A table that is laid over something is a table again, and each of its keys holds the document's value
laid over what is below at the same key, or what is below if the document leaves the key out
(`laid_table`).  So a key of the document is never lost.  What two values have with all their parts,
the one laid over the other has (`holds_laid`), and what is inherited by values, presets have
(`Preset.of_find?`).  So no table gets a key twice.
-/

namespace ProjectConsistency
namespace Standards

/-- A value of a document over what is below it. -/
def laid (below : Option Toml) (x : Toml) : Toml :=
  match below with
  | some base => merge base x
  | none => stripMarkers x

/-! ## Tables -/

theorem stripEntries_eq (entries : List (String × Toml)) :
    stripEntries entries = Assoc.mapValues stripMarkers entries := by
  induction entries with
  | nil => rfl
  | cons entry rest ih =>
      rw [stripEntries, ih]
      rfl

theorem stripItems_eq (items : List Toml) : stripItems items = items.map stripMarkers := by
  induction items with
  | nil => rfl
  | cons x rest ih => rw [stripItems, ih, List.map_cons]

/-- Merging lays one entry of the overlay after the other. -/
theorem mergeEntries_cons (base : List (String × Toml)) (key : String) (x : Toml)
    (rest : List (String × Toml)) :
    mergeEntries base ((key, x) :: rest)
      = mergeEntries (Assoc.insert key (laid (Assoc.find? key base) x) base) rest := by
  cases hfind : Assoc.find? key base <;> simp [mergeEntries, laid, hfind]

/-- Each key holds the document's value over the one below, or else the one below. -/
theorem find?_mergeEntries {overlay : List (String × Toml)} (hnodup : (Assoc.keys overlay).Nodup)
    (base : List (String × Toml)) (key : String) :
    Assoc.find? key (mergeEntries base overlay)
      = (Assoc.find? key overlay).elim (Assoc.find? key base)
          fun x => some (laid (Assoc.find? key base) x) := by
  induction overlay generalizing base with
  | nil => simp [mergeEntries, Assoc.find?]
  | cons entry rest ih =>
      obtain ⟨first, x⟩ := entry
      have hcons : first ∉ Assoc.keys rest ∧ (Assoc.keys rest).Nodup := by
        simpa [Assoc.keys] using hnodup
      rw [mergeEntries_cons, ih hcons.2]
      by_cases heq : first = key
      · -- The key is not set again.
        subst heq
        have hnone : Assoc.find? first rest = none := by
          rw [← Option.not_isSome_iff_eq_none, Assoc.isSome_find?_iff]
          exact hcons.1
        simp [hnone, Assoc.find?, Assoc.find?_insert]
      · simp [heq, Assoc.find?, Assoc.find?_insert]

/-- A table of the document stays a table. -/
theorem laid_table (below : Option Toml) {overlay : List (String × Toml)}
    (hnodup : (Assoc.keys overlay).Nodup) :
    ∃ entries, laid below (.table overlay) = .table entries ∧
      ∀ key, Assoc.find? key entries
        = (Assoc.find? key overlay).elim (below.bind (Toml.find? key))
            fun x => some (laid (below.bind (Toml.find? key)) x) := by
  -- If there is no table below, the entries only lose their markers.
  have hstrip : ∀ key, Assoc.find? key (stripEntries overlay)
      = (Assoc.find? key overlay).elim none fun x => some (laid none x) := by
    intro key
    rw [stripEntries_eq, Assoc.find?_mapValues]
    cases Assoc.find? key overlay <;> rfl
  cases below with
  | none => exact ⟨_, rfl, hstrip⟩
  | some base =>
      cases base with
      | table entries => exact ⟨_, rfl, find?_mergeEntries hnodup entries⟩
      | _ => exact ⟨_, rfl, hstrip⟩

/-! ## Lists -/

/-- A list by itself loses a marker. -/
theorem stripMarkers_array (own : List Toml) :
    stripMarkers (.array own) = .array ((mergeItems [] own).map stripMarkers) := by
  cases own with
  | nil => rfl
  | cons x rest =>
      by_cases hmarker : isMarker x = true
      · rw [stripMarkers, if_pos hmarker, stripItems_eq, mergeItems, if_pos (by exact hmarker)]
        rfl
      · rw [stripMarkers, if_neg hmarker, stripItems_eq, mergeItems, if_neg (by exact hmarker)]
        rfl

/-- A list of the document stays a list. -/
theorem exists_laid_array (below : Option Toml) (own : List Toml) :
    ∃ merged, laid below (.array own) = .array merged := by
  cases below with
  | none => exact ⟨_, stripMarkers_array own⟩
  | some base =>
      cases base with
      | array others => exact ⟨_, rfl⟩
      | _ => exact ⟨_, stripMarkers_array own⟩

/-- A list without a marker is appended to the list below. -/
theorem laid_array_of_array {below items : List Toml} (h : isReset items = false) :
    laid (some (.array below)) (.array items) = .array (below ++ items) := by
  simp [laid, merge, mergeItems, h]

/-- A list without a marker replaces anything else that is below. -/
theorem laid_array {below : Option Toml} {items : List Toml} (h : isReset items = false)
    (hbelow : ∀ others, below ≠ some (.array others)) :
    laid below (.array items) = .array (items.map stripMarkers) := by
  have hstrip : stripMarkers (.array items) = .array (items.map stripMarkers) := by
    rw [stripMarkers_array, mergeItems, if_neg (by simp [h]), List.nil_append]
  cases below with
  | none => exact hstrip
  | some base =>
      cases base with
      | array others => exact absurd rfl (hbelow others)
      | _ => simp [laid, merge, hstrip]

/-! ## What is kept -/

section

variable {P : Toml → Prop} (hP : Toml.Hereditary P)

include hP

/-- A value loses no property of its parts with its markers. -/
theorem holds_stripMarkers {x : Toml} (hordered : x.Ordered) (h : P x) : P (stripMarkers x) := by
  induction hordered with
  | @array items each ih =>
      have hitems := hP.items h
      cases items with
      | nil => exact h
      | cons x rest =>
          have hrest : ∀ y ∈ rest.map stripMarkers, P y := by
            intro y hy
            rcases List.mem_map.1 hy with ⟨z, hz, rfl⟩
            have hmem := List.mem_cons_of_mem x hz
            exact ih z hmem (hitems z hmem)
          by_cases hmarker : isMarker x = true
          · rw [stripMarkers, if_pos hmarker, stripItems_eq]
            exact hP.array _ hrest
          · rw [stripMarkers, if_neg hmarker, stripItems_eq]
            exact hP.array _
              (List.forall_mem_cons.2 ⟨ih x (by simp) (hitems x (by simp)), hrest⟩)
  | @table entries ascending _ ih =>
      have hentries := hP.entries h
      rw [stripMarkers, stripEntries_eq]
      refine hP.table _ ⟨?_, ?_⟩
      · rwa [Assoc.Ascending, Assoc.keys_mapValues]
      · intro key y hy
        rcases List.mem_map.1 hy with ⟨⟨_, z⟩, hz, heq⟩
        cases heq
        exact ih _ z hz (hentries.value _ z hz)
  | _ => exact h

omit hP in
/-- What holds of every entry of the base and of each laid value holds of the merged entries. -/
theorem each_mergeEntries {base overlay : List (String × Toml)} (hbase : Assoc.Each P base)
    (hoverlay : ∀ key x, (key, x) ∈ overlay → ∀ below : Option Toml,
      (∀ b, below = some b → P b) → P (laid below x)) :
    Assoc.Each P (mergeEntries base overlay) := by
  induction overlay generalizing base with
  | nil => exact hbase
  | cons entry rest ih =>
      obtain ⟨key, x⟩ := entry
      rw [mergeEntries_cons]
      refine ih (hbase.insert ?_ key) ?_
      · exact hoverlay key x (by simp) _ fun b hb => hbase.of_find? hb
      · intro other y hy
        exact hoverlay other y (List.mem_cons_of_mem _ hy)

/-- What two values have, the one laid over the other has. -/
theorem holds_laid {x : Toml} (hordered : x.Ordered) (h : P x) {below : Option Toml}
    (hbelow : ∀ b, below = some b → P b) : P (laid below x) := by
  induction hordered generalizing below with
  | @array items each ih =>
      have hstrip := holds_stripMarkers hP (.array each) h
      have hitems := hP.items h
      cases below with
      | none => exact hstrip
      | some base =>
          cases base with
          | array others =>
              have hothers := hP.items (hbelow _ rfl)
              refine hP.array _ ?_
              intro y hy
              -- After a marker the array replaces the one below, else it is appended to it.
              by_cases hreset : isReset items = true
              · rw [mergeItems, if_pos hreset] at hy
                exact hitems y (List.mem_of_mem_drop hy)
              · rw [mergeItems, if_neg hreset] at hy
                exact (List.mem_append.1 hy).elim (hothers y) (hitems y)
          | _ => exact hstrip
  | @table entries ascending value ih =>
      have hstrip := holds_stripMarkers hP (.table ascending value) h
      have hentries := hP.entries h
      cases below with
      | none => exact hstrip
      | some base =>
          cases base with
          | table others =>
              refine hP.table _ (each_mergeEntries (hP.entries (hbelow _ rfl)) ?_)
              intro key y hy below hbelow
              exact ih key y hy (hentries.value key y hy) hbelow
          | _ => exact hstrip
  | _ => cases below <;> exact h

end

/-- Laying an ordered value over an ordered one gives an ordered one. -/
theorem ordered_laid {x : Toml} (hx : x.Ordered) {below : Option Toml}
    (hbelow : ∀ b, below = some b → b.Ordered) : (laid below x).Ordered :=
  holds_laid Toml.hereditary_ordered hx hx hbelow

theorem ordered_below {below : Option Toml} (h : ∀ b, below = some b → b.Ordered) (key : String) :
    ∀ b, below.bind (Toml.find? key) = some b → b.Ordered := by
  intro b hb
  obtain ⟨base, hbase, hfind⟩ := Option.bind_eq_some_iff.1 hb
  exact (h base hbase).of_find? hfind

end Standards

namespace Preset

open Toml

section

variable {P : Toml → Prop} (hP : Inherited P)

include hP

theorem of_table {entries : List (String × Toml)} (h : ∀ e ∈ entries, P e.2) :
    P (table entries) := by
  refine hP.table _ ⟨Assoc.ascending_ofList entries, ?_⟩
  intro key x hmem
  exact h _ (Assoc.mem_of_mem_ofList hmem)

theorem of_texts (items : List String) : P (texts items) := by
  refine hP.array _ ?_
  intro x hx
  rcases List.mem_map.1 hx with ⟨s, _, rfl⟩
  exact hP.string s

/-- What is inherited by values, the document of a preset has. -/
theorem of_find? {name : String} {document : Toml} (h : find? name = some document) :
    P document := by
  have hmem : (name, document) ∈ all := Assoc.mem_of_find? h
  have hall : ∀ e ∈ all, P e.2 := by
    repeat' first
      | exact of_texts hP _
      | exact hP.string _
      | exact hP.boolean _
      | exact hP.integer _ (by decide)
      | refine List.forall_mem_cons.2 ⟨?_, ?_⟩
      | exact List.forall_mem_nil _
      | refine of_table hP ?_
  exact hall _ hmem

end

theorem ordered_of_find? {name : String} {document : Toml} (h : find? name = some document) :
    document.Ordered :=
  of_find? inherited_ordered h

end Preset

end ProjectConsistency
