import ProjectConsistency.Proofs.Standards.Layering

/-!
# Merged — what a document over another one holds at each path

This file defines:

* `Toml.lookup` — the value that a chain of keys leads to;
* `Toml.TablesAbove` — a chain of keys passes through tables only;
* `Standards.Merged` — what comes of two values, where each of them may be missing.

What comes of two values depends on their kinds only (`merged_merge`).  Tables are merged key by key, so
a chain of keys that passes through tables in both documents passes through tables in the merge as well.
At its end stands what comes of the two values there (`lookup_merge`), by induction on the chain.
-/

namespace ProjectConsistency

namespace Toml

/-- The value that a chain of keys leads to. -/
def lookup : List String → Toml → Option Toml
  | [], value => some value
  | key :: rest, value => (value.find? key).bind (lookup rest)

/-- There is a table above each key of the chain. -/
def TablesAbove (path : List String) (value : Toml) : Prop :=
  ∀ above key below, path = above ++ key :: below →
    ∃ entries, value.lookup above = some (.table entries)

variable {value x : Toml} {key : String} {path below : List String}

/-- A value is looked up along a path in two parts. -/
theorem lookup_append (path below : List String) (value : Toml) :
    value.lookup (path ++ below) = (value.lookup path).bind (lookup below) := by
  induction path generalizing value with
  | nil => rfl
  | cons key rest ih =>
      rw [List.cons_append, lookup, lookup, Option.bind_assoc]
      exact congrArg _ (funext ih)

theorem TablesAbove.isTable (h : value.TablesAbove (key :: path)) :
    ∃ entries, value = .table entries := by
  obtain ⟨entries, hentries⟩ := h [] key path rfl
  exact ⟨entries, Option.some.inj hentries⟩

theorem TablesAbove.of_find? (h : value.TablesAbove (key :: path))
    (hfind : value.find? key = some x) : x.TablesAbove path := by
  rintro above next below rfl
  obtain ⟨entries, hentries⟩ := h (key :: above) next below rfl
  rw [lookup, hfind] at hentries
  exact ⟨entries, hentries⟩

theorem tablesAbove_singleton (entries : List (String × Toml)) (key : String) :
    (Toml.table entries).TablesAbove [key] := by
  intro above next below heq
  obtain rfl : above = [] := by
    cases above with
    | nil => rfl
    | cons first rest => simp at heq
  exact ⟨entries, rfl⟩

/-- Tables stand above a path when they do above its tail in the value found. -/
theorem TablesAbove.cons {entries : List (String × Toml)} (h : x.TablesAbove path)
    (hfind : Assoc.find? key entries = some x) : (Toml.table entries).TablesAbove (key :: path) := by
  intro above next below heq
  cases above with
  | nil => exact ⟨entries, rfl⟩
  | cons first rest =>
      obtain ⟨rfl, htail⟩ := List.cons.inj heq
      obtain ⟨inner, hinner⟩ := h rest next below htail
      refine ⟨inner, ?_⟩
      have hentry : (Toml.table entries).find? key = some x := hfind
      rw [lookup, hentry]
      exact hinner

/-- Only the last key of the chain may be missing. -/
theorem TablesAbove.nil_of_find? (h : value.TablesAbove (key :: path))
    (hfind : value.find? key = none) : path = [] := by
  cases path with
  | nil => rfl
  | cons next rest =>
      obtain ⟨entries, hentries⟩ := h [key] next rest rfl
      rw [lookup, hfind] at hentries
      cases hentries

end Toml

namespace Standards

/-! ## Two values -/

/-- What comes of a value and a value over it, where each of them may be missing. -/
inductive Merged : Option Toml → Option Toml → Option Toml → Prop where
  | absent : Merged none none none
  | kept (b : Toml) : Merged (some b) none (some b)
  | added (o : Toml) : Merged none (some o) (some (stripMarkers o))
  | tables {b o m : List (String × Toml)} (ascending : Assoc.Ascending m)
      (keys : ∀ key, key ∈ Assoc.keys m ↔ key ∈ Assoc.keys b ∨ key ∈ Assoc.keys o) :
      Merged (some (.table b)) (some (.table o)) (some (.table m))
  | reset (b own : List Toml) :
      Merged (some (.array b)) (some (.array (.string resetMarker :: own))) (some (.array own))
  | appended (b : List Toml) {o : List Toml} (plain : o.head? ≠ some (.string resetMarker)) :
      Merged (some (.array b)) (some (.array o)) (some (.array (b ++ o)))
  | replaced {b o : Toml} (tables : ∀ b' o', ¬ (b = .table b' ∧ o = .table o'))
      (arrays : ∀ b' o', ¬ (b = .array b' ∧ o = .array o')) :
      Merged (some b) (some o) (some (stripMarkers o))

theorem merged_none (b : Option Toml) : Merged b none b := by
  cases b with
  | none => exact .absent
  | some b => exact .kept b

theorem eq_of_merged_none {b m : Option Toml} (h : Merged b none m) : m = b := by
  cases h <;> rfl

/-- The keys of two tables are those of their merge. -/
theorem mem_keys_mergeEntries {overlay : List (String × Toml)} (hnodup : (Assoc.keys overlay).Nodup)
    (base : List (String × Toml)) (key : String) :
    key ∈ Assoc.keys (mergeEntries base overlay)
      ↔ key ∈ Assoc.keys base ∨ key ∈ Assoc.keys overlay := by
  rw [← Assoc.isSome_find?_iff, ← Assoc.isSome_find?_iff, ← Assoc.isSome_find?_iff,
    find?_mergeEntries hnodup]
  cases Assoc.find? key overlay <;> simp

/-- Merging keeps the keys in order. -/
theorem ascending_mergeEntries {base : List (String × Toml)} (h : Assoc.Ascending base)
    (overlay : List (String × Toml)) : Assoc.Ascending (mergeEntries base overlay) := by
  have heach : Assoc.Each (fun _ : Toml => True) base := ⟨h, fun _ _ _ => trivial⟩
  exact (each_mergeEntries heach fun _ _ _ _ _ => trivial).ascending

theorem eq_of_isReset {items : List Toml} (h : isReset items = true) :
    ∃ own, items = .string resetMarker :: own := by
  cases items with
  | nil => cases h
  | cons x own =>
      cases x with
      | string s =>
          have hs : s = resetMarker := by simpa [isReset, isMarker] using h
          exact ⟨own, by rw [hs]⟩
      | _ => cases h

/-- Two arrays are merged item by item, or replaced after a reset marker. -/
theorem merged_arrays (b o : List Toml) :
    Merged (some (.array b)) (some (.array o)) (some (.array (mergeItems b o))) := by
  by_cases hreset : isReset o = true
  · obtain ⟨own, rfl⟩ := eq_of_isReset hreset
    rw [mergeItems, if_pos hreset]
    exact .reset b own
  · rw [mergeItems, if_neg hreset]
    refine .appended b ?_
    intro hhead
    obtain ⟨own, rfl⟩ := List.head?_eq_some_iff.1 hhead
    exact hreset (by simp [isReset, isMarker])

/-- What comes of two values is their merge. -/
theorem merged_merge {b o : Toml} (hb : b.Ordered) (ho : o.Ordered) :
    Merged (some b) (some o) (some (merge b o)) := by
  -- One case for each kind of the upper value; tables and lists ask for the kind of the lower one.
  cases ho with
  | @table overlay ascending _ =>
      cases hb with
      | @table entries hentries _ =>
          exact .tables (ascending_mergeEntries hentries overlay)
            (mem_keys_mergeEntries ascending.nodup entries)
      | _ => exact .replaced (by simp) (by simp)
  | @array items _ =>
      cases hb with
      | @array others _ => exact merged_arrays others items
      | _ => exact .replaced (by simp) (by simp)
  | _ => exact .replaced (by simp) (by simp)

/-! ## All paths -/

/-- Each key of two merged tables is merged on its own. -/
theorem find?_merge {base overlay : List (String × Toml)} (hnodup : (Assoc.keys overlay).Nodup)
    (key : String) :
    (merge (.table base) (.table overlay)).find? key
      = (Assoc.find? key overlay).elim (Assoc.find? key base)
          fun x => some (laid (Assoc.find? key base) x) :=
  find?_mergeEntries hnodup base key

/-- Induction on the path; at each table the merge is that of its entries. -/
theorem merged_lookup {base overlay : Toml} (hbase : base.Ordered) (hoverlay : overlay.Ordered)
    {path : List String} (hb : base.TablesAbove path) (ho : overlay.TablesAbove path) :
    Merged (base.lookup path) (overlay.lookup path) ((merge base overlay).lookup path) := by
  -- By induction on the path.  Both documents are tables at its first key.
  induction path generalizing base overlay with
  | nil => exact merged_merge hbase hoverlay
  | cons key rest ih =>
      obtain ⟨entries, rfl⟩ := hb.isTable
      obtain ⟨own, rfl⟩ := ho.isTable
      have hnodup := (Toml.ordered_table_iff.1 hoverlay).ascending.nodup
      rw [Toml.lookup, Toml.lookup, Toml.lookup, find?_merge hnodup]
      have hlower : (Toml.table entries).find? key = Assoc.find? key entries := rfl
      have hupper : (Toml.table own).find? key = Assoc.find? key own := rfl
      rw [hlower, hupper]
      cases hown : Assoc.find? key own with
      | none => exact merged_none _
      | some o =>
          rw [← hupper] at hown
          cases hentry : Assoc.find? key entries with
          | none =>
              -- The lower document ends here, so the path does.
              obtain rfl := hb.nil_of_find? hentry
              exact .added o
          | some b =>
              rw [← hlower] at hentry
              exact ih (hbase.of_find? hentry) (hoverlay.of_find? hown) (hb.of_find? hentry)
                (ho.of_find? hown)

/--
Of two documents that have tables above a path, the merge holds at the path what comes of the two
values there.  Where the upper document has nothing, the lower one is left as it is, at any depth.
-/
theorem lookup_merge {base overlay : Toml} (hbase : base.Ordered) (hoverlay : overlay.Ordered)
    {path : List String} (hb : base.TablesAbove path) (ho : overlay.TablesAbove path) :
    Merged (base.lookup path) (overlay.lookup path) ((merge base overlay).lookup path) ∧
      (overlay.lookup path = none → ∀ below,
        (merge base overlay).lookup (path ++ below) = base.lookup (path ++ below)) := by
  have hmerged := merged_lookup hbase hoverlay hb ho
  refine ⟨hmerged, ?_⟩
  intro hnone below
  rw [hnone] at hmerged
  rw [Toml.lookup_append, Toml.lookup_append, eq_of_merged_none hmerged]

/-- The rules that stand below in a sample: a list of files and a depth. -/
def lowerRules : List (String × Toml) :=
  [("depth", .integer 3), ("files", .array [.string "a"])]

/-- The rules over them: another list of files. -/
def upperRules : List (String × Toml) :=
  [("files", .array [.string resetMarker, .string "b"])]

theorem lookup_merge_rules :
    let base : Toml := .table [("rules", .table lowerRules)]
    let overlay : Toml := .table [("rules", .table upperRules)]
    base.Ordered ∧ overlay.Ordered ∧
      base.TablesAbove ["rules", "files"] ∧ overlay.TablesAbove ["rules", "files"] ∧
      (merge base overlay).lookup ["rules", "files"] = some (.array [.string "b"]) ∧
      (merge base overlay).lookup ["rules", "depth"] = some (.integer 3) := by
  intro base overlay
  have hascending : Assoc.Ascending lowerRules := by
    unfold Assoc.Ascending
    decide
  have hrules : ∀ {rules : List (String × Toml)}, Assoc.Each Toml.Ordered rules →
      (Toml.table [("rules", .table rules)]).Ordered := by
    intro rules h
    exact Toml.ordered_table_iff.2 (Assoc.Each.nil.insert (Toml.ordered_table_iff.2 h) "rules")
  have hstring : ∀ s, Toml.Ordered (.string s) := .string
  have hbase : base.Ordered := by
    refine hrules ⟨hascending, ?_⟩
    simp only [lowerRules, List.mem_cons, List.not_mem_nil, or_false, Prod.mk.injEq]
    rintro key x (⟨rfl, rfl⟩ | ⟨rfl, rfl⟩)
    · exact .integer 3
    · exact .array (by simp [hstring])
  have hoverlay : overlay.Ordered :=
    hrules (Assoc.Each.nil.insert (.array (by simp [hstring])) "files")
  have hb : ∀ key, base.TablesAbove ["rules", key] :=
    fun key => (Toml.tablesAbove_singleton lowerRules key).cons rfl
  have ho : ∀ key, overlay.TablesAbove ["rules", key] :=
    fun key => (Toml.tablesAbove_singleton upperRules key).cons rfl
  refine ⟨hbase, hoverlay, hb _, ho _, ?_, ?_⟩
  · obtain ⟨hmerged, _⟩ := lookup_merge hbase hoverlay (hb "files") (ho "files")
    have hlower : base.lookup ["rules", "files"] = some (.array [.string "a"]) := rfl
    have hupper : overlay.lookup ["rules", "files"]
        = some (.array [.string resetMarker, .string "b"]) := rfl
    rw [hlower, hupper] at hmerged
    generalize (merge base overlay).lookup ["rules", "files"] = m at hmerged
    cases hmerged with
    | reset => rfl
    | appended _ plain => exact absurd rfl plain
    | replaced _ arrays => exact absurd ⟨rfl, rfl⟩ (arrays _ _)
  · obtain ⟨_, hkept⟩ := lookup_merge hbase hoverlay (hb "depth") (ho "depth")
    exact hkept rfl []

end Standards
end ProjectConsistency
