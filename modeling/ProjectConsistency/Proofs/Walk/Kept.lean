import ProjectConsistency.Proofs.FileSystem.Locations
import ProjectConsistency.Proofs.Walk.Following

/-!
# Kept — what a walk reports that follows no links

Without links a walk depends on the names and the contents below its root only.  This file defines:

* `NameFilter.keeps` — a path without excluded names;
* `Walk.Reports` — an event reports an entry of a project that is kept.

By induction on the tree, a walk reports exactly what is kept (`mem_enter_iff`): an entry and a
directory on the way to it are judged as what they are, so a name can be kept as the one and
excluded as the other.
-/

namespace ProjectConsistency

/-- Below a node there is what is in its entries. -/
theorem Node.shapeAt_entries (tree : Node) (name : String) (rest : Location) :
    (directory tree.entries).shapeAt (name :: rest) = tree.shapeAt (name :: rest) := by
  cases tree <;> rfl

/-- The length of a file in bytes; other nodes count for nothing. -/
def Node.size : Node → Nat
  | file content => content.size
  | _ => 0

/-- No name of a path is excluded: the last one as what it is, the others as directories. -/
def NameFilter.keeps (filter : NameFilter) : List String → Bool → Bool
  | [], _ => true
  | [name], isDirectory => !filter.isExcluded name isDirectory
  | name :: rest, isDirectory => !filter.isExcluded name true && filter.keeps rest isDirectory

theorem NameFilter.keeps_cons {filter : NameFilter} {name : String} {rest : List String}
    (hrest : rest ≠ []) (isDirectory : Bool) :
    filter.keeps (name :: rest) isDirectory
      = (!filter.isExcluded name true && filter.keeps rest isDirectory) := by
  cases rest with
  | nil => exact absurd rfl hrest
  | cons _ _ => rfl

namespace Walk

def Event.namesDirectory : Event → Bool
  | directory _ => true
  | _ => false

/-- The length of the file that the event reports, in bytes. -/
def Event.size : Event → Nat
  | file _ content => content.size
  | _ => 0

/-- The event reports an entry of a project that is kept. -/
structure Reports (filter : NameFilter) (project : Node) (e : Event) : Prop where
  entry : e.isEntry = true
  ne_root : e.path ≠ []
  there : project.shapeAt e.path = e.shape?
  kept : filter.keeps e.path e.namesDirectory = true

namespace Event

theorem eq_of_shape_file {e : Event} {content : ByteArray} (h : e.shape? = some (.file content)) :
    e = .file e.path content := by
  cases e with
  | file path found =>
      obtain rfl : found = content := by simpa [shape?] using h
      rfl
  | directory _ => cases h
  | unreadable _ _ => cases h
  | cancelled => cases h

theorem eq_of_shape_directory {e : Event} (h : e.shape? = some .directory) :
    e = .directory e.path := by
  cases e with
  | directory path => rfl
  | file _ _ => cases h
  | unreadable _ _ => cases h
  | cancelled => cases h

theorem depth_of_isEntry {e : Event} (h : e.isEntry = true) : e.depth = e.path.length := by
  cases e with
  | directory _ => rfl
  | file _ _ => rfl
  | unreadable _ _ => cases h
  | cancelled => cases h

/-- No event reports a link as such. -/
theorem shape_ne_link (e : Event) (target : String) : e.shape? ≠ some (.link target) := by
  cases e <;> simp [shape?]

theorem exists_shape {e : Event} (h : e.isEntry = true) : ∃ x, e.shape? = some x :=
  Option.isSome_iff_exists.1 h

end Event

/-! ## Entries of a node -/

theorem exists_entry_of_shapeAt {entries : List (String × Node)} {name : String}
    {below : Location} {x : Shape} (h : (Node.directory entries).shapeAt (name :: below) = some x) :
    ∃ node, (name, node) ∈ entries := by
  rcases Option.map_eq_some_iff.1 h with ⟨found, hfound, _⟩
  rcases Node.exists_entry hfound with ⟨child, hmem, _⟩
  exact ⟨child, hmem⟩

/-- The event reports what is below a node, at a path that begins with the name of the node. -/
structure ReportsOf (filter : NameFilter) (base : List String) (name : String) (node : Node)
    (below : List String) (e : Event) : Prop where
  entry : e.isEntry = true
  path_eq : e.path = base ++ name :: below
  there : node.shapeAt below = e.shape?
  kept : filter.keeps (name :: below) e.namesDirectory = true

section

variable {filter : NameFilter} {base : List String} {name : String} {e : Event}

/-- A file has nothing below it. -/
theorem exists_reportsOf_file {content : ByteArray} :
    (∃ below, ReportsOf filter base name (.file content) below e) ↔
      filter.isExcluded name false = false ∧ e = .file (base ++ [name]) content := by
  constructor
  · rintro ⟨below, hentry, hpath, hthere, hkept⟩
    rcases Event.exists_shape hentry with ⟨x, hx⟩
    cases below with
    | cons _ _ => simp [Node.shapeAt, Node.get?, hx] at hthere
    | nil =>
        have he := Event.eq_of_shape_file hthere.symm
        rw [he] at hkept
        refine ⟨by simpa [NameFilter.keeps, Event.namesDirectory] using hkept, ?_⟩
        rw [he, hpath]
  · rintro ⟨hname, rfl⟩
    exact ⟨[], rfl, rfl, rfl, by simpa [NameFilter.keeps, Event.namesDirectory] using hname⟩

/-- A link has nothing below it either, and is no entry that an event could report. -/
theorem not_reportsOf_link {target : String} {below : List String} :
    ¬ ReportsOf filter base name (.link target) below e := by
  rintro ⟨hentry, _, hthere, _⟩
  rcases Event.exists_shape hentry with ⟨x, hx⟩
  cases below with
  | cons _ _ => simp [Node.shapeAt, Node.get?, hx] at hthere
  | nil => exact e.shape_ne_link target hthere.symm

theorem exists_reportsOf_directory {entries : List (String × Node)}
    (hnodup : (Assoc.keys entries).Nodup) :
    (∃ below, ReportsOf filter base name (.directory entries) below e) ↔
      filter.isExcluded name true = false ∧ (e = .directory (base ++ [name]) ∨
        ∃ n x, (n, x) ∈ entries ∧ ∃ below, ReportsOf filter (base ++ [name]) n x below e) := by
  constructor
  · rintro ⟨below, hentry, hpath, hthere, hkept⟩
    cases below with
    | nil =>
        have he := Event.eq_of_shape_directory hthere.symm
        rw [he] at hkept
        refine ⟨by simpa [NameFilter.keeps, Event.namesDirectory] using hkept, .inl ?_⟩
        rw [he, hpath]
    | cons n rest =>
        rw [NameFilter.keeps_cons (by simp)] at hkept
        simp only [Bool.and_eq_true, Bool.not_eq_true'] at hkept
        rcases Event.exists_shape hentry with ⟨shape, hx⟩
        rcases exists_entry_of_shapeAt (hthere.trans hx) with ⟨x, hmem⟩
        rw [shapeAt_cons_of_mem hnodup hmem] at hthere
        exact ⟨hkept.1, .inr ⟨n, x, hmem, rest, hentry, by simpa using hpath, hthere, hkept.2⟩⟩
  · rintro ⟨hname, rfl | ⟨n, x, hmem, below, hentry, hpath, hthere, hkept⟩⟩
    · exact ⟨[], rfl, rfl, rfl, by simp [NameFilter.keeps, Event.namesDirectory, hname]⟩
    · refine ⟨n :: below, hentry, by simpa using hpath, ?_, ?_⟩
      · rw [shapeAt_cons_of_mem hnodup hmem]
        exact hthere
      · rw [NameFilter.keeps_cons (by simp), hname]
        simpa using hkept

end

/-! ## Exactly the kept entries are reported -/

section

variable {plan : Plan} {enter : Enter}

theorem mem_visitEntries_iff {e : Event} {Q : String → Node → Prop} {pos : Position}
    {entries : List (String × Node)} (each : ∀ name node linked, (name, node) ∈ entries →
      (e ∈ (visitNode plan enter pos name linked node).1 ↔ Q name node)) (linked : Linked) :
    e ∈ (visitEntries plan enter pos linked entries).1 ↔
      ∃ name node, (name, node) ∈ entries ∧ Q name node := by
  induction entries generalizing linked with
  | nil => simp [visitEntries]
  | cons entry rest ih =>
      obtain ⟨name, node⟩ := entry
      have hrest := ih fun n x l hmem => each n x l (List.mem_cons_of_mem _ hmem)
      rw [visitEntries_cons, List.mem_append, each name node linked (by simp), hrest]
      simp only [List.mem_cons, Prod.mk.injEq]
      constructor
      · rintro (hq | ⟨n, x, hmem, hq⟩)
        · exact ⟨name, node, .inl ⟨rfl, rfl⟩, hq⟩
        · exact ⟨n, x, .inr hmem, hq⟩
      · rintro ⟨n, x, ⟨rfl, rfl⟩ | hmem, hq⟩
        · exact .inl hq
        · exact .inr ⟨n, x, hmem, hq⟩

/-- What is reported of a node: the entry itself and what is below it, as far as it is kept. -/
theorem mem_visitNode_iff (hfollow : plan.followLinks = false) {node : Node}
    (hwell : node.WellFormed) (pos : Position) (name : String) (linked : Linked) (e : Event) :
    e ∈ (visitNode plan enter pos name linked node).1 ↔
      ∃ below, ReportsOf plan.filter pos.path name node below e := by
  induction hwell generalizing pos name linked with
  | file content => rw [mem_visitNode_file, exists_reportsOf_file]
  | link target =>
      rw [visitNode_link, visitLink_passed (passage_of_not_follows hfollow)]
      simp [not_reportsOf_link]
  | @directory entries nodup _ _ _ ih =>
      have hentries := mem_visitEntries_iff
        (fun n x l hmem => ih n x hmem (pos.child name) n l) linked
      rw [mem_visitNode_directory, hentries, exists_reportsOf_directory nodup]
      rfl

end

/-- A walk that follows no links reports exactly what is kept. -/
theorem mem_enter_iff {plan : Plan} (hfollow : plan.followLinks = false) {tree : Node}
    (hwell : tree.WellFormed) (links : Nat) (at' : Location) (linked : Linked) (e : Event) :
    e ∈ (Walk.enter plan links ⟨at', [], []⟩ tree.entries linked).1 ↔
      Reports plan.filter tree e := by
  obtain ⟨inner, _, henter⟩ := exists_enter_eq plan links
  cases wellFormed_entries hwell with
  | directory nodup _ _ below =>
      have each : e ∈ (visitEntries plan inner ⟨at', [], []⟩ linked tree.entries).1 ↔
          ∃ name node, (name, node) ∈ tree.entries ∧
            ∃ rest, ReportsOf plan.filter [] name node rest e :=
        mem_visitEntries_iff (fun name node l hmem =>
          mem_visitNode_iff hfollow (below name node hmem) ⟨at', [], []⟩ name l e) linked
      rw [henter, each]
      constructor
      · rintro ⟨name, node, hmem, rest, hentry, hpath, hthere, hkept⟩
        rw [List.nil_append] at hpath
        refine ⟨hentry, by simp [hpath], ?_, hpath ▸ hkept⟩
        rw [hpath, ← Node.shapeAt_entries, shapeAt_cons_of_mem nodup hmem]
        exact hthere
      · rintro ⟨hentry, hne, hthere, hkept⟩
        obtain ⟨name, rest, hpath⟩ := List.exists_cons_of_ne_nil hne
        rcases Event.exists_shape hentry with ⟨x, hx⟩
        rw [hpath, ← Node.shapeAt_entries] at hthere
        rcases exists_entry_of_shapeAt (hthere.trans hx) with ⟨node, hmem⟩
        rw [shapeAt_cons_of_mem nodup hmem] at hthere
        exact ⟨name, node, hmem, rest, hentry, by simpa using hpath, hthere, hpath ▸ hkept⟩

end Walk
end ProjectConsistency
