import ProjectConsistency.Proofs.FileSystem.Shape
import ProjectConsistency.Proofs.Path.Names
import ProjectConsistency.Proofs.Text.ByteOrder

/-!
# WellFormed — trees as a file system holds them

A tree of the model may have entries that no file system has: two of one name, or names with slashes.
This file defines:

* `Node.WellFormed` — the entries of each directory have different names that it can hold;
* `Node.LinkFree` — there is no symbolic link in the tree.

In a well-formed tree an entry is found by its name (`find?_eq_some_iff`), so the order of the entries
is of no account and the sorted tree shows what the tree shows (`shapeAt_sorted`).
-/

namespace ProjectConsistency

namespace Assoc

variable {α β : Type} {entries : List (String × α)} {key : String} {value : α}

theorem mem_of_find? (h : find? key entries = some value) : (key, value) ∈ entries := by
  induction entries with
  | nil => simp [find?] at h
  | cons entry rest ih =>
      obtain ⟨k, v⟩ := entry
      by_cases hk : k = key
      · obtain rfl : v = value := by simpa [find?, hk] using h
        simp [hk]
      · exact List.mem_cons_of_mem _ (ih (by simpa [find?, hk] using h))

/-- With different keys, an entry is found by its key. -/
theorem find?_eq_some_iff (hnodup : (keys entries).Nodup) :
    find? key entries = some value ↔ (key, value) ∈ entries := by
  refine ⟨mem_of_find?, ?_⟩
  induction entries with
  | nil => simp
  | cons entry rest ih =>
      obtain ⟨k, v⟩ := entry
      have hcons : k ∉ keys rest ∧ (keys rest).Nodup := by simpa [keys] using hnodup
      intro hmem
      rcases List.mem_cons.1 hmem with heq | hmem
      · cases heq
        simp [find?]
      · have hne : k ≠ key := by
          rintro rfl
          exact hcons.1 (List.mem_map.2 ⟨_, hmem, rfl⟩)
        simpa [find?, hne] using ih hcons.2 hmem

/-- Lists with the same entries under different keys find the same. -/
theorem find?_perm {others : List (String × α)} (hperm : entries.Perm others)
    (hnodup : (keys entries).Nodup) : find? key others = find? key entries := by
  have hnodup' : (keys others).Nodup := (hperm.map Prod.fst).nodup_iff.1 hnodup
  apply Option.ext
  intro v
  rw [find?_eq_some_iff hnodup', find?_eq_some_iff hnodup, hperm.mem_iff]

end Assoc

namespace Node

/-- The entries of every directory have different names, and names that it can hold. -/
inductive WellFormed : Node → Prop where
  | file (content : ByteArray) : WellFormed (file content)
  | link (target : String) : WellFormed (link target)
  | directory {entries : List (String × Node)} (nodup : (Assoc.keys entries).Nodup)
      (plain : ∀ name ∈ Assoc.keys entries, PlainName name)
      (short : ∀ name ∈ Assoc.keys entries, name.utf8ByteSize ≤ FileSystem.nameLimit)
      (below : ∀ name node, (name, node) ∈ entries → WellFormed node) :
      WellFormed (directory entries)

def LinkFree (tree : Node) : Prop :=
  ∀ at' target, tree.get? at' ≠ some (link target)

/-! ## Building trees -/

theorem WellFormed.nil : (Node.directory []).WellFormed :=
  .directory (by decide) (by decide) (by decide) (by simp)

/-- A directory gets one more entry, under another name than those that are there. -/
theorem WellFormed.cons {name : String} {node : Node} {entries : List (String × Node)}
    (hname : PlainName name) (hshort : name.utf8ByteSize ≤ FileSystem.nameLimit)
    (hnew : name ∉ Assoc.keys entries) (hnode : node.WellFormed)
    (hrest : (Node.directory entries).WellFormed) :
    (Node.directory ((name, node) :: entries)).WellFormed := by
  cases hrest with
  | directory nodup plain short below =>
      refine .directory (List.nodup_cons.2 ⟨hnew, nodup⟩) ?_ ?_ ?_
      · intro n hn
        rcases List.mem_cons.1 hn with rfl | hn
        · exact hname
        · exact plain n hn
      · intro n hn
        rcases List.mem_cons.1 hn with rfl | hn
        · exact hshort
        · exact short n hn
      · intro n x hx
        rcases List.mem_cons.1 hx with heq | hx
        · cases heq
          exact hnode
        · exact below n x hx

/-! ## Parts of a tree -/

/-- The parts of a well-formed tree are well-formed. -/
theorem WellFormed.of_get? {tree node : Node} {at' : Location} (h : tree.WellFormed)
    (hnode : tree.get? at' = some node) : node.WellFormed := by
  induction at' generalizing tree with
  | nil =>
      obtain rfl : tree = node := by simpa [get?] using hnode
      exact h
  | cons name rest ih =>
      cases h with
      | file _ => simp [get?] at hnode
      | link _ => simp [get?] at hnode
      | directory _ _ _ below =>
          simp only [get?] at hnode
          rcases Option.bind_eq_some_iff.1 hnode with ⟨child, hchild, hrest⟩
          exact ih (below name child (Assoc.mem_of_find? hchild)) hrest

/-- The names on the way to an entry are names that a directory can hold. -/
theorem WellFormed.names_of_get? {tree node : Node} {at' : Location} (h : tree.WellFormed)
    (hnode : tree.get? at' = some node) :
    ∀ name ∈ at', PlainName name ∧ name.utf8ByteSize ≤ FileSystem.nameLimit := by
  induction at' generalizing tree with
  | nil => simp
  | cons first rest ih =>
      cases h with
      | file _ => simp [get?] at hnode
      | link _ => simp [get?] at hnode
      | @directory entries _ plain short below =>
          simp only [get?] at hnode
          rcases Option.bind_eq_some_iff.1 hnode with ⟨child, hchild, hrest⟩
          have hmem := Assoc.mem_of_find? hchild
          have hkey : first ∈ Assoc.keys entries := List.mem_map.2 ⟨_, hmem, rfl⟩
          intro name hname
          rcases List.mem_cons.1 hname with rfl | hname
          · exact ⟨plain _ hkey, short _ hkey⟩
          · exact ih (below first child hmem) hrest name hname

/-- An entry of a directory is found under its name. -/
theorem get?_entry {tree node : Node} {at' : Location} {entries : List (String × Node)}
    {name : String} (hnodup : (Assoc.keys entries).Nodup)
    (hdirectory : tree.get? at' = some (directory entries)) (hmem : (name, node) ∈ entries) :
    tree.get? (at' ++ [name]) = some node := by
  rw [← find?_eq_get? hdirectory name]
  exact (Assoc.find?_eq_some_iff hnodup).2 hmem

/-- The parts of a tree without links have none. -/
theorem LinkFree.of_get? {tree node : Node} {at' : Location} (h : tree.LinkFree)
    (hnode : tree.get? at' = some node) : node.LinkFree := by
  intro below target hlink
  apply h (at' ++ below) target
  rw [get?_append, hnode]
  exact hlink

theorem linkFree_file (content : ByteArray) : (file content).LinkFree := by
  intro at' target h
  cases at' with
  | nil => cases h
  | cons _ _ => cases h

theorem linkFree_directory {entries : List (String × Node)}
    (h : ∀ name node, (name, node) ∈ entries → node.LinkFree) : (directory entries).LinkFree := by
  intro at' target hlink
  cases at' with
  | nil => cases hlink
  | cons name rest =>
      simp only [get?] at hlink
      rcases Option.bind_eq_some_iff.1 hlink with ⟨node, hnode, hrest⟩
      exact h name node (Assoc.mem_of_find? hnode) rest target hrest

theorem LinkFree.nil : (directory []).LinkFree :=
  linkFree_directory (by simp)

/-- One more entry without links leaves a directory without links. -/
theorem LinkFree.cons {name : String} {node : Node} {entries : List (String × Node)}
    (hnode : node.LinkFree) (hrest : (directory entries).LinkFree) :
    (directory ((name, node) :: entries)).LinkFree := by
  intro at' target
  cases at' with
  | nil => simp [get?]
  | cons first below =>
      by_cases hname : name = first
      · simpa [get?, Assoc.find?, hname] using hnode below target
      · simpa [get?, Assoc.find?, hname] using hrest (first :: below) target

/-! ## The order of entries -/

/-- Names that are text are in the order of their characters. -/
theorem inOrder_eq {a b : String × Node} (ha : RawName.isText a.1 = true)
    (hb : RawName.isText b.1 = true) : inOrder a b = decide (a.1 ≤ b.1) := by
  have hbytes : ∀ {name : String}, RawName.isText name = true →
      RawName.bytes name = Text.bytes name := by
    intro name h
    rw [RawName.bytes, if_pos h, Text.bytes]
  rw [inOrder, hbytes ha, hbytes hb, decide_eq_decide, ← List.not_lt, ← String.not_lt,
    Text.bytes_lt_iff]

theorem sortedEntries_eq_map (entries : List (String × Node)) :
    sortedEntries entries = entries.map fun entry => (entry.1, entry.2.sorted) := by
  induction entries with
  | nil => rfl
  | cons entry rest ih => simp [sortedEntries, ih]

theorem find?_sortedEntries (name : String) (entries : List (String × Node)) :
    Assoc.find? name (sortedEntries entries) = (Assoc.find? name entries).map sorted := by
  rw [sortedEntries_eq_map]
  exact Assoc.find?_mapValues sorted name entries

theorem keys_sortedEntries (entries : List (String × Node)) :
    Assoc.keys (sortedEntries entries) = Assoc.keys entries := by
  simp [sortedEntries_eq_map, Assoc.keys, Function.comp_def]

/-- In a sorted tree there is the sorted node at each location. -/
theorem WellFormed.get?_sorted {tree : Node} (h : tree.WellFormed) (at' : Location) :
    tree.sorted.get? at' = (tree.get? at').map sorted := by
  induction at' generalizing tree with
  | nil => rfl
  | cons name rest ih =>
      cases h with
      | file _ => simp [sorted, get?]
      | link _ => simp [sorted, get?]
      | @directory entries nodup _ _ below =>
          -- The names are different, so sorting does not change which entry is found.
          have hsorted : Assoc.find? name ((sortedEntries entries).mergeSort inOrder)
              = (Assoc.find? name entries).map sorted := by
            rw [Assoc.find?_perm (List.mergeSort_perm _ _).symm
              (by rw [keys_sortedEntries]; exact nodup), find?_sortedEntries]
          simp only [sorted, get?, hsorted]
          cases hchild : Assoc.find? name entries with
          | none => rfl
          | some child => exact ih (below name child (Assoc.mem_of_find? hchild))

theorem shape_sorted (node : Node) : node.sorted.shape = node.shape := by
  cases node <;> rfl

/-- A sorted tree shows what the tree shows. -/
theorem WellFormed.shapeAt_sorted {tree : Node} (h : tree.WellFormed) (at' : Location) :
    tree.sorted.shapeAt at' = tree.shapeAt at' := by
  rw [shapeAt, shapeAt, h.get?_sorted]
  cases tree.get? at' with
  | none => rfl
  | some node => simp [shape_sorted]

/-- A well-formed tree is well-formed when it is sorted. -/
theorem WellFormed.sorted {tree : Node} (h : tree.WellFormed) : tree.sorted.WellFormed := by
  induction h with
  | file content => exact .file content
  | link target => exact .link target
  | @directory entries nodup plain short _ ih =>
      -- The sorted directory has the same names, over the sorted entries.
      have hperm : ((sortedEntries entries).mergeSort inOrder).Perm
          (entries.map fun entry => (entry.1, entry.2.sorted)) := by
        rw [← sortedEntries_eq_map]
        exact List.mergeSort_perm _ _
      have hkeys : (Assoc.keys ((sortedEntries entries).mergeSort inOrder)).Perm
          (Assoc.keys entries) := by
        rw [← keys_sortedEntries entries]
        exact (List.mergeSort_perm _ _).map Prod.fst
      refine .directory (hkeys.nodup_iff.2 nodup) ?_ ?_ ?_
      · exact fun name hname => plain name (hkeys.mem_iff.1 hname)
      · exact fun name hname => short name (hkeys.mem_iff.1 hname)
      · intro name node hmem
        rcases List.mem_map.1 (hperm.mem_iff.1 hmem) with ⟨⟨n, x⟩, hentry, heq⟩
        cases heq
        exact ih n x hentry

theorem WellFormed.linkFree_sorted {tree : Node} (h : tree.WellFormed) (hlinks : tree.LinkFree) :
    tree.sorted.LinkFree := by
  intro at' target hlink
  rw [h.get?_sorted] at hlink
  rcases Option.map_eq_some_iff.1 hlink with ⟨node, hnode, hsorted⟩
  cases node with
  | file _ => simp [Node.sorted] at hsorted
  | link t => exact hlinks at' t hnode
  | directory _ => simp [Node.sorted] at hsorted

end Node
end ProjectConsistency
