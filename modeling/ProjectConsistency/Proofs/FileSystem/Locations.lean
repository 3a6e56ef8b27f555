import Mathlib.Data.List.Nodup
import Mathlib.Data.List.Perm.Basic
import ProjectConsistency.Proofs.FileSystem.WellFormed

/-!
# Locations — everything that is in a tree

For counting what a tree holds, this file lists its locations.  It defines:

* `Node.locations` — the locations of all nodes, the top first;
* `Node.directories` — the locations of all directories;
* `Node.entryCount` — the number of entries of all directories;
* `Node.outside` — the directories that are not below a location;
* `Node.EntryByEntry` — a way of listing that both lists have in common.

Whatever is found in a tree is listed (`mem_locations`, `mem_directories`), a part of a tree has no
more entries than the tree (`entryCount_le`), and sorting a tree changes none of the numbers
(`entryCount_sorted`, `length_outside_sorted`), since it only changes the order of what is listed
(`EntryByEntry.sorted`).
-/

namespace ProjectConsistency
namespace Node

mutual

/-- The locations of all nodes of a tree, the top first. -/
def locations : Node → List Location
  | file _ => [[]]
  | link _ => [[]]
  | directory entries => [] :: locationsIn entries

def locationsIn : List (String × Node) → List Location
  | [] => []
  | (name, node) :: rest => (locations node).map (name :: ·) ++ locationsIn rest

end

mutual

/-- The locations of all directories of a tree, the top first. -/
def directories : Node → List Location
  | directory entries => [] :: directoriesIn entries
  | _ => []

def directoriesIn : List (String × Node) → List Location
  | [] => []
  | (name, node) :: rest => (directories node).map (name :: ·) ++ directoriesIn rest

end

/-- The number of entries of all directories of a tree. -/
def entryCount (tree : Node) : Nat :=
  tree.locations.length - 1

/-- The directories of a tree that are neither at a location nor below it. -/
def outside (root : Location) (tree : Node) : List Location :=
  tree.directories.filter fun at' => !root.isPrefixOf at'

/-! ## What is listed -/

theorem locationsIn_eq_flatMap (entries : List (String × Node)) :
    locationsIn entries = entries.flatMap fun entry => entry.2.locations.map (entry.1 :: ·) := by
  induction entries with
  | nil => rfl
  | cons entry rest ih => simp [locationsIn, ih]

theorem directoriesIn_eq_flatMap (entries : List (String × Node)) :
    directoriesIn entries
      = entries.flatMap fun entry => entry.2.directories.map (entry.1 :: ·) := by
  induction entries with
  | nil => rfl
  | cons entry rest ih => simp [directoriesIn, ih]

theorem exists_entry {entries : List (String × Node)} {name : String} {rest : Location}
    {node : Node} (h : (directory entries).get? (name :: rest) = some node) :
    ∃ child, (name, child) ∈ entries ∧ child.get? rest = some node := by
  simp only [get?] at h
  rcases Option.bind_eq_some_iff.1 h with ⟨child, hchild, hrest⟩
  exact ⟨child, Assoc.mem_of_find? hchild, hrest⟩

theorem nil_mem_locations (tree : Node) : [] ∈ tree.locations := by
  cases tree <;> simp [locations]

/-- Everything that is found in a tree is listed. -/
theorem mem_locations {tree node : Node} {at' : Location} (h : tree.get? at' = some node) :
    at' ∈ tree.locations := by
  induction at' generalizing tree with
  | nil => exact nil_mem_locations tree
  | cons name rest ih =>
      cases tree with
      | file _ => simp [get?] at h
      | link _ => simp [get?] at h
      | directory entries =>
          rcases exists_entry h with ⟨child, hmem, hrest⟩
          refine List.mem_cons_of_mem _ ?_
          rw [locationsIn_eq_flatMap]
          exact List.mem_flatMap.2 ⟨_, hmem, List.mem_map.2 ⟨rest, ih hrest, rfl⟩⟩

/-- Every directory of a tree is listed. -/
theorem mem_directories {tree : Node} {at' : Location} (h : tree.shapeAt at' = some .directory) :
    at' ∈ tree.directories := by
  induction at' generalizing tree with
  | nil =>
      cases tree with
      | file _ => simp [shape] at h
      | link _ => simp [shape] at h
      | directory _ => simp [directories]
  | cons name rest ih =>
      rcases shapeAt_eq_directory_iff.1 h with ⟨found, hfound⟩
      cases tree with
      | file _ => simp [get?] at hfound
      | link _ => simp [get?] at hfound
      | directory entries =>
          rcases exists_entry hfound with ⟨child, hmem, hrest⟩
          refine List.mem_cons_of_mem _ ?_
          rw [directoriesIn_eq_flatMap]
          exact List.mem_flatMap.2
            ⟨_, hmem, List.mem_map.2 ⟨rest, ih (shapeAt_of_get? hrest), rfl⟩⟩

/-- With different names in each directory, what is listed as a directory is one. -/
theorem WellFormed.mem_directories_iff {tree : Node} (h : tree.WellFormed) {at' : Location} :
    at' ∈ tree.directories ↔ tree.shapeAt at' = some .directory := by
  refine ⟨?_, mem_directories⟩
  induction h generalizing at' with
  | file _ => simp [directories]
  | link _ => simp [directories]
  | @directory entries nodup _ _ _ ih =>
      intro hmem
      cases at' with
      | nil => rfl
      | cons name below =>
          obtain ⟨node, hentry, hbelow⟩ : ∃ node, (name, node) ∈ entries ∧ below ∈ node.directories := by
            simpa [directories, directoriesIn_eq_flatMap] using hmem
          have hfind := (Assoc.find?_eq_some_iff nodup).2 hentry
          have hshape := ih name node hentry hbelow
          simpa [shapeAt, get?, hfind] using hshape

theorem nil_notMem_directoriesIn (entries : List (String × Node)) : [] ∉ directoriesIn entries := by
  simp [directoriesIn_eq_flatMap]

/-- No directory is listed twice. -/
theorem WellFormed.nodup_directories {tree : Node} (h : tree.WellFormed) :
    tree.directories.Nodup := by
  induction h with
  | file _ => exact List.nodup_nil
  | link _ => exact List.nodup_nil
  | @directory entries nodup _ _ _ ih =>
      refine List.nodup_cons.2 ⟨nil_notMem_directoriesIn entries, ?_⟩
      rw [directoriesIn_eq_flatMap, List.nodup_flatMap]
      refine ⟨?_, (List.pairwise_map.1 nodup).imp ?_⟩
      · rintro ⟨name, node⟩ hmem
        exact (ih name node hmem).map List.cons_injective
      · -- Locations under different names differ in the first name.
        rintro ⟨name, node⟩ ⟨name', node'⟩ hne at' hleft hright
        rcases List.mem_map.1 hleft with ⟨_, _, rfl⟩
        rcases List.mem_map.1 hright with ⟨_, _, heq⟩
        exact hne (List.cons.inj heq).1.symm

/-! ## Numbers -/

theorem length_locations (tree : Node) : tree.locations.length = tree.entryCount + 1 := by
  have hpos : 0 < tree.locations.length := List.length_pos_of_mem (nil_mem_locations tree)
  unfold entryCount
  omega

theorem entryCount_directory (entries : List (String × Node)) :
    (directory entries).entryCount = (locationsIn entries).length := by
  simp [entryCount, locations]

theorem length_locationsIn_cons (name : String) (node : Node) (rest : List (String × Node)) :
    (locationsIn ((name, node) :: rest)).length
      = node.entryCount + 1 + (locationsIn rest).length := by
  simp [locationsIn, length_locations]

theorem entryCount_lt_of_mem {entries : List (String × Node)} {name : String} {node : Node}
    (h : (name, node) ∈ entries) : node.entryCount < (locationsIn entries).length := by
  induction entries with
  | nil => simp at h
  | cons entry rest ih =>
      obtain ⟨n, x⟩ := entry
      rw [length_locationsIn_cons]
      rcases List.mem_cons.1 h with heq | hmem
      · cases heq
        omega
      · have := ih hmem
        omega

/-- A part of a tree has no more entries than the tree. -/
theorem entryCount_le {tree node : Node} {at' : Location} (h : tree.get? at' = some node) :
    node.entryCount ≤ tree.entryCount := by
  induction at' generalizing tree with
  | nil =>
      obtain rfl : tree = node := by simpa [get?] using h
      exact Nat.le_refl _
  | cons name rest ih =>
      cases tree with
      | file _ => simp [get?] at h
      | link _ => simp [get?] at h
      | directory entries =>
          rcases exists_entry h with ⟨child, hmem, hrest⟩
          have hchild := ih hrest
          have hlt := entryCount_lt_of_mem hmem
          rw [entryCount_directory]
          omega

mutual

/-- As many directories are listed as are counted. -/
theorem length_directories (tree : Node) : tree.directories.length = tree.directoryCount :=
  match tree with
  | file _ => rfl
  | link _ => rfl
  | directory entries => by
      simp [directories, directoryCount, length_directoriesIn entries]

theorem length_directoriesIn (entries : List (String × Node)) :
    (directoriesIn entries).length = directoryCountAll entries :=
  match entries with
  | [] => rfl
  | (_, node) :: rest => by
      simp [directoriesIn, directoryCountAll, length_directories node, length_directoriesIn rest]

end

/-! ## Sorted trees -/

/-- The locations of a directory are listed entry by entry. -/
def EntryByEntry (list : Node → List Location) : Prop :=
  ∀ entries, list (directory entries)
    = [] :: entries.flatMap fun entry => (list entry.2).map (entry.1 :: ·)

mutual

/-- What is listed entry by entry is the same in a sorted tree, but for the order. -/
theorem EntryByEntry.sorted {list : Node → List Location} (h : EntryByEntry list) (tree : Node) :
    (list tree.sorted).Perm (list tree) :=
  match tree with
  | file _ => .refl _
  | link _ => .refl _
  | directory entries => by
      rw [Node.sorted, h, h]
      exact .cons _ (((List.mergeSort_perm _ _).flatMap_right _).trans (h.sortedEntries entries))

theorem EntryByEntry.sortedEntries {list : Node → List Location} (h : EntryByEntry list)
    (entries : List (String × Node)) :
    ((sortedEntries entries).flatMap fun entry => (list entry.2).map (entry.1 :: ·)).Perm
      (entries.flatMap fun entry => (list entry.2).map (entry.1 :: ·)) :=
  match entries with
  | [] => .refl _
  | (_, node) :: rest => ((h.sorted node).map _).append (h.sortedEntries rest)

end

theorem directories_sorted (tree : Node) : tree.sorted.directories.Perm tree.directories :=
  EntryByEntry.sorted (fun entries => by rw [directories, directoriesIn_eq_flatMap]) tree

theorem locations_sorted (tree : Node) : tree.sorted.locations.Perm tree.locations :=
  EntryByEntry.sorted (fun entries => by rw [locations, locationsIn_eq_flatMap]) tree

theorem entryCount_sorted (tree : Node) : tree.sorted.entryCount = tree.entryCount := by
  rw [entryCount, entryCount, (locations_sorted tree).length_eq]

theorem length_outside_sorted (root : Location) (tree : Node) :
    (tree.sorted.outside root).length = (tree.outside root).length :=
  ((directories_sorted tree).filter _).length_eq

/-- A directory that is not below a location is outside of it. -/
theorem mem_outside {root at' : Location} {tree : Node}
    (h : tree.shapeAt at' = some .directory) (hout : ¬ root <+: at') : at' ∈ tree.outside root := by
  have hnot : root.isPrefixOf at' = false :=
    Bool.eq_false_iff.2 fun habove => hout (List.isPrefixOf_iff_prefix.1 habove)
  exact List.mem_filter.2 ⟨mem_directories h, by simp [hnot]⟩

end Node
end ProjectConsistency
