import ProjectConsistency.Assoc
import ProjectConsistency.FileSystem.RawName

/-!
# Trees of files

- `Node`: a file, a symbolic link, or a directory with named entries.
- `Location`: names from the top of a tree; unlike a path it leads through no links.
- `Node.get?`: what is at a location.
- `Node.alter`: changes one entry; `Node.put` and `Node.remove` set and delete it.
- `Node.sorted`: the tree with all entries in ascending order of the bytes of their names.

A location in two parts leads through both (`get?_append`), and in a directory that is there an
entry is found as it was set (`get?_put`) and not found once it is deleted (`get?_remove`).
-/

namespace ProjectConsistency

/-- A file, a symbolic link, or a directory with named entries. -/
inductive Node where
  | file (content : ByteArray)
  | link (target : String)
  | directory (entries : List (String × Node))

/-- Names from the top of a tree. -/
abbrev Location := List String

namespace Node

instance : Inhabited Node := ⟨directory []⟩

def isDirectory : Node → Bool
  | directory _ => true
  | _ => false

def isFile : Node → Bool
  | file _ => true
  | _ => false

/-- The entries of a directory; other nodes have none. -/
def entries : Node → List (String × Node)
  | directory entries => entries
  | _ => []

def get? : Location → Node → Option Node
  | [], node => some node
  | name :: rest, directory entries => (Assoc.find? name entries).bind (get? rest)
  | _ :: _, _ => none

/-- Sets or deletes an entry. -/
def setEntry (name : String) (entries : List (String × Node)) :
    Option Node → List (String × Node)
  | some node => Assoc.put name node entries
  | none => Assoc.erase name entries

/-- Changes the entry at a location whose directory is there. -/
def alter (change : Option Node → Option Node) : Location → Node → Node
  | [name], directory entries =>
      directory (setEntry name entries (change (Assoc.find? name entries)))
  | name :: rest, directory entries =>
      match Assoc.find? name entries with
      | some child => directory (Assoc.put name (alter change rest child) entries)
      | none => directory entries
  | _, node => node

def put (node : Node) (at' : Location) (tree : Node) : Node :=
  tree.alter (fun _ => some node) at'

def remove (at' : Location) (tree : Node) : Node :=
  tree.alter (fun _ => none) at'

/-! ## Look-ups after changes -/

/-- A location in two parts is looked up in two steps. -/
theorem get?_append (a b : Location) (tree : Node) :
    tree.get? (a ++ b) = (tree.get? a).bind (get? b) := by
  induction a generalizing tree with
  | nil => rfl
  | cons name rest ih =>
      cases tree with
      | file _ => rfl
      | link _ => rfl
      | directory entries =>
          simp only [List.cons_append, get?]
          cases h : Assoc.find? name entries with
          | none => rfl
          | some child => simpa using ih child

theorem find?_setEntry (name : String) (entries : List (String × Node)) (new : Option Node) :
    Assoc.find? name (setEntry name entries new) = new := by
  cases new with
  | none => simp [setEntry, Assoc.find?_erase]
  | some node => simp [setEntry, Assoc.find?_put]

/-- A change further down changes the child on the way. -/
theorem alter_cons (change : Option Node → Option Node) (name : String) {rest : Location}
    (hrest : rest ≠ []) {entries : List (String × Node)} {child : Node}
    (h : Assoc.find? name entries = some child) :
    (directory entries).alter change (name :: rest)
      = directory (Assoc.put name (child.alter change rest) entries) := by
  cases rest with
  | nil => exact absurd rfl hrest
  | cons _ _ => simp [alter, h]

/-- In a directory that is there, the entry that was changed is found as it was changed. -/
theorem get?_alter (change : Option Node → Option Node) (name : String) {parent : Location}
    {tree : Node} {entries : List (String × Node)}
    (h : tree.get? parent = some (directory entries)) :
    (tree.alter change (parent ++ [name])).get? (parent ++ [name])
      = change (tree.get? (parent ++ [name])) := by
  induction parent generalizing tree with
  | nil =>
      obtain rfl : tree = directory entries := by simpa [get?] using h
      simp [alter, get?, find?_setEntry]
  | cons first rest ih =>
      cases tree with
      | file _ => simp [get?] at h
      | link _ => simp [get?] at h
      | directory above =>
          simp only [get?] at h
          cases hc : Assoc.find? first above with
          | none => simp [hc] at h
          | some child =>
              have hchild : child.get? rest = some (directory entries) := by simpa [hc] using h
              have hne : rest ++ [name] ≠ [] := by simp
              rw [List.cons_append, alter_cons change first hne hc]
              simpa [get?, Assoc.find?_put, hc] using ih hchild

theorem get?_put (node : Node) (name : String) {parent : Location} {tree : Node}
    {entries : List (String × Node)} (h : tree.get? parent = some (directory entries)) :
    (put node (parent ++ [name]) tree).get? (parent ++ [name]) = some node :=
  get?_alter _ name h

theorem get?_remove (name : String) {parent : Location} {tree : Node}
    {entries : List (String × Node)} (h : tree.get? parent = some (directory entries)) :
    (remove (parent ++ [name]) tree).get? (parent ++ [name]) = none :=
  get?_alter _ name h

/-! ## Whole trees -/

/-- Two entries are in ascending order of the bytes of their names. -/
def inOrder (a b : String × Node) : Bool :=
  RawName.bytes a.1 ≤ RawName.bytes b.1

mutual

/-- The tree with all entries in ascending order of their names. -/
def sorted : Node → Node
  | file content => file content
  | link target => link target
  | directory entries => directory ((sortedEntries entries).mergeSort inOrder)

def sortedEntries : List (String × Node) → List (String × Node)
  | [] => []
  | (name, node) :: rest => (name, sorted node) :: sortedEntries rest

end

mutual

def directoryCount : Node → Nat
  | directory entries => directoryCountAll entries + 1
  | _ => 0

def directoryCountAll : List (String × Node) → Nat
  | [] => 0
  | (_, node) :: rest => directoryCount node + directoryCountAll rest

end

end Node

end ProjectConsistency
