import ProjectConsistency.FileSystem.Operation

/-!
# Shape — what a tree shows at each location

The order of the entries of a directory is of no account, so trees are compared by what is found at
their locations.  This file defines:

* `Shape` — a file with its content, a link with its target, or a directory;
* `Node.shapeAt` — the shape at a location of a tree;

and says what setting, deleting and moving a node do to it.  Each operation acts on one place: below
it the tree shows what was put there (`shapeAt_put_append`, `shapeAt_remove_append`), everywhere else
it shows what it showed before (`shapeAt_put_of_not_above`, `shapeAt_remove_of_not_above`).
-/

namespace ProjectConsistency

/-- What a node is, without the entries of a directory. -/
inductive Shape where
  | file (content : ByteArray)
  | link (target : String)
  | directory

def Shape.isDirectory : Shape → Bool
  | directory => true
  | _ => false

namespace Node

def shape : Node → Shape
  | file content => .file content
  | link target => .link target
  | directory _ => .directory

def shapeAt (at' : Location) (tree : Node) : Option Shape :=
  (tree.get? at').map shape

/-! ## Shapes and nodes -/

theorem isDirectory_eq_shape (node : Node) : node.isDirectory = node.shape.isDirectory := by
  cases node <;> rfl

@[simp]
theorem shapeAt_nil (tree : Node) : tree.shapeAt [] = some tree.shape := rfl

theorem shapeAt_of_get? {tree node : Node} {at' : Location} (h : tree.get? at' = some node) :
    tree.shapeAt at' = some node.shape := by
  simp [shapeAt, h]

theorem isSome_shapeAt {tree : Node} {at' : Location} :
    (tree.shapeAt at').isSome = (tree.get? at').isSome := by
  simp [shapeAt]

theorem isSome_of_shapeAt {tree : Node} {at' : Location} {x : Shape}
    (h : tree.shapeAt at' = some x) : (tree.get? at').isSome := by
  rw [← isSome_shapeAt, h]
  rfl

theorem exists_shapeAt {tree : Node} {at' : Location} (h : (tree.get? at').isSome) :
    ∃ x, tree.shapeAt at' = some x := by
  rwa [← isSome_shapeAt, Option.isSome_iff_exists] at h

theorem shapeAt_eq_directory_iff {tree : Node} {at' : Location} :
    tree.shapeAt at' = some .directory ↔ ∃ entries, tree.get? at' = some (directory entries) := by
  constructor
  · intro h
    rcases Option.map_eq_some_iff.1 h with ⟨node, hnode, hshape⟩
    cases node with
    | file _ => simp [shape] at hshape
    | link _ => simp [shape] at hshape
    | directory entries => exact ⟨entries, hnode⟩
  · rintro ⟨entries, h⟩
    exact shapeAt_of_get? h

theorem shapeAt_eq_file_iff {tree : Node} {at' : Location} {content : ByteArray} :
    tree.shapeAt at' = some (.file content) ↔ tree.get? at' = some (file content) := by
  constructor
  · intro h
    rcases Option.map_eq_some_iff.1 h with ⟨node, hnode, hshape⟩
    cases node with
    | file found =>
        obtain rfl : found = content := by simpa [shape] using hshape
        exact hnode
    | link _ => simp [shape] at hshape
    | directory _ => simp [shape] at hshape
  · intro h
    exact shapeAt_of_get? h

theorem shapeAt_eq_link_iff {tree : Node} {at' : Location} {target : String} :
    tree.shapeAt at' = some (.link target) ↔ tree.get? at' = some (link target) := by
  constructor
  · intro h
    rcases Option.map_eq_some_iff.1 h with ⟨node, hnode, hshape⟩
    cases node with
    | file _ => simp [shape] at hshape
    | link found =>
        obtain rfl : found = target := by simpa [shape] using hshape
        exact hnode
    | directory _ => simp [shape] at hshape
  · exact shapeAt_of_get?

/-- A location in two parts is looked up in two steps. -/
theorem shapeAt_append (a b : Location) (tree : Node) :
    tree.shapeAt (a ++ b) = (tree.get? a).bind (shapeAt b) := by
  rw [shapeAt, get?_append]
  cases tree.get? a with
  | none => rfl
  | some node => rfl

/-- A part of a tree shows what the tree shows there. -/
theorem shapeAt_below {tree node : Node} {a : Location} (h : tree.get? a = some node)
    (b : Location) : tree.shapeAt (a ++ b) = node.shapeAt b := by
  rw [shapeAt_append, h]
  rfl

/-- Where something is, something is at every location on the way. -/
theorem isSome_get?_of_above {tree : Node} {a b : Location} (h : a <+: b)
    (hb : (tree.get? b).isSome) : (tree.get? a).isSome := by
  rcases h with ⟨below, rfl⟩
  rw [get?_append] at hb
  cases hnode : tree.get? a with
  | none => simp [hnode] at hb
  | some _ => rfl

/-- What is below a location lies in a directory. -/
theorem shapeAt_directory_of_append {tree : Node} {a b : Location} {x : Shape} (hb : b ≠ [])
    (h : tree.shapeAt (a ++ b) = some x) : tree.shapeAt a = some .directory := by
  rw [shapeAt_append] at h
  cases hnode : tree.get? a with
  | none => simp [hnode] at h
  | some node =>
      cases b with
      | nil => exact absurd rfl hb
      | cons name rest =>
          cases node with
          | file _ => simp [hnode, shapeAt, get?] at h
          | link _ => simp [hnode, shapeAt, get?] at h
          | directory entries => exact shapeAt_of_get? hnode

theorem find?_eq_get? {tree : Node} {at' : Location} {entries : List (String × Node)}
    (h : tree.get? at' = some (directory entries)) (name : String) :
    Assoc.find? name entries = tree.get? (at' ++ [name]) := by
  rw [get?_append, h]
  cases hfind : Assoc.find? name entries with
  | none => simp [get?, hfind]
  | some node => simp [get?, hfind]

/-! ## Changing one place -/

/-- The other entries are found as before. -/
theorem find?_setEntry_of_ne {name other : String} (hne : name ≠ other)
    (entries : List (String × Node)) (new : Option Node) :
    Assoc.find? other (setEntry name entries new) = Assoc.find? other entries := by
  cases new with
  | none => simp [setEntry, Assoc.find?_erase, hne]
  | some node => simp [setEntry, Assoc.find?_put, hne]

/-- A change at one place is not seen at the locations that do not lead through it. -/
theorem shapeAt_alter_of_not_above (change : Option Node → Option Node) {place at' : Location}
    (tree : Node) (h : ¬ place <+: at') :
    (tree.alter change place).shapeAt at' = tree.shapeAt at' := by
  -- Down the place and the location together, as long as their names agree.
  induction place generalizing tree at' with
  | nil => exact absurd List.nil_prefix h
  | cons name rest ih =>
      cases tree with
      | file _ => cases rest <;> rfl
      | link _ => cases rest <;> rfl
      | directory entries =>
          cases at' with
          | nil =>
              -- The directory itself shows as a directory, whatever happens in it.
              cases rest with
              | nil => rfl
              | cons _ _ =>
                  cases hfind : Assoc.find? name entries <;> simp [alter, hfind, shape]
          | cons first others =>
              by_cases hname : name = first
              · -- The first names agree, so the change is further down, off the way.
                subst hname
                have hrest : ¬ rest <+: others := by simpa using h
                have hne : rest ≠ [] := by
                  rintro rfl
                  exact hrest List.nil_prefix
                cases hfind : Assoc.find? name entries with
                | none =>
                    cases rest with
                    | nil => exact absurd rfl hne
                    | cons _ _ => simp [alter, hfind]
                | some child =>
                    rw [alter_cons change name hne hfind]
                    simpa [shapeAt, get?, Assoc.find?_put, hfind] using ih child hrest
              · -- The names differ, so the entry that changes is not on the way.
                cases rest with
                | nil => simp [shapeAt, alter, get?, find?_setEntry_of_ne hname]
                | cons _ _ =>
                    cases hfind : Assoc.find? name entries with
                    | none => simp [alter, hfind]
                    | some child => simp [shapeAt, alter, get?, hfind, Assoc.find?_put, hname]

/-- A node that is put somewhere shows nowhere else. -/
theorem shapeAt_put_of_not_above (node : Node) {place at' : Location} (tree : Node)
    (h : ¬ place <+: at') : (put node place tree).shapeAt at' = tree.shapeAt at' :=
  shapeAt_alter_of_not_above _ tree h

/-- What is removed was nowhere else. -/
theorem shapeAt_remove_of_not_above {place at' : Location} (tree : Node) (h : ¬ place <+: at') :
    (remove place tree).shapeAt at' = tree.shapeAt at' :=
  shapeAt_alter_of_not_above _ tree h

/-- Below the place of a new node its own parts show. -/
theorem shapeAt_put_append (node : Node) (name : String) {parent : Location} {tree : Node}
    (h : tree.shapeAt parent = some .directory) (below : Location) :
    (put node (parent ++ [name]) tree).shapeAt (parent ++ [name] ++ below)
      = node.shapeAt below := by
  rcases shapeAt_eq_directory_iff.1 h with ⟨entries, hentries⟩
  rw [shapeAt_append, get?_put node name hentries]
  rfl

/-- Of two nodes that are put at one location the second counts. -/
theorem put_put (node other : Node) (at' : Location) (tree : Node) :
    put other at' (put node at' tree) = put other at' tree := by
  unfold put
  induction at' generalizing tree with
  | nil => cases tree <;> rfl
  | cons name rest ih =>
      cases tree with
      | file _ => simp [alter]
      | link _ => simp [alter]
      | directory entries =>
          cases rest with
          | nil => simp [alter, setEntry, Assoc.put_put]
          | cons _ _ =>
              cases hchild : Assoc.find? name entries with
              | none => simp [alter, hchild]
              | some child => simp [alter, hchild, Assoc.find?_put, Assoc.put_put, ih]

/-- Nothing is left below what is removed. -/
theorem shapeAt_remove_append (name : String) {parent : Location} {tree : Node}
    (h : tree.shapeAt parent = some .directory) (below : Location) :
    (remove (parent ++ [name]) tree).shapeAt (parent ++ [name] ++ below) = none := by
  rcases shapeAt_eq_directory_iff.1 h with ⟨entries, hentries⟩
  rw [shapeAt_append, get?_remove name hentries]
  rfl

end Node
end ProjectConsistency
