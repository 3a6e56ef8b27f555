import ProjectConsistency.FileSystem.Node

/-!
# Changes between two trees

- `Change`: one change at a location.
- `Change.create`: the changes that make a tree where there is nothing.
- `Change.between`: the changes that lead from one tree to another. A file or link that has only
  another name in its directory is renamed.
-/

namespace ProjectConsistency

inductive Change where
  | remove (at' : Location)
  | rename (source target : Location)
  | directory (at' : Location)
  | file (at' : Location) (content : ByteArray)
  | link (at' : Location) (target : String)

namespace Change

mutual

/-- The changes that make a tree where there is nothing. -/
def create (at' : Location) : Node → List Change
  | .file content => [file at' content]
  | .link target => [link at' target]
  | .directory entries => directory at' :: createEntries at' entries

/-- The changes that make the entries of an empty directory. -/
def createEntries (at' : Location) : List (String × Node) → List Change
  | [] => []
  | (name, node) :: rest => create (at' ++ [name]) node ++ createEntries at' rest

end

/-- Both are files with the same content, or links with the same target. -/
def sameLeaf : Node → Node → Bool
  | .file a, .file b => a == b
  | .link a, .link b => a == b
  | _, _ => false

/-- The first entry that is the same file or link, and the other entries. -/
def takeSame (node : Node) : List (String × Node) → Option (String × List (String × Node))
  | [] => none
  | (name, other) :: rest =>
      if sameLeaf node other then some (name, rest)
      else (takeSame node rest).map fun (found, left) => (found, (name, other) :: left)

/-- The entries that are not there any more. -/
def gone (old new : List (String × Node)) : List (String × Node) :=
  old.filter fun (name, _) => (Assoc.find? name new).isNone

mutual

/-- The changes at a location from one tree to another. -/
def between (at' : Location) (old : Node) : Node → List Change
  | .directory new =>
      match old with
      | .directory entries => betweenEntries at' entries (gone entries new) new
      | _ => remove at' :: directory at' :: createEntries at' new
  | .file content =>
      match old with
      | .file before => if before == content then [] else [file at' content]
      | _ => [remove at', file at' content]
  | .link target =>
      match old with
      | .link before => if before = target then [] else [remove at', link at' target]
      | _ => [remove at', link at' target]

/--
The changes from the entries of a directory to others. The entries of `missing` are not there any
more; what is left of them is removed last.
-/
def betweenEntries (at' : Location) (old missing : List (String × Node)) :
    List (String × Node) → List Change
  | [] => missing.map fun (name, _) => remove (at' ++ [name])
  | (name, node) :: rest =>
      match Assoc.find? name old with
      | some before => between (at' ++ [name]) before node ++ betweenEntries at' old missing rest
      | none =>
          match takeSame node missing with
          | some (source, left) =>
              rename (at' ++ [source]) (at' ++ [name]) :: betweenEntries at' old left rest
          | none => create (at' ++ [name]) node ++ betweenEntries at' old missing rest

end

end Change
end ProjectConsistency
