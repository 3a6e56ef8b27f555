import ProjectConsistency.FileSystem.Operation
import ProjectConsistency.Glob.NameFilter

/-!
# Walking a tree

A directory is followed by what is in it, and entries of one directory come in ascending order of
their names. Excluded names are passed over with everything below them. Real directories are always
entered. When links are followed, a link to a directory is passed over if the directory lies in the
root or contains the link, or if another link led there before. Where a link leads is found by its
path, so the links on the way to it count. That is looked up before the name of the link is looked at,
so a link is reported whatever its name is if what it leads to is not there or cannot be used.

- `Walk.Event`: what a walk reports.
- `Walk.Failures`: what fails although it is there.
- `Walk.Plan`: what stays the same during a walk.
- `Walk.passage`: what a link comes to, events or a directory to enter.
- `Walk.visitNode`, `Walk.visitEntries`: the events below a directory, and the directories that links
  have led to.
- `Walk.enter`: the events of a directory, through at most a given number of links.
- `Walk.Plan.run`: the events below a root that is there.
- `walk`: the events of a root; `cut`: the events of a walk that is stopped.
-/

namespace ProjectConsistency
namespace Walk

/-! ## Events -/

/-- What a walk reports. Paths are lists of names, relative to the root. -/
inductive Event where
  | directory (path : List String)
  | file (path : List String) (content : ByteArray)
  | unreadable (path : List String) (reason : OsError)
  /-- The walk was stopped. -/
  | cancelled

/-- Why what is there below the root cannot be used, by its path. -/
structure Failures where
  /-- Why what a path leads to cannot be examined. -/
  examining : List String → Option OsError
  /-- Why the directory at a path cannot be opened. -/
  opening : List String → Option OsError

/-- Everything can be used. -/
def noFailure : Failures where
  examining := fun _ => none
  opening := fun _ => none

/-- Directories outside the root to which links have led. -/
abbrev Linked := List Location

/--
What stays the same during a walk. The tree is sorted; the root is at a location, and its path leads
there from `start` through `names`.
-/
structure Plan where
  tree : Node
  root : Location
  start : Location
  names : List String
  filter : NameFilter
  followLinks : Bool

def Plan.follow (plan : Plan) (path : List String) : Except OsError Target :=
  FileSystem.follow plan.tree true FileSystem.linkLimit plan.start (plan.names ++ path)

/-- What a path below the root names, if it can be examined. -/
def Plan.examine (plan : Plan) (failure : Failures) (path : List String) : Except OsError Target :=
  match failure.examining path with
  | some reason => .error reason
  | none => plan.follow path

/-- A directory that is being entered: where it is, its path, and the directories above it. -/
structure Position where
  at' : Location
  path : List String
  above : List Location

namespace Position

def child (pos : Position) (name : String) : Position :=
  { at' := pos.at' ++ [name], path := pos.path ++ [name], above := pos.at' :: pos.above }

/-- The directory that a link in the directory leads to. -/
def linked (pos : Position) (name : String) (target : Location) : Position :=
  { at' := target, path := pos.path ++ [name], above := pos.at' :: pos.above }

end Position

/-- How a directory behind a link is entered. -/
abbrev Enter := Position → List (String × Node) → Linked → List Event × Linked

/-! ## Entries -/

/-- A link to the directory would lead to something that is walked anyway. -/
def isCovered (plan : Plan) (linked : Linked) (target : Location) : Bool :=
  plan.root.isPrefixOf target || linked.contains target

/-- What a link comes to. -/
inductive Passage where
  /-- There is nothing to enter. -/
  | passed (events : List Event)
  /-- The link leads to a directory that is entered. -/
  | into (target : Location) (entries : List (String × Node))

/--
What a link in a directory comes to. A directory behind it is opened to see whether it contains the
link; the error of one that cannot be opened tells no path.
-/
def passage (plan : Plan) (failure : Failures) (pos : Position) (name : String) (linked : Linked) :
    Passage :=
  let path := pos.path ++ [name]
  if !plan.followLinks then .passed []
  else match plan.examine failure path with
    | .error e => .passed [.unreadable path e]
    | .ok (.free _ _) => .passed [.unreadable path .notFound]
    | .ok (.found target (.directory entries)) =>
        match failure.opening path with
        | some e => .passed [.unreadable [] e]
        | none =>
            if (pos.at' :: pos.above).contains target then .passed []
            else if plan.filter.isExcluded name true then .passed []
            else if isCovered plan linked target then .passed []
            else .into target entries
    | .ok (.found _ (.file content)) =>
        if plan.filter.isExcluded name false then .passed [] else .passed [.file path content]
    | .ok (.found _ (.link _)) => .passed []

/-- The events of a link, if nothing fails. -/
def visitLink (plan : Plan) (enter : Enter) (pos : Position) (name : String) (linked : Linked) :
    List Event × Linked :=
  match passage plan noFailure pos name linked with
  | .passed events => (events, linked)
  | .into target entries =>
      let (events, linked') := enter (pos.linked name target) entries (target :: linked)
      (.directory (pos.path ++ [name]) :: events, linked')

mutual

def visitNode (plan : Plan) (enter : Enter) (pos : Position) (name : String) (linked : Linked) :
    Node → List Event × Linked
  | .file content =>
      if plan.filter.isExcluded name false then ([], linked)
      else ([.file (pos.path ++ [name]) content], linked)
  | .directory entries =>
      if plan.filter.isExcluded name true then ([], linked)
      else
        let (events, linked') := visitEntries plan enter (pos.child name) linked entries
        (.directory (pos.path ++ [name]) :: events, linked')
  | .link _ => visitLink plan enter pos name linked

/-- The events of the entries of a directory. -/
def visitEntries (plan : Plan) (enter : Enter) (pos : Position) (linked : Linked) :
    List (String × Node) → List Event × Linked
  | [] => ([], linked)
  | (name, node) :: rest =>
      let (events, linked') := visitNode plan enter pos name linked node
      let (others, linked'') := visitEntries plan enter pos linked' rest
      (events ++ others, linked'')

end

/-- The events of the entries of a directory, through at most `links` links to directories. -/
def enter (plan : Plan) : Nat → Enter
  | 0, pos, entries, linked =>
      visitEntries plan (fun _ _ linked => ([], linked)) pos linked entries
  | links + 1, pos, entries, linked => visitEntries plan (enter plan links) pos linked entries

/-! ## Walks -/

/-- The plan of a walk whose root is at a location. -/
def Plan.ofRoot (fs : FileSystem) (filter : NameFilter) (followLinks : Bool) (path : String)
    (root : Location) : Plan where
  tree := fs.tree.sorted
  root := root
  start := fs.start path
  names := FileSystem.namesOf path
  filter := filter
  followLinks := followLinks

def Plan.entries (plan : Plan) : List (String × Node) :=
  (plan.tree.get? plan.root).elim [] Node.entries

/--
The events below the root, and the directories to which links have led. Each link leads to another
directory.
-/
def Plan.run (plan : Plan) : List Event × Linked :=
  enter plan plan.tree.directoryCount ⟨plan.root, [], []⟩ plan.entries []

/-- The events below a root, which need not be there. -/
def walk (fs : FileSystem) (filter : NameFilter) (followLinks : Bool) (path : String) :
    List Event :=
  let found := do
    let _ ← fs.lstat path
    fs.locate true path
  match found with
  | .error e => [.unreadable [] e]
  | .ok (root, _) => (Plan.ofRoot fs filter followLinks path root).run.1

/-- The events of a walk that is stopped after a number of events. -/
def cut (limit : Option Nat) (events : List Event) : List Event :=
  match limit with
  | none => events
  | some n => if n ≤ events.length then events.take n ++ [.cancelled] else events

end Walk
end ProjectConsistency
