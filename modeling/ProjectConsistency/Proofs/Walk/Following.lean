import Mathlib.Data.List.Infix
import ProjectConsistency.Proofs.Walk.Listing
import ProjectConsistency.Proofs.Walk.Root

/-!
# Following — links add to a walk and take nothing away

A walk that follows links has more to report than one that does not.  This file defines:

* `Node.meetsLink` — a path leads through a link of a tree, or ends in one;
* `Walk.Event.isReal` — the event reports an entry of a tree whose path meets no link.

All that is reported because of a link has a path that meets the link (`above_of_mem_enter`).  By
induction on the tree, the rest is what a walk reports that follows no links, in the same order
(`filter_visitNode`), whatever happens behind the links and whichever directories they led to
before.
-/

namespace ProjectConsistency

namespace Node

def isLink : Node → Bool
  | link _ => true
  | _ => false

/-- The path leads through a link of the tree, or ends in one. -/
def meetsLink (tree : Node) (path : Location) : Bool :=
  path.inits.any fun at' => (tree.get? at').any isLink

theorem meetsLink_eq_true_iff {tree : Node} {path : Location} :
    tree.meetsLink path = true ↔
      ∃ at' target, at' <+: path ∧ tree.shapeAt at' = some (.link target) := by
  simp only [meetsLink, List.any_eq_true, List.mem_inits, Option.any_eq_true]
  constructor
  · rintro ⟨at', habove, node, hnode, hlink⟩
    cases node with
    | file _ => simp [isLink] at hlink
    | directory _ => simp [isLink] at hlink
    | link target => exact ⟨at', target, habove, shapeAt_of_get? hnode⟩
  · rintro ⟨at', target, habove, hshape⟩
    rcases Option.map_eq_some_iff.1 hshape with ⟨node, hnode, hlink⟩
    cases node with
    | file _ => cases hlink
    | directory _ => cases hlink
    | link _ => exact ⟨at', habove, _, hnode, rfl⟩

/-- The order of the entries makes no difference. -/
theorem WellFormed.meetsLink_sorted {tree : Node} (h : tree.WellFormed) (path : Location) :
    tree.sorted.meetsLink path = tree.meetsLink path := by
  rw [Bool.eq_iff_iff, meetsLink_eq_true_iff, meetsLink_eq_true_iff]
  simp [h.shapeAt_sorted]

/-- What is found in a tree is not behind a link, and the way to it meets none if it is not one. -/
theorem meetsLink_eq_isLink {tree node : Node} {path : Location}
    (h : tree.get? path = some node) : tree.meetsLink path = node.isLink := by
  have hmeets : tree.meetsLink path = true ↔ node.isLink = true := by
    rw [meetsLink_eq_true_iff]
    constructor
    · rintro ⟨at', target, ⟨rest, rfl⟩, hlink⟩
      by_cases hrest : rest = []
      · subst hrest
        rw [List.append_nil] at h
        rw [shapeAt_of_get? h] at hlink
        cases node with
        | link _ => rfl
        | file _ => cases hlink
        | directory _ => cases hlink
      · -- Only directories have something below them.
        have hdirectory := shapeAt_directory_of_append hrest (shapeAt_of_get? h)
        rw [hdirectory] at hlink
        cases hlink
    · intro hlink
      cases node with
      | link target => exact ⟨path, target, List.prefix_rfl, shapeAt_of_get? h⟩
      | file _ => cases hlink
      | directory _ => cases hlink
  exact Bool.eq_iff_iff.2 hmeets

end Node

namespace Walk

def Event.isEntry (e : Event) : Bool :=
  e.shape?.isSome

/-- The event reports an entry of a tree whose path meets no link. -/
def Event.isReal (project : Node) (e : Event) : Bool :=
  e.isEntry && !project.meetsLink e.path

theorem Event.isReal_of_get? {project node : Node} {e : Event} (hentry : e.isEntry = true)
    (hnode : project.get? e.path = some node) (hreal : node.isLink = false) :
    e.isReal project = true := by
  simp [isReal, hentry, Node.meetsLink_eq_isLink hnode, hreal]

variable {plan : Plan} {enter : Enter} {links : Nat}

/-! ## Behind a link -/

/-- Below a directory, only paths below its own are reported. -/
def Descends (enter : Enter) : Prop :=
  ∀ pos entries linked, ∀ e ∈ (enter pos entries linked).1, pos.path <+: e.path

mutual

theorem above_of_mem_visitNode (henter : Descends enter) (node : Node) (pos : Position)
    (name : String) (linked : Linked) :
    ∀ e ∈ (visitNode plan enter pos name linked node).1, pos.path ++ [name] <+: e.path := by
  intro e he
  match node with
  | .file _ =>
      obtain ⟨_, rfl⟩ := mem_visitNode_file.1 he
      exact List.prefix_rfl
  | .directory entries =>
      rcases mem_visitNode_directory.1 he with ⟨_, rfl | he⟩
      · exact List.prefix_rfl
      · exact above_of_mem_visitEntries henter entries (pos.child name) linked e he
  | .link _ =>
      rw [visitNode_link] at he
      rcases mem_visitLink he with ⟨hpath, _⟩ | ⟨target, entries, _, he⟩
      · exact hpath ▸ List.prefix_rfl
      · exact henter (pos.linked name target) entries _ e he

theorem above_of_mem_visitEntries (henter : Descends enter) (entries : List (String × Node))
    (pos : Position) (linked : Linked) :
    ∀ e ∈ (visitEntries plan enter pos linked entries).1, pos.path <+: e.path := by
  intro e he
  match entries with
  | [] => simp [visitEntries] at he
  | (name, node) :: rest =>
      rcases List.mem_append.1 he with he | he
      · have hbelow := above_of_mem_visitNode henter node pos name linked e he
        exact (List.prefix_append _ _).trans hbelow
      · exact above_of_mem_visitEntries henter rest pos _ e he

end

theorem above_of_mem_enter (plan : Plan) (links : Nat) : Descends (Walk.enter plan links) := by
  induction links with
  | zero =>
      intro pos entries linked
      exact above_of_mem_visitEntries (fun _ _ _ e he => by simp at he) entries pos linked
  | succ links ih =>
      intro pos entries linked
      exact above_of_mem_visitEntries ih entries pos linked

/-- Whatever the number of links is, the entries of a directory are visited in turn. -/
theorem exists_enter_eq (plan : Plan) (links : Nat) :
    ∃ inner, Descends inner ∧ ∀ pos entries linked,
      Walk.enter plan links pos entries linked = visitEntries plan inner pos linked entries := by
  cases links with
  | zero => exact ⟨_, fun _ _ _ e he => by simp at he, fun _ _ _ => rfl⟩
  | succ links => exact ⟨_, above_of_mem_enter plan links, fun _ _ _ => rfl⟩

/-! ## Real entries -/

section

variable {other : Plan} {project : Node}

/-- What is reported because of a link has a path that meets it. -/
theorem filter_isReal_eq_nil {events : List Event} {path : List String} {target : String}
    (hlink : project.get? path = some (.link target)) (h : ∀ e ∈ events, path <+: e.path) :
    events.filter (Event.isReal project) = [] := by
  refine List.filter_eq_nil_iff.2 ?_
  intro e he
  have hmeets : project.meetsLink e.path = true :=
    Node.meetsLink_eq_true_iff.2 ⟨path, target, h e he, Node.shapeAt_of_get? hlink⟩
  simp [Event.isReal, hmeets]

theorem filter_visitEntries {enter' : Enter} {pos pos' : Position}
    {entries : List (String × Node)}
    (each : ∀ name node linked linked', (name, node) ∈ entries →
      (visitNode plan enter pos name linked node).1.filter (Event.isReal project)
        = (visitNode other enter' pos' name linked' node).1.filter Event.isEntry)
    (linked linked' : Linked) :
    (visitEntries plan enter pos linked entries).1.filter (Event.isReal project)
      = (visitEntries other enter' pos' linked' entries).1.filter Event.isEntry := by
  induction entries generalizing linked linked' with
  | nil => rfl
  | cons entry rest ih =>
      obtain ⟨name, node⟩ := entry
      rw [visitEntries_cons, visitEntries_cons, List.filter_append, List.filter_append]
      rw [each name node linked linked' (by simp)]
      rw [ih (fun n x l l' hmem => each n x l l' (List.mem_cons_of_mem _ hmem))]

/--
The real entries that are reported of a node are those that are reported if no link is followed.
The node is in the project, under the path of its directory and its name.
-/
theorem filter_visitNode (hfilter : other.filter = plan.filter)
    (hfollow : other.followLinks = false) (henter : Descends enter) (enter' : Enter) {node : Node}
    (hwell : node.WellFormed) (pos pos' : Position) (name : String) (linked linked' : Linked)
    (hpath : pos'.path = pos.path) (hnode : project.get? (pos.path ++ [name]) = some node) :
    (visitNode plan enter pos name linked node).1.filter (Event.isReal project)
      = (visitNode other enter' pos' name linked' node).1.filter Event.isEntry := by
  -- By induction on the tree; a link leads one of the two walks on, out of the project.
  induction hwell generalizing pos pos' name linked linked' with
  | file content =>
      have hreal : (Event.file (pos.path ++ [name]) content).isReal project = true :=
        Event.isReal_of_get? rfl hnode rfl
      have hentry : (Event.file (pos.path ++ [name]) content).isEntry = true := rfl
      rw [visitNode_file, visitNode_file, hfilter, hpath]
      by_cases hexcluded : plan.filter.isExcluded name false = true
      · simp [hexcluded]
      · simp [hexcluded, hreal, hentry]
  | link target =>
      rw [filter_isReal_eq_nil hnode (above_of_mem_visitNode henter _ pos name linked),
        visitNode_link, visitLink_passed (passage_of_not_follows hfollow)]
      rfl
  | @directory entries nodup _ _ below ih =>
      have hreal : (Event.directory (pos.path ++ [name])).isReal project = true :=
        Event.isReal_of_get? rfl hnode rfl
      have hentry : (Event.directory (pos.path ++ [name])).isEntry = true := rfl
      have hentries : (visitEntries plan enter (pos.child name) linked entries).1.filter
            (Event.isReal project)
          = (visitEntries other enter' (pos'.child name) linked' entries).1.filter Event.isEntry :=
        filter_visitEntries (fun n x l l' hmem => ih n x hmem (pos.child name) (pos'.child name) n l
          l' (by simp [Position.child, hpath]) (Node.get?_entry nodup hnode hmem)) linked linked'
      rw [visitNode_directory, visitNode_directory, hfilter, hpath]
      by_cases hexcluded : plan.filter.isExcluded name true = true
      · simp [hexcluded]
      · simp [hexcluded, hreal, hentry, hentries]

end

/-! ## Whole walks -/

/-- The real entries of a tree are those that are reported if no link is followed. -/
theorem filter_enter (plan : Plan) {other : Plan} {tree : Node} (hwell : tree.WellFormed)
    (hfilter : other.filter = plan.filter) (hfollow : other.followLinks = false) (links : Nat)
    (at' : Location) (linked : Linked) :
    (Walk.enter plan links ⟨at', [], []⟩ tree.entries linked).1.filter (Event.isReal tree)
      = (Walk.enter other links ⟨at', [], []⟩ tree.entries linked).1.filter Event.isEntry := by
  obtain ⟨inner, hinner, hplan⟩ := exists_enter_eq plan links
  obtain ⟨inner', _, hother⟩ := exists_enter_eq other links
  rw [hplan, hother]
  refine filter_visitEntries (fun name node l l' hmem => ?_) linked linked
  cases hwell with
  | file _ => simp [Node.entries] at hmem
  | link _ => simp [Node.entries] at hmem
  | directory nodup _ _ below =>
      exact filter_visitNode hfilter hfollow hinner inner' (below name node hmem) _ _ name l l' rfl
        (Node.get?_entry nodup rfl hmem)

/--
Following links only adds to a walk: the entries whose path in the project neither leads through a
link nor ends in one are the entries that are reported if links are not followed, in the same order
and with the same contents.
-/
theorem walk_following_links {fs : FileSystem} (hfs : fs.tree.WellFormed) {path : String}
    {root : Location} {project : Node} (hlocate : fs.locate true path = .ok (root, project))
    (filter : NameFilter) :
    (walk fs filter true path).filter (Event.isReal project)
      = (walk fs filter false path).filter Event.isEntry := by
  have hwell : project.WellFormed :=
    hfs.of_get? (FileSystem.leads_of_locate hlocate).get?_of_found
  -- The walk goes through the sorted project, in which the same paths meet links.
  have hreal : Event.isReal project = Event.isReal project.sorted := by
    funext e
    simp [Event.isReal, hwell.meetsLink_sorted]
  rw [walk_of_locate hlocate, walk_of_locate hlocate, Plan.run, Plan.run,
    entries_ofRoot hfs hlocate, entries_ofRoot hfs hlocate, hreal]
  refine filter_enter _ hwell.sorted ?_ ?_ _ _ _
  · rfl
  · rfl

/-! ## A sample -/

def aliasProject : Node :=
  .directory [
    ("alias", .link "src"),
    ("src", .directory [("index.ts", .file ⟨#[120]⟩), ("up", .link "../..")])]

def aliasSample : FileSystem where
  tree := .directory [("app", aliasProject)]

theorem wellFormed_aliasSample : aliasSample.tree.WellFormed :=
  have hsrc : (Node.directory [("index.ts", .file ⟨#[120]⟩), ("up", .link "../..")]).WellFormed :=
    .cons (by decide) (by decide) (by decide) (.file _)
      (.cons (by decide) (by decide) (by decide) (.link _) .nil)
  have hproject : aliasProject.WellFormed :=
    .cons (by decide) (by decide) (by decide) (.link _)
      (.cons (by decide) (by decide) (by decide) hsrc .nil)
  .cons (by decide) (by decide) (by decide) hproject .nil

theorem walk_aliasSample :
    walk aliasSample ⟨[], []⟩ true "/app" =
      [.directory ["src"], .file ["src", "index.ts"] ⟨#[120]⟩, .directory ["src", "up"],
        .directory ["src", "up", "app"], .directory ["src", "up", "app", "src"],
        .file ["src", "up", "app", "src", "index.ts"] ⟨#[120]⟩] ∧
      walk aliasSample ⟨[], []⟩ false "/app" =
        [.directory ["src"], .file ["src", "index.ts"] ⟨#[120]⟩] := by
  have hsorted : aliasSample.tree.sorted = aliasSample.tree := by
    simp [aliasSample, aliasProject, Node.sorted, Node.sortedEntries, List.mergeSort,
      Node.inOrder_eq, RawName.isText, RawName.mark, List.MergeSort.Internal.splitInTwo]
  have hlocate : aliasSample.locate true "/app" = .ok (["app"], aliasProject) := rfl
  rw [walk_of_sorted hsorted hlocate, walk_of_sorted hsorted hlocate]
  exact ⟨rfl, rfl⟩

theorem walk_following_links_aliasSample :
    (walk aliasSample ⟨[], []⟩ true "/app").filter (Event.isReal aliasProject)
        = (walk aliasSample ⟨[], []⟩ false "/app").filter Event.isEntry ∧
      (walk aliasSample ⟨[], []⟩ false "/app").filter Event.isEntry
        = [.directory ["src"], .file ["src", "index.ts"] ⟨#[120]⟩] := by
  refine ⟨walk_following_links wellFormed_aliasSample rfl ⟨[], []⟩, ?_⟩
  rw [walk_aliasSample.2]
  rfl

end Walk
end ProjectConsistency
