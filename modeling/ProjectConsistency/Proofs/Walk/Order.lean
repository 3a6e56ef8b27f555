import Mathlib.Data.List.Nodup
import ProjectConsistency.Proofs.Text.ByteOrder
import ProjectConsistency.Proofs.Walk.Ending
import ProjectConsistency.Proofs.Walk.Kept

/-!
# Order — the order in which a walk reports

A walk goes through sorted trees.  This file defines:

* `Walk.Before` — one path comes before another, name by name and byte by byte;
* `Node.Ordered` — the entries of all directories come in ascending order;
* `Walk.Enumerates` — events report exactly what is kept of a project, in ascending order.

By induction on a tree in order, a walk that follows no links reports in ascending order
(`ascending_visitNode`).  As it reports exactly the entries that are kept, it is determined by them
(`Enumerates.unique`), and the order in which the system lists a directory makes no difference
(`walk_lists_kept_in_order`).
-/

namespace ProjectConsistency
namespace Walk

/-! ## Ascending paths -/

/-- A path comes before another: it is above it, or smaller in the bytes of the first name that
differs. -/
def Before (a b : List String) : Prop :=
  List.Lex (fun x y => Text.bytes x < Text.bytes y) a b

/-- The order of the paths is that of their names, one after the other. -/
theorem before_iff {a b : List String} : Before a b ↔ a < b := by
  have hbytes : (fun x y => Text.bytes x < Text.bytes y) = fun x y : String => x < y := by
    funext x y
    exact propext Text.bytes_lt_iff
  rw [Before, hbytes]
  rfl

/-- What comes between a path and one below it is below it as well. -/
theorem above_of_between {a b c : List String} (hab : a < b) (hbc : b < c) (hac : a <+: c) :
    a <+: b := by
  induction a generalizing b c with
  | nil => exact List.nil_prefix
  | cons x a ih =>
      -- The first name of the path in the middle lies between two equal ones.
      obtain ⟨rest, rfl⟩ := hac
      cases b with
      | nil => exact absurd hab (List.not_lt_nil _)
      | cons y b =>
          rw [List.cons_append] at hbc
          rcases List.cons_lt_cons_iff.1 hab with hxy | ⟨rfl, hab'⟩
          · rcases List.cons_lt_cons_iff.1 hbc with hyx | ⟨rfl, _⟩
            · exact absurd hxy (String.lt_asymm hyx)
            · exact absurd hxy (String.lt_irrefl _)
          · rcases List.cons_lt_cons_iff.1 hbc with hxx | ⟨_, hbc⟩
            · exact absurd hxx (String.lt_irrefl _)
            · exact (List.prefix_cons_inj _).2 (ih hab' hbc ⟨rest, rfl⟩)

theorem lt_append_cons (path : List String) (name : String) (rest : List String) :
    path < path ++ name :: rest := by
  simpa using List.append_left_lt (List.nil_lt_cons name rest)

/-- A path does not come after one below it. -/
theorem not_above_of_lt {a b : List String} (h : a < b) : ¬ b <+: a := by
  rintro ⟨rest, rfl⟩
  cases rest with
  | nil => simp at h
  | cons name rest =>
      exact List.lt_asymm h (lt_append_cons b name rest)

end Walk

namespace Node

/-- The entries of all directories come in ascending order of their names. -/
inductive Ordered : Node → Prop where
  | file (content : ByteArray) : Ordered (file content)
  | link (target : String) : Ordered (link target)
  | directory {entries : List (String × Node)}
      (ascending : entries.Pairwise fun a b => a.1 < b.1)
      (below : ∀ name node, (name, node) ∈ entries → Ordered node) : Ordered (directory entries)

/-- Entries under different names come in strictly ascending order when they are sorted. -/
theorem ascending_sortedEntries {entries : List (String × Node)}
    (hnodup : (Assoc.keys entries).Nodup) (hplain : ∀ name ∈ Assoc.keys entries, PlainName name) :
    ((sortedEntries entries).mergeSort inOrder).Pairwise fun a b => a.1 < b.1 := by
  have hle : ((sortedEntries entries).mergeSort inOrder).Pairwise
      fun a b => inOrder a b = true := by
    refine List.pairwise_mergeSort ?_ ?_ _
    · intro a b c hab hbc
      simp only [inOrder, decide_eq_true_eq] at hab hbc ⊢
      exact List.le_trans hab hbc
    · intro a b
      simpa [inOrder] using List.le_total (RawName.bytes a.1) (RawName.bytes b.1)
  have hkeys : (Assoc.keys ((sortedEntries entries).mergeSort inOrder)).Nodup := by
    rw [Assoc.keys, ((List.mergeSort_perm _ _).map Prod.fst).nodup_iff, ← Assoc.keys,
      keys_sortedEntries]
    exact hnodup
  have htext : ∀ entry ∈ (sortedEntries entries).mergeSort inOrder,
      RawName.isText entry.1 = true := by
    intro entry hentry
    have hmem := (List.mergeSort_perm (sortedEntries entries) inOrder).mem_iff.1 hentry
    refine (hplain entry.1 ?_).isText
    rw [← keys_sortedEntries]
    exact List.mem_map.2 ⟨entry, hmem, rfl⟩
  refine (hle.and (List.pairwise_map.1 hkeys)).imp_of_mem ?_
  rintro a b ha hb ⟨hab, hne⟩
  rw [inOrder_eq (htext a ha) (htext b hb)] at hab
  exact lt_of_le_of_ne (of_decide_eq_true hab) hne

/-- A sorted tree has its entries in order at every level. -/
theorem WellFormed.ordered_sorted {tree : Node} (h : tree.WellFormed) : tree.sorted.Ordered := by
  induction h with
  | file content => exact .file content
  | link target => exact .link target
  | @directory entries nodup plain _ _ ih =>
      refine .directory (ascending_sortedEntries nodup plain) ?_
      intro name node hmem
      have hsorted := (List.mergeSort_perm (sortedEntries entries) inOrder).mem_iff.1 hmem
      rw [sortedEntries_eq_map] at hsorted
      rcases List.mem_map.1 hsorted with ⟨⟨n, x⟩, hentry, heq⟩
      cases heq
      exact ih n x hentry

end Node

namespace Walk

section

variable {plan : Plan} {enter : Enter}

/-- Entries in order are visited in order, each with all that lies below it. -/
theorem ascending_visitEntries {pos : Position} {entries : List (String × Node)}
    (hascending : entries.Pairwise fun a b => a.1 < b.1)
    (each : ∀ name node linked, (name, node) ∈ entries →
      (visitNode plan enter pos name linked node).1.Pairwise fun a b => a.path < b.path)
    (within : ∀ name node linked, (name, node) ∈ entries →
      ∀ e ∈ (visitNode plan enter pos name linked node).1, pos.path ++ [name] <+: e.path)
    (linked : Linked) :
    (visitEntries plan enter pos linked entries).1.Pairwise fun a b => a.path < b.path := by
  induction entries generalizing linked with
  | nil => exact List.Pairwise.nil
  | cons entry rest ih =>
      obtain ⟨name, node⟩ := entry
      obtain ⟨hfirst, hrest⟩ := List.pairwise_cons.1 hascending
      have hlater := ih hrest
        (fun n x l hmem => each n x l (List.mem_cons_of_mem _ hmem))
        (fun n x l hmem => within n x l (List.mem_cons_of_mem _ hmem))
      rw [visitEntries_cons, List.pairwise_append]
      refine ⟨each name node linked (by simp), hlater _, ?_⟩
      intro a ha b hb
      rcases mem_visitEntries hb with ⟨n, x, l, hmem, hb⟩
      obtain ⟨below, ha⟩ := within name node linked (by simp) a ha
      obtain ⟨below', hb⟩ := within n x l (List.mem_cons_of_mem _ hmem) b hb
      -- The paths differ first in the names of the two entries.
      rw [← ha, ← hb, List.append_assoc, List.append_assoc]
      exact List.append_left_lt (List.cons_lt_cons_iff.2 (.inl (hfirst _ hmem)))

/-- In a tree in order, what is reported of a node comes in ascending order. -/
theorem ascending_visitNode (hfollow : plan.followLinks = false) (henter : Descends enter)
    {node : Node} (hordered : node.Ordered) (pos : Position) (name : String) (linked : Linked) :
    (visitNode plan enter pos name linked node).1.Pairwise fun a b => a.path < b.path := by
  induction hordered generalizing pos name linked with
  | file content =>
      rw [visitNode_file]
      by_cases hexcluded : plan.filter.isExcluded name false = true
      · simp [hexcluded]
      · simp [hexcluded]
  | link target =>
      rw [visitNode_link, visitLink_passed (passage_of_not_follows hfollow)]
      exact List.Pairwise.nil
  | @directory entries ascending below ih =>
      rw [visitNode_directory]
      by_cases hexcluded : plan.filter.isExcluded name true = true
      · simp [hexcluded]
      · -- The directory comes before what is below it, as its path is above the others.
        rw [if_neg hexcluded]
        refine List.pairwise_cons.2 ⟨?_, ascending_visitEntries ascending
          (fun n x l hmem => ih n x hmem (pos.child name) n l)
          (fun n x l _ => above_of_mem_visitNode henter x (pos.child name) n l) linked⟩
        intro e he
        rcases mem_visitEntries he with ⟨n, x, l, _, he⟩
        obtain ⟨rest, hpath⟩ := above_of_mem_visitNode henter x (pos.child name) n l e he
        have hbelow : e.path = pos.path ++ [name] ++ (n :: rest) := by
          simpa [Position.child] using hpath.symm
        rw [hbelow]
        exact lt_append_cons _ n rest

/-- A walk that follows no links reports in ascending order. -/
theorem ascending_enter (hfollow : plan.followLinks = false) {tree : Node} (hordered : tree.Ordered)
    (links : Nat) (at' : Location) (linked : Linked) :
    (Walk.enter plan links ⟨at', [], []⟩ tree.entries linked).1.Pairwise
      fun a b => a.path < b.path := by
  obtain ⟨inner, hinner, henter⟩ := exists_enter_eq plan links
  rw [henter]
  cases hordered with
  | file _ => exact List.Pairwise.nil
  | link _ => exact List.Pairwise.nil
  | directory ascending below =>
      exact ascending_visitEntries ascending
        (fun n x l hmem => ascending_visitNode hfollow hinner (below n x hmem) _ n l)
        (fun n x l _ => above_of_mem_visitNode hinner x _ n l) linked

end

/-! ## Directories and what is below them -/

/-- In ascending order, the paths after a path begin with all those below it. -/
theorem exists_block {path : List String} {below : List Event}
    (hafter : ∀ e ∈ below, path < e.path)
    (hascending : below.Pairwise fun a b => a.path < b.path) :
    ∃ inside rest, below = inside ++ rest ∧ (∀ e ∈ inside, path <+: e.path) ∧
      ∀ e ∈ rest, ¬ path <+: e.path := by
  induction below with
  | nil => exact ⟨[], [], rfl, by simp, by simp⟩
  | cons first below ih =>
      obtain ⟨hfirst, hbelow⟩ := List.pairwise_cons.1 hascending
      by_cases habove : path <+: first.path
      · obtain ⟨inside, rest, rfl, hinside, hrest⟩ :=
          ih (fun e he => hafter e (List.mem_cons_of_mem _ he)) hbelow
        exact ⟨first :: inside, rest, rfl, List.forall_mem_cons.2 ⟨habove, hinside⟩, hrest⟩
      · -- Nothing below the path comes any more: the first path would be between the two.
        refine ⟨[], first :: below, rfl, by simp, List.forall_mem_cons.2 ⟨habove, ?_⟩⟩
        intro e he hlater
        exact habove (above_of_between (hafter first (by simp)) (hfirst e he) hlater)

/-! ## Enumerations -/

/-- The events report exactly what is kept of a project, in ascending order: each entry once, with
its size, and a directory right before all that is below it. -/
structure Enumerates (filter : NameFilter) (project : Node) (events : List Event) : Prop where
  reports : ∀ e, e ∈ events ↔ Reports filter project e
  ascending : events.Pairwise fun a b => Before a.path b.path
  once : (events.map Event.path).Nodup
  block : ∀ above path below, events = above ++ .directory path :: below →
    ∃ inside rest, below = inside ++ rest ∧ (∀ e ∈ inside, path <+: e.path) ∧
      ∀ e ∈ above ++ rest, ¬ path <+: e.path
  sizes : ∀ e ∈ events, (project.get? e.path).map Node.size = some e.size

/-- What is reported at a path depends on the shape there. -/
theorem reports_congr {filter : NameFilter} {project project' : Node} {e : Event}
    (h : project'.shapeAt e.path = project.shapeAt e.path) :
    Reports filter project' e ↔ Reports filter project e := by
  constructor
  · rintro ⟨hentry, hne, hthere, hkept⟩
    exact ⟨hentry, hne, h.symm.trans hthere, hkept⟩
  · rintro ⟨hentry, hne, hthere, hkept⟩
    exact ⟨hentry, hne, h.trans hthere, hkept⟩

theorem Reports.size_eq {filter : NameFilter} {project : Node} {e : Event}
    (h : Reports filter project e) : (project.get? e.path).map Node.size = some e.size := by
  rcases Event.exists_shape h.entry with ⟨x, hx⟩
  rcases Option.map_eq_some_iff.1 (h.there.trans hx) with ⟨node, hnode, hshape⟩
  subst hshape
  rw [hnode]
  cases node with
  | file content =>
      rw [Event.eq_of_shape_file hx]
      rfl
  | directory _ =>
      rw [Event.eq_of_shape_directory hx]
      rfl
  | link target => exact absurd hx (e.shape_ne_link target)

/-- Events in strict order that report just what is to report enumerate the project. -/
theorem Enumerates.of_ascending {filter : NameFilter} {project : Node} {events : List Event}
    (hreports : ∀ e, e ∈ events ↔ Reports filter project e)
    (hascending : events.Pairwise fun a b => a.path < b.path) :
    Enumerates filter project events := by
  refine ⟨hreports, hascending.imp before_iff.2, ?_, ?_, fun e he => ((hreports e).1 he).size_eq⟩
  · refine List.pairwise_map.2 (hascending.imp ?_)
    intro a b hlt heq
    exact List.lt_irrefl _ (heq ▸ hlt)
  · rintro above path below rfl
    obtain ⟨_, hcons, hbetween⟩ := List.pairwise_append.1 hascending
    obtain ⟨hafter, hbelow⟩ := List.pairwise_cons.1 hcons
    obtain ⟨inside, rest, heq, hinside, hrest⟩ := exists_block hafter hbelow
    refine ⟨inside, rest, heq, hinside, List.forall_mem_append.2 ⟨?_, hrest⟩⟩
    intro e he
    exact not_above_of_lt (hbetween e he (.directory path) (by simp))

/-- Projects that show the same have the same enumeration. -/
theorem Enumerates.unique {filter : NameFilter} {project project' : Node}
    {events events' : List Event} (h : Enumerates filter project events)
    (h' : Enumerates filter project' events')
    (hsame : ∀ at', project'.shapeAt at' = project.shapeAt at') : events' = events := by
  have hmem : ∀ e, e ∈ events' ↔ e ∈ events := by
    intro e
    rw [h.reports, h'.reports, reports_congr (hsame e.path)]
  -- The same events in two orders, both ascending, so in the same order.
  have hperm : events'.Perm events :=
    (List.perm_ext_iff_of_nodup (List.Nodup.of_map _ h'.once) (List.Nodup.of_map _ h.once)).2 hmem
  refine hperm.eq_of_pairwise ?_ h'.ascending h.ascending
  intro a b _ _ hab hba
  exact absurd (before_iff.1 hba) (List.lt_asymm (before_iff.1 hab))

/-- A walk that follows no links enumerates its root. -/
theorem enumerates_walk {fs : FileSystem} (hfs : fs.tree.WellFormed) {path : String}
    {root : Location} {project : Node} (hlocate : fs.locate true path = .ok (root, project))
    (filter : NameFilter) : Enumerates filter project (walk fs filter false path) := by
  have hwell : project.WellFormed :=
    hfs.of_get? (FileSystem.leads_of_locate hlocate).get?_of_found
  rw [walk_of_locate hlocate, Plan.run, entries_ofRoot hfs hlocate]
  refine .of_ascending ?_ (ascending_enter rfl hwell.ordered_sorted _ _ _)
  -- The walk goes through the sorted project, which shows what the project shows.
  intro e
  rw [mem_enter_iff rfl hwell.sorted]
  exact reports_congr (hwell.shapeAt_sorted e.path)

/-! ## Whole walks -/

/-- A walk that follows no links yields an event while as many directories are open as its depth
says, until none is open any more. -/
theorem run_walk {fs : FileSystem} (hfs : fs.tree.WellFormed) {path : String}
    {root : Location} {project : Node} (hlocate : fs.locate true path = .ok (root, project))
    (filter : NameFilter) :
    let plan := Plan.ofRoot fs filter false path root
    ∃ entered linked, Iterator.Run plan noFailure (Iterator.start plan noFailure).2
      ((walk fs filter false path).map fun e => (e.depth, e)) entered ⟨[], linked⟩ := by
  intro plan
  obtain ⟨emitted, entered, hrun, hevents⟩ := emits_run plan
  have hwalk : walk fs filter false path = plan.run.1 := walk_of_locate hlocate
  have hlevel : Iterator.Level (Iterator.start plan noFailure).2.stack := by
    rw [Iterator.start_of_readable rfl]
    exact ⟨rfl, trivial⟩
  have hdepth : ∀ found ∈ emitted, (found.2.depth, found.2) = found := by
    intro found hfound
    have hmem : found.2 ∈ walk fs filter false path := by
      rw [hwalk, ← hevents]
      exact List.mem_map.2 ⟨found, hfound, rfl⟩
    have hreports := ((enumerates_walk hfs hlocate filter).reports _).1 hmem
    have hopen := hrun.depth_eq hlevel found hfound hreports.ne_root
    exact Prod.ext ((Event.depth_of_isEntry hreports.entry).trans hopen.symm) rfl
  refine ⟨entered, plan.run.2, ?_⟩
  have hemitted : (walk fs filter false path).map (fun e => (e.depth, e)) = emitted := by
    rw [hwalk, ← hevents, List.map_map]
    exact (List.map_congr_left hdepth).trans (List.map_id' emitted)
  rw [hemitted]
  exact hrun

/--
A walk that follows no links reports each file and each directory of its root that is kept, each
once and nothing else, in ascending order of their paths, with a directory right before all that is
below it.  An event has the size of its file, and comes while as many directories are open as its
path has names.  The walk is determined by what its root shows, so the order in which the
directories are listed makes no difference.
-/
theorem walk_lists_kept_in_order {fs : FileSystem} (hfs : fs.tree.WellFormed) {path : String}
    {root : Location} {project : Node} (hlocate : fs.locate true path = .ok (root, project))
    (filter : NameFilter) :
    let plan := Plan.ofRoot fs filter false path root
    let events := walk fs filter false path
    Enumerates filter project events ∧
      (∀ e ∈ events, e.depth = e.path.length) ∧
      (∃ entered linked, Iterator.Run plan noFailure (Iterator.start plan noFailure).2
        (events.map fun e => (e.depth, e)) entered ⟨[], linked⟩) ∧
      ∀ (other : FileSystem) (path' : String) (root' : Location) (project' : Node),
        other.tree.WellFormed → other.locate true path' = .ok (root', project') →
        (∀ at', project'.shapeAt at' = project.shapeAt at') →
        walk other filter false path' = events := by
  intro plan events
  have henumerates : Enumerates filter project events := enumerates_walk hfs hlocate filter
  refine ⟨henumerates, ?_, run_walk hfs hlocate filter, ?_⟩
  · intro e he
    exact Event.depth_of_isEntry ((henumerates.reports e).1 he).entry
  · intro other path' root' project' hother hlocate' hsame
    exact henumerates.unique (enumerates_walk hother hlocate' filter) hsame

/-! ## A sample -/

/-- A project whose directories are listed out of order, with a file and a directory of one name. -/
def listedProject : Node :=
  .directory [
    ("src", .directory [
      ("out", .directory [("a.js", .file ⟨#[120]⟩)]),
      ("b.ts", .file ⟨#[120, 121]⟩),
      ("a.ts", .file ⟨#[]⟩)]),
    ("out", .file ⟨#[120]⟩),
    ("link", .link "src"),
    ("Src", .directory [])]

/-- The same project in another listing. -/
def relistedProject : Node :=
  .directory [
    ("Src", .directory []),
    ("link", .link "src"),
    ("out", .file ⟨#[120]⟩),
    ("src", .directory [
      ("a.ts", .file ⟨#[]⟩),
      ("b.ts", .file ⟨#[120, 121]⟩),
      ("out", .directory [("a.js", .file ⟨#[120]⟩)])])]

def outFilter : NameFilter :=
  ⟨[], [[.literal 'o', .literal 'u', .literal 't']]⟩

theorem wellFormed_listedProject : listedProject.WellFormed :=
  have hout : (Node.directory [("a.js", .file ⟨#[120]⟩)]).WellFormed :=
    .cons (by decide) (by decide) (by decide) (.file _) .nil
  have hsrc : (Node.directory [("out", .directory [("a.js", .file ⟨#[120]⟩)]),
      ("b.ts", .file ⟨#[120, 121]⟩), ("a.ts", .file ⟨#[]⟩)]).WellFormed :=
    .cons (by decide) (by decide) (by decide) hout
      (.cons (by decide) (by decide) (by decide) (.file _)
        (.cons (by decide) (by decide) (by decide) (.file _) .nil))
  .cons (by decide) (by decide) (by decide) hsrc
    (.cons (by decide) (by decide) (by decide) (.file _)
      (.cons (by decide) (by decide) (by decide) (.link _)
        (.cons (by decide) (by decide) (by decide) .nil .nil)))

theorem sorted_listedProject : listedProject.sorted = relistedProject := by
  simp [listedProject, relistedProject, Node.sorted, Node.sortedEntries, List.mergeSort,
    Node.inOrder_eq, RawName.isText, RawName.mark, List.MergeSort.Internal.splitInTwo]

theorem sorted_relistedProject : relistedProject.sorted = relistedProject := by
  simp [relistedProject, Node.sorted, Node.sortedEntries, List.mergeSort, Node.inOrder_eq,
    RawName.isText, RawName.mark, List.MergeSort.Internal.splitInTwo]

theorem isExcluded_outFilter :
    outFilter.isExcluded "out" true = true ∧ outFilter.isExcluded "out" false = false ∧
      (∀ name ∈ ["Src", "src"], outFilter.isExcluded name true = false) ∧
      ∀ name ∈ ["a.ts", "b.ts"], outFilter.isExcluded name false = false := by
  decide +kernel

theorem walk_relistedProject :
    walk { tree := .directory [("srv", relistedProject)] } outFilter false "/srv" =
      [.directory ["Src"], .file ["out"] ⟨#[120]⟩, .directory ["src"], .file ["src", "a.ts"] ⟨#[]⟩,
        .file ["src", "b.ts"] ⟨#[120, 121]⟩] := by
  let fs : FileSystem := { tree := .directory [("srv", relistedProject)] }
  have hsorted : fs.tree.sorted = fs.tree := by
    simp [fs, Node.sorted, Node.sortedEntries, sorted_relistedProject]
  have hlocate : fs.locate true "/srv" = .ok (["srv"], relistedProject) := rfl
  obtain ⟨hout, hfile, hdirectories, hfiles⟩ := isExcluded_outFilter
  rw [walk_of_sorted hsorted hlocate]
  change (enter _ 5 _ [_, _, _, _] []).1 = _
  simp [enter, visitEntries, visitNode_file, visitNode_directory, visitNode_link, visitLink,
    passage, Position.child, hout, hfile, hdirectories, hfiles]

theorem walk_lists_kept_in_order_listedProject :
    let fs : FileSystem := { tree := .directory [("app", listedProject)] }
    let other : FileSystem := { tree := .directory [("srv", relistedProject)] }
    let events := walk fs outFilter false "/app"
    Enumerates outFilter listedProject events ∧ walk other outFilter false "/srv" = events ∧
      events = [.directory ["Src"], .file ["out"] ⟨#[120]⟩, .directory ["src"],
        .file ["src", "a.ts"] ⟨#[]⟩, .file ["src", "b.ts"] ⟨#[120, 121]⟩] := by
  intro fs other events
  have hfs : fs.tree.WellFormed :=
    .cons (by decide) (by decide) (by decide) wellFormed_listedProject .nil
  have hproject : relistedProject.WellFormed :=
    sorted_listedProject ▸ wellFormed_listedProject.sorted
  have hother : other.tree.WellFormed :=
    .cons (by decide) (by decide) (by decide) hproject .nil
  have hsame : ∀ at', relistedProject.shapeAt at' = listedProject.shapeAt at' :=
    sorted_listedProject ▸ wellFormed_listedProject.shapeAt_sorted
  have hlocate : fs.locate true "/app" = .ok (["app"], listedProject) := rfl
  have hlocate' : other.locate true "/srv" = .ok (["srv"], relistedProject) := rfl
  obtain ⟨henumerates, _, _, hlisting⟩ := walk_lists_kept_in_order hfs hlocate outFilter
  have heq : walk other outFilter false "/srv" = events :=
    hlisting other "/srv" ["srv"] relistedProject hother hlocate' hsame
  exact ⟨henumerates, heq, heq.symm.trans walk_relistedProject⟩

end Walk
end ProjectConsistency
