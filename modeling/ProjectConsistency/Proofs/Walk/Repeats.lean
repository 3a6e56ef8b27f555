import Mathlib.Data.List.Lattice
import Mathlib.Data.List.Pairwise
import ProjectConsistency.Proofs.Walk.Places

/-!
# Repeats — directories that a walk reports twice

A link is passed over if another link led to the same directory before, or if it leads into the
root.  A directory is entered without asking whether a link led there or whether it is the root.  So
the root and a directory to which a link has led come again if they lie below another one to which a
link has led (`walk_repeats`), and nothing else makes a directory come twice (`walk_once_iff`).
-/

namespace ProjectConsistency
namespace Walk

open scoped List

variable {plan : Plan}

/-! ## What is reached from different places -/

/-- The directories that are reached from a directory lie below it, under kept names. -/
theorem exists_of_mem_reached {at' place : Location} (h : place ∈ plan.reached at') :
    ∃ below, below ≠ [] ∧ plan.filter.opens below = true ∧ place = at' ++ below := by
  rcases List.mem_map.1 h with ⟨below, hbelow, rfl⟩
  obtain ⟨hmem, hopens⟩ := List.mem_filter.1 hbelow
  refine ⟨below, ?_, hopens, rfl⟩
  rintro rfl
  exact Node.nil_notMem_directoriesIn _ hmem

/-- A directory below a directory is reached from there if its names are kept. -/
theorem mem_reached {at' below : Location} (hbelow : below ≠ [])
    (hopens : plan.filter.opens below = true)
    (hdirectory : plan.tree.shapeAt (at' ++ below) = some .directory) :
    at' ++ below ∈ plan.reached at' := by
  have habove := Node.shapeAt_directory_of_append hbelow hdirectory
  rcases Node.shapeAt_eq_directory_iff.1 habove with ⟨entries, hentries⟩
  have hshape : (Node.directory entries).shapeAt below = some .directory := by
    simpa [Node.shapeAt_append, hentries] using hdirectory
  have hmem : below ∈ Node.directoriesIn entries := by
    have hall := Node.mem_directories hshape
    rw [Node.directories] at hall
    exact (List.mem_cons.1 hall).resolve_left hbelow
  rw [Plan.reached_of_get? hentries]
  exact List.mem_map.2 ⟨below, List.mem_filter.2 ⟨hmem, hopens⟩, rfl⟩

/-- From one directory, no directory is reached twice, and the directory itself is not. -/
theorem nodup_reached (hwell : plan.tree.WellFormed) (at' : Location) :
    (at' :: plan.reached at').Nodup := by
  refine List.nodup_cons.2 ⟨?_, ?_⟩
  · intro hmem
    obtain ⟨below, hbelow, _, heq⟩ := exists_of_mem_reached hmem
    exact hbelow (List.self_eq_append_right.1 heq)
  · unfold Plan.reached
    cases hnode : plan.tree.get? at' with
    | none => simp [keptIn, Node.directoriesIn]
    | some node =>
        have hentries : (Node.directory node.entries).directories.Nodup :=
          (wellFormed_entries (hwell.of_get? hnode)).nodup_directories
        rw [Node.directories] at hentries
        exact ((List.nodup_cons.1 hentries).2.filter _).map (List.append_right_injective at')

/-- If none of some directories is reached from another, the same is reached from none but the same.
-/
theorem eq_of_mem_reached {places : List Location}
    (hnone : ∀ at' ∈ places, ∀ below, below ≠ [] → plan.filter.opens below = true →
      at' ++ below ∉ places)
    {a b place : Location} (ha : a ∈ places) (hb : b ∈ places)
    (hfrom : place ∈ a :: plan.reached a) (hfrom' : place ∈ b :: plan.reached b) : a = b := by
  have way : ∀ {at' : Location}, place ∈ at' :: plan.reached at' →
      ∃ below, plan.filter.opens below = true ∧ place = at' ++ below := by
    intro at' hmem
    rcases List.mem_cons.1 hmem with rfl | hmem
    · exact ⟨[], rfl, by simp⟩
    · obtain ⟨below, _, hopens, rfl⟩ := exists_of_mem_reached hmem
      exact ⟨below, hopens, rfl⟩
  have between : ∀ {c d below rest : Location}, c ∈ places → d ∈ places → d = c ++ below →
      plan.filter.opens (below ++ rest) = true → c = d := by
    rintro c d below rest hc hd rfl hopens
    by_cases hbelow : below = []
    · simp [hbelow]
    · have hfirst : plan.filter.opens below = true := by
        rw [NameFilter.opens, List.all_append, Bool.and_eq_true] at hopens
        exact hopens.1
      exact absurd hd (hnone c hc below hbelow hfirst)
  -- Two ways to one place: the shorter one of the two beginnings is above the other.
  obtain ⟨m, hm, heq⟩ := way hfrom
  obtain ⟨m', hm', heq'⟩ := way hfrom'
  rcases List.append_eq_append_iff.1 (heq.symm.trans heq') with ⟨c, hc, rfl⟩ | ⟨c, hc, rfl⟩
  · exact between ha hb hc hm
  · exact (between hb ha hc hm').symm

/-- Different directories reach different ones just if none of them is reached from another. -/
theorem nodup_flatMap_reached_iff (hwell : plan.tree.WellFormed) {places : List Location}
    (hnodup : places.Nodup) (hthere : ∀ at' ∈ places, plan.tree.shapeAt at' = some .directory) :
    (places.flatMap fun at' => at' :: plan.reached at').Nodup ↔
      ∀ at' ∈ places, ∀ below, below ≠ [] → plan.filter.opens below = true →
        at' ++ below ∉ places := by
  rw [List.nodup_flatMap]
  constructor
  · rintro ⟨_, hapart⟩ at' hat below hbelow hopens hmem
    have hne : at' ≠ at' ++ below := fun heq => hbelow (List.self_eq_append_right.1 heq)
    have hsymm : Std.Symm (Function.onFun List.Disjoint fun at' => at' :: plan.reached at') :=
      ⟨fun _ _ h => List.Disjoint.symm h⟩
    have hdisjoint := hapart.forall hat hmem hne
    exact hdisjoint (List.mem_cons_of_mem _ (mem_reached hbelow hopens (hthere _ hmem)))
      List.mem_cons_self
  · intro hnone
    refine ⟨fun at' _ => nodup_reached hwell at', hnodup.pairwise_of_forall_ne ?_⟩
    intro a ha b hb hne place hfrom hfrom'
    exact hne (eq_of_mem_reached hnone ha hb hfrom hfrom')

/-! ## Whole walks -/

/-- Links have led to different directories outside the root. -/
theorem linked_run (plan : Plan) :
    plan.run.2.Nodup ∧ ∀ target ∈ plan.run.2,
      ¬ plan.root <+: target ∧ plan.tree.shapeAt target = some .directory := by
  obtain ⟨emitted, entered, hrun, _⟩ := emits_run plan
  obtain ⟨hnodup, hentered⟩ := hrun.entered
  have hstart : (Iterator.start plan noFailure).2.linked = [] := by
    rw [Iterator.start_of_readable rfl]
  have hlinked : plan.run.2 = entered.reverse := by simpa [hstart] using hrun.linked_eq
  rw [hlinked]
  refine ⟨List.nodup_reverse.2 hnodup, ?_⟩
  intro target htarget
  obtain ⟨hout, hdirectory, _⟩ := hentered target (List.mem_reverse.1 htarget)
  exact ⟨hout, hdirectory⟩

/-- An empty root is walked at once. -/
theorem run_of_entries_nil (hempty : plan.entries = []) : plan.run = ([], []) := by
  obtain ⟨inner, _, henter⟩ := exists_enter_eq plan plan.tree.directoryCount
  rw [Plan.run, henter, hempty]
  rfl

/-- A walk of a directory reports each directory once, and the root never, just if none of the
directories to which links have led has another of them or the root below it. -/
theorem nodup_run_iff (hwell : plan.tree.WellFormed)
    (hplaced : Placed plan (⟨plan.root, [], []⟩, plan.entries))
    (hroot : plan.tree.shapeAt plan.root = some .directory) :
    ∃ places, Located plan plan.run.1 places ∧
      ((plan.root :: places).Nodup ↔
        ∀ target ∈ plan.run.2, ∀ below, below ≠ [] → plan.filter.opens below = true →
          target ++ below ∉ plan.root :: plan.run.2) := by
  obtain ⟨hlinked, houtside⟩ := linked_run plan
  obtain ⟨places, hlocated, hperm⟩ := located_run hwell hplaced
  have hall : (plan.root :: places).Perm
      ((plan.root :: plan.run.2).flatMap fun at' => at' :: plan.reached at') :=
    (hperm.trans List.perm_append_comm).cons plan.root
  have hnodup : (plan.root :: plan.run.2).Nodup :=
    List.nodup_cons.2 ⟨fun hmem => (houtside _ hmem).1 List.prefix_rfl, hlinked⟩
  have hthere : ∀ at' ∈ plan.root :: plan.run.2, plan.tree.shapeAt at' = some .directory :=
    List.forall_mem_cons.2 ⟨hroot, fun target hmem => (houtside target hmem).2⟩
  refine ⟨places, hlocated, ?_⟩
  rw [hall.nodup_iff, nodup_flatMap_reached_iff hwell hnodup hthere, List.forall_mem_cons]
  refine ⟨And.right, fun h => ⟨?_, h⟩⟩
  -- Below the root there is neither the root nor a directory to which a link has led.
  intro below hbelow _ hmem
  rcases List.mem_cons.1 hmem with heq | hmem
  · exact hbelow (by simpa using heq)
  · exact (houtside _ hmem).1 (List.prefix_append _ _)

/--
When links are followed, each directory is reported once, and the root never, just if none of the
directories to which links have led has another of them or the root below it, under names that are
kept.
-/
theorem walk_once_iff {fs : FileSystem} (hfs : fs.tree.WellFormed) {path : String}
    {root : Location} {project : Node} (hlocate : fs.locate true path = .ok (root, project))
    (filter : NameFilter) :
    let plan := Plan.ofRoot fs filter true path root
    ∃ places, Located plan (walk fs filter true path) places ∧
      ((root :: places).Nodup ↔
        ∀ target ∈ plan.run.2, ∀ below, below ≠ [] → filter.opens below = true →
          target ++ below ∉ root :: plan.run.2) := by
  intro plan
  have hwalk : walk fs filter true path = plan.run.1 := walk_of_locate hlocate
  have hentries : plan.entries = project.sorted.entries := entries_ofRoot hfs hlocate
  have hfollow : plan.follow [] = .ok (.found root project.sorted) := follow_ofRoot hfs hlocate
  by_cases hproject : ∃ entries, project.sorted = .directory entries
  · obtain ⟨entries, hsorted⟩ := hproject
    rw [hsorted] at hentries hfollow
    have hplaced : Placed plan (⟨root, [], []⟩, plan.entries) :=
      hentries ▸ placed_of_follow hfs.sorted hfollow
    have hroot : plan.tree.shapeAt root = some .directory :=
      Node.shapeAt_of_get? (FileSystem.leads_of_follow hfollow).get?_of_found
    rw [hwalk]
    exact nodup_run_iff hfs.sorted hplaced hroot
  · -- There is nothing below a root that is no directory.
    have hempty : plan.entries = [] := by
      rw [hentries]
      cases hnode : project.sorted with
      | directory entries => exact absurd ⟨entries, hnode⟩ hproject
      | file _ => rfl
      | link _ => rfl
    rw [hwalk, run_of_entries_nil hempty]
    exact ⟨[], rfl, by simp⟩

/-! ## Samples -/

/-- The plan of a walk of `/app` that follows links, in a tree whose entries are in order. -/
def appPlan (tree : Node) : Plan where
  tree := tree
  root := ["app"]
  start := []
  names := ["app"]
  filter := .empty
  followLinks := true

/-- The samples are walked as the plan over their tree. -/
theorem ofRoot_eq_appPlan {tree : Node} (hsorted : tree.sorted = tree) :
    Plan.ofRoot { tree := tree } .empty true "/app" ["app"] = appPlan tree := by
  rw [Plan.ofRoot, hsorted]
  rfl

/-- A project with a link to the directory above it. -/
def upTree : Node :=
  .directory [("app", .directory [("up", .link "..")])]

/-- A project with a link to a directory, and after that one to the directory above that. -/
def nestedTree : Node :=
  .directory [
    ("app", .directory [("a", .link "../out/sub"), ("b", .link "../out")]),
    ("out", .directory [("sub", .directory [])])]

/-- A project with two links to one directory. -/
def sideTree : Node :=
  .directory [
    ("app", .directory [("a", .link "../out"), ("b", .link "../out")]),
    ("out", .directory [("sub", .directory [])])]

theorem sorted_upTree : upTree.sorted = upTree := by
  simp [upTree, Node.sorted, Node.sortedEntries]

theorem sorted_nestedTree : nestedTree.sorted = nestedTree := by
  simp [nestedTree, Node.sorted, Node.sortedEntries, List.mergeSort, Node.inOrder_eq,
    RawName.isText, RawName.mark, List.MergeSort.Internal.splitInTwo]

theorem sorted_sideTree : sideTree.sorted = sideTree := by
  simp [sideTree, Node.sorted, Node.sortedEntries, List.mergeSort, Node.inOrder_eq, RawName.isText,
    RawName.mark, List.MergeSort.Internal.splitInTwo]

theorem run_upTree : (appPlan upTree).run = ([.directory ["up"], .directory ["up", "app"]], [[]]) :=
  rfl

theorem run_nestedTree : (appPlan nestedTree).run
    = ([.directory ["a"], .directory ["b"], .directory ["b", "sub"]],
      [["out"], ["out", "sub"]]) := by
  -- The second link is met when the first has led to its directory.
  have ha : passage (appPlan nestedTree) noFailure ⟨["app"], [], []⟩ "a" [] = .into ["out", "sub"] [] := rfl
  have hb : passage (appPlan nestedTree) noFailure ⟨["app"], [], []⟩ "b" [["out", "sub"]]
      = .into ["out"] [("sub", .directory [])] := rfl
  have hkept : (appPlan nestedTree).filter.isExcluded "sub" true = false := rfl
  change enter (appPlan nestedTree) 4 ⟨["app"], [], []⟩
    [("a", .link "../out/sub"), ("b", .link "../out")] [] = _
  simp [enter, visitNode_link, visitLink_into ha, visitLink_into hb, visitEntries,
    visitNode_directory, Position.linked, hkept]

theorem run_sideTree : (appPlan sideTree).run
    = ([.directory ["a"], .directory ["a", "sub"]], [["out"]]) := by
  have ha : passage (appPlan sideTree) noFailure ⟨["app"], [], []⟩ "a" []
      = .into ["out"] [("sub", .directory [])] := rfl
  have hb : passage (appPlan sideTree) noFailure ⟨["app"], [], []⟩ "b" [["out"]] = .passed [] := rfl
  have hkept : (appPlan sideTree).filter.isExcluded "sub" true = false := rfl
  change enter (appPlan sideTree) 4 ⟨["app"], [], []⟩
    [("a", .link "../out"), ("b", .link "../out")] [] = _
  simp [enter, visitNode_link, visitLink_into ha, visitLink_passed hb, visitEntries,
    visitNode_directory, Position.linked, hkept]

/-- The root comes again below itself, and a directory to which a link has led comes again. -/
theorem walk_repeats :
    (let fs : FileSystem := { tree := upTree }
      let events := walk fs .empty true "/app"
      events = [.directory ["up"], .directory ["up", "app"]] ∧
        Located (Plan.ofRoot fs .empty true "/app" ["app"]) events [[], ["app"]] ∧
        fs.locate true "/app" = .ok (["app"], .directory [("up", .link "..")])) ∧
    (let fs : FileSystem := { tree := nestedTree }
      let events := walk fs .empty true "/app"
      let places := [["out", "sub"], ["out"], ["out", "sub"]]
      events = [.directory ["a"], .directory ["b"], .directory ["b", "sub"]] ∧
        Located (Plan.ofRoot fs .empty true "/app" ["app"]) events places ∧ ¬ places.Nodup) := by
  have hlocate : FileSystem.locate { tree := upTree } true "/app"
      = .ok (["app"], .directory [("up", .link "..")]) := rfl
  have hlocate' : FileSystem.locate { tree := nestedTree } true "/app"
      = .ok (["app"], .directory [("a", .link "../out/sub"), ("b", .link "../out")]) := rfl
  dsimp only
  rw [walk_of_locate hlocate, walk_of_locate hlocate', ofRoot_eq_appPlan sorted_upTree,
    ofRoot_eq_appPlan sorted_nestedTree, run_upTree, run_nestedTree]
  exact ⟨⟨rfl, rfl, hlocate⟩, rfl, rfl, by decide⟩

theorem wellFormed_sideTree : sideTree.WellFormed :=
  have happ : (Node.directory [("a", .link "../out"), ("b", .link "../out")]).WellFormed :=
    .cons (by decide) (by decide) (by decide) (.link _)
      (.cons (by decide) (by decide) (by decide) (.link _) .nil)
  have hout : (Node.directory [("sub", .directory [])]).WellFormed :=
    .cons (by decide) (by decide) (by decide) .nil .nil
  .cons (by decide) (by decide) (by decide) happ
    (.cons (by decide) (by decide) (by decide) hout .nil)

theorem walk_once_iff_sideTree :
    let fs : FileSystem := { tree := sideTree }
    let plan := Plan.ofRoot fs .empty true "/app" ["app"]
    ∃ places, Located plan (walk fs .empty true "/app") places ∧ (["app"] :: places).Nodup := by
  intro fs plan
  have hlocate : fs.locate true "/app"
      = .ok (["app"], .directory [("a", .link "../out"), ("b", .link "../out")]) := rfl
  obtain ⟨places, hlocated, honce⟩ := walk_once_iff wellFormed_sideTree hlocate .empty
  refine ⟨places, hlocated, honce.2 ?_⟩
  rw [ofRoot_eq_appPlan sorted_sideTree, run_sideTree]
  intro target htarget below hbelow _
  obtain rfl : target = ["out"] := by simpa using htarget
  simpa using hbelow

end Walk
end ProjectConsistency
