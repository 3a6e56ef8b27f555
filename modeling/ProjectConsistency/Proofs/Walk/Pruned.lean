import ProjectConsistency.Proofs.Walk.Order
import ProjectConsistency.Proofs.Walk.Snapshot
import ProjectConsistency.Validation

/-!
# Pruned — what excluded entries contribute

An excluded file, and an excluded directory with all that is below it, might as well not be there.
This file defines:

* `Node.prune` — a tree without the entries that a filter excludes;
* `Validation.ofRoot` — what a validation finds in a directory, if its walk is not stopped.

A pruned tree shows exactly what is kept (`shapeAt_prune`), so it is enumerated by the same events
as the tree itself (`Enumerates.prune`).  Without symbolic links a walk takes the same course whether
links are followed or not (`walk_of_linkFree`).  Hence projects that agree once they are pruned are
walked alike (`walk_eq_of_prune`), and everything that is read comes from the walk
(`Validation.ofRoot_eq_of_prune`).  This needs names that are text: after the walk files are read by
the names that are shown, and the name that is shown of a walked file can be that of an excluded one
(`Validation.ofRoot_reads_excluded`).
-/

namespace ProjectConsistency

open FileSystem

theorem Walk.Event.namesDirectory_of_shape {e : Event} {x : Shape} (h : e.shape? = some x) :
    e.namesDirectory = x.isDirectory := by
  cases e <;> cases h <;> rfl

namespace Node

/-! ## Pruning -/

mutual

/-- The tree without the entries that are excluded and all that is below them. -/
def prune (filter : NameFilter) : Node → Node
  | file content => file content
  | link target => link target
  | directory entries => directory (pruneEntries filter entries)

/-- The entries that are not excluded, with their trees pruned. -/
def pruneEntries (filter : NameFilter) : List (String × Node) → List (String × Node)
  | [] => []
  | (name, node) :: rest =>
      if filter.isExcluded name node.isDirectory then pruneEntries filter rest
      else (name, prune filter node) :: pruneEntries filter rest

end

variable {filter : NameFilter}

@[simp]
theorem shape_prune (tree : Node) : (tree.prune filter).shape = tree.shape := by
  cases tree <;> rfl

/-- Pruning keeps the entries that the filter lets through, pruned themselves. -/
theorem mem_pruneEntries {entries : List (String × Node)} {name : String} {pruned : Node} :
    (name, pruned) ∈ pruneEntries filter entries ↔
      ∃ node, (name, node) ∈ entries ∧ filter.isExcluded name node.isDirectory = false ∧
        node.prune filter = pruned := by
  induction entries with
  | nil => simp [pruneEntries]
  | cons entry rest ih =>
      obtain ⟨n, x⟩ := entry
      by_cases hexcluded : filter.isExcluded n x.isDirectory = true
      · -- The first entry is left out, so an entry that is kept is among the others.
        rw [pruneEntries, if_pos hexcluded, ih]
        constructor
        · rintro ⟨node, hmem, hkept⟩
          exact ⟨node, List.mem_cons_of_mem _ hmem, hkept⟩
        · rintro ⟨node, hmem, hkept, heq⟩
          rcases List.mem_cons.1 hmem with hfirst | hmem
          · cases hfirst
            simp [hexcluded] at hkept
          · exact ⟨node, hmem, hkept, heq⟩
      · rw [pruneEntries, if_neg hexcluded, List.mem_cons, ih]
        constructor
        · rintro (hfirst | ⟨node, hmem, hkept⟩)
          · cases hfirst
            exact ⟨x, by simp, by simpa using hexcluded, rfl⟩
          · exact ⟨node, List.mem_cons_of_mem _ hmem, hkept⟩
        · rintro ⟨node, hmem, hkept, heq⟩
          rcases List.mem_cons.1 hmem with hfirst | hmem
          · cases hfirst
            exact .inl (by rw [heq])
          · exact .inr ⟨node, hmem, hkept, heq⟩

theorem nodup_keys_pruneEntries {entries : List (String × Node)}
    (hnodup : (Assoc.keys entries).Nodup) : (Assoc.keys (pruneEntries filter entries)).Nodup := by
  induction entries with
  | nil => exact List.nodup_nil
  | cons entry rest ih =>
      obtain ⟨n, x⟩ := entry
      obtain ⟨hnew, hrest⟩ := List.nodup_cons.1 hnodup
      by_cases hexcluded : filter.isExcluded n x.isDirectory = true
      · rw [pruneEntries, if_pos hexcluded]
        exact ih hrest
      · rw [pruneEntries, if_neg hexcluded]
        refine List.nodup_cons.2 ⟨?_, ih hrest⟩
        intro hmem
        rcases List.mem_map.1 hmem with ⟨⟨name, pruned⟩, hpruned, rfl⟩
        rcases mem_pruneEntries.1 hpruned with ⟨node, hnode, _⟩
        exact hnew (List.mem_map.2 ⟨_, hnode, rfl⟩)

/-- A pruned tree shows what is kept: the names on the way are judged as directories, the last one
as what it is. -/
theorem shapeAt_prune {tree : Node} (hwell : tree.WellFormed) (at' : Location) (x : Shape) :
    (tree.prune filter).shapeAt at' = some x ↔
      tree.shapeAt at' = some x ∧ filter.keeps at' x.isDirectory = true := by
  induction hwell generalizing at' with
  | file content => cases at' <;> simp [prune, shapeAt, get?, NameFilter.keeps]
  | link target => cases at' <;> simp [prune, shapeAt, get?, NameFilter.keeps]
  | @directory entries nodup _ _ _ ih =>
      cases at' with
      | nil => simp [NameFilter.keeps, prune, shape]
      | cons name below =>
          rw [prune]
          -- Whether the entry is kept depends on what it is; if something is below it, on that.
          have hkeeps : ∀ node : Node, node.shapeAt below = some x →
              filter.keeps (name :: below) x.isDirectory
                = (!filter.isExcluded name node.isDirectory
                    && filter.keeps below x.isDirectory) := by
            intro node hshape
            cases below with
            | nil =>
                obtain rfl : node.shape = x := Option.some.inj hshape
                simp [NameFilter.keeps, isDirectory_eq_shape]
            | cons n rest =>
                have hdirectory : node.shape = .directory :=
                  Option.some.inj (shapeAt_directory_of_append (a := []) (by simp) hshape)
                rw [NameFilter.keeps_cons (by simp), isDirectory_eq_shape, hdirectory]
                rfl
          constructor
          · intro h
            rcases Walk.exists_entry_of_shapeAt h with ⟨pruned, hmem⟩
            rcases mem_pruneEntries.1 hmem with ⟨node, hnode, hexcluded, rfl⟩
            rw [Walk.shapeAt_cons_of_mem (nodup_keys_pruneEntries nodup) hmem,
              ih name node hnode] at h
            refine ⟨by rw [Walk.shapeAt_cons_of_mem nodup hnode]; exact h.1, ?_⟩
            rw [hkeeps node h.1, hexcluded, h.2]
            rfl
          · rintro ⟨hshape, hkept⟩
            rcases Walk.exists_entry_of_shapeAt hshape with ⟨node, hnode⟩
            rw [Walk.shapeAt_cons_of_mem nodup hnode] at hshape
            rw [hkeeps node hshape] at hkept
            simp only [Bool.and_eq_true, Bool.not_eq_true'] at hkept
            have hmem : (name, node.prune filter) ∈ pruneEntries filter entries :=
              mem_pruneEntries.2 ⟨node, hnode, hkept.1, rfl⟩
            rw [Walk.shapeAt_cons_of_mem (nodup_keys_pruneEntries nodup) hmem, ih name node hnode]
            exact ⟨hshape, hkept.2⟩

end Node

/-! ## Walks of projects without links -/

namespace Walk

section

variable {plan other : Plan}

/-- Where there is no link, whether links are followed makes no difference, and neither does what is
behind them. -/
theorem visitEntries_congr {enter enter' : Enter} {pos : Position} {entries : List (String × Node)}
    (each : ∀ name node linked, (name, node) ∈ entries →
      visitNode plan enter pos name linked node = visitNode other enter' pos name linked node)
    (linked : Linked) :
    visitEntries plan enter pos linked entries = visitEntries other enter' pos linked entries := by
  induction entries generalizing linked with
  | nil => rfl
  | cons entry rest ih =>
      obtain ⟨name, node⟩ := entry
      rw [visitEntries_cons, visitEntries_cons, each name node linked (by simp),
        ih fun n x l hmem => each n x l (List.mem_cons_of_mem _ hmem)]

/-- Without links, a visit depends on the filter and the node alone. -/
theorem visitNode_of_linkFree (hfilter : plan.filter = other.filter) {enter enter' : Enter}
    {node : Node} (hwell : node.WellFormed) (hlinks : node.LinkFree) (pos : Position)
    (name : String) (linked : Linked) :
    visitNode plan enter pos name linked node = visitNode other enter' pos name linked node := by
  induction hwell generalizing pos name linked with
  | file content => rw [visitNode_file, visitNode_file, hfilter]
  | link target =>
      -- Only here could the two plans differ.
      exact absurd rfl (hlinks [] target)
  | @directory entries nodup _ _ _ ih =>
      have hentries : visitEntries plan enter (pos.child name) linked entries
          = visitEntries other enter' (pos.child name) linked entries :=
        visitEntries_congr (fun n x l hmem =>
          ih n x hmem (linkFree_of_mem nodup hlinks hmem) (pos.child name) n l) linked
      rw [visitNode_directory, visitNode_directory, hfilter, hentries]

end

variable {fs fs' : FileSystem} {filter : NameFilter} {path path' : String}
  {root root' : Location} {project project' : Node}

/-- Without links in its root a walk is the same whether links are followed or not. -/
theorem walk_of_linkFree (hfs : fs.tree.WellFormed)
    (hlocate : fs.locate true path = .ok (root, project)) (hlinks : project.LinkFree)
    (followLinks : Bool) : walk fs filter followLinks path = walk fs filter false path := by
  have hwell : project.WellFormed := hfs.of_get? (leads_of_locate hlocate).get?_of_found
  have hfree : project.sorted.LinkFree := hwell.linkFree_sorted hlinks
  rw [walk_of_locate hlocate, walk_of_locate hlocate, Plan.run, Plan.run,
    entries_ofRoot hfs hlocate, entries_ofRoot hfs hlocate]
  obtain ⟨inner, _, henter⟩ := exists_enter_eq (Plan.ofRoot fs filter followLinks path root)
    fs.tree.sorted.directoryCount
  obtain ⟨inner', _, henter'⟩ := exists_enter_eq (Plan.ofRoot fs filter false path root)
    fs.tree.sorted.directoryCount
  have hentries := wellFormed_entries hwell.sorted
  -- Both walks enter the root, and each of its entries comes to the same in both.
  show (enter _ fs.tree.sorted.directoryCount _ _ _).1
    = (enter _ fs.tree.sorted.directoryCount _ _ _).1
  rw [henter, henter']
  refine congrArg Prod.fst (visitEntries_congr (fun name node linked hmem => ?_) [])
  cases project with
  | file _ => simp [Node.sorted, Node.entries] at hmem
  | link _ => simp [Node.sorted, Node.entries] at hmem
  | directory entries =>
      cases hentries with
      | directory nodup _ _ below =>
          have hfilter : (Plan.ofRoot fs filter followLinks path root).filter
              = (Plan.ofRoot fs filter false path root).filter := rfl
          exact visitNode_of_linkFree hfilter (below name node hmem)
            (linkFree_of_mem nodup hfree hmem) _ name linked

/-! ## Walks of pruned projects -/

/-- An entry of a project is kept if and only if it is in the pruned project. -/
theorem reports_prune (hwell : project.WellFormed) {e : Event} :
    Reports filter (project.prune filter) e ↔ Reports filter project e := by
  constructor
  · rintro ⟨hentry, hne, hthere, hkept⟩
    rcases Event.exists_shape hentry with ⟨x, hx⟩
    have hshape := ((Node.shapeAt_prune hwell e.path x).1 (hthere.trans hx)).1
    exact ⟨hentry, hne, hshape.trans hx.symm, hkept⟩
  · rintro ⟨hentry, hne, hthere, hkept⟩
    rcases Event.exists_shape hentry with ⟨x, hx⟩
    have hkeeps : filter.keeps e.path x.isDirectory = true := by
      rwa [← Event.namesDirectory_of_shape hx]
    have hshape := (Node.shapeAt_prune hwell e.path x).2 ⟨hthere.trans hx, hkeeps⟩
    exact ⟨hentry, hne, hshape.trans hx.symm, hkept⟩

/-- What enumerates a project enumerates it pruned. -/
theorem Enumerates.prune {events : List Event} (hwell : project.WellFormed)
    (h : Enumerates filter project events) :
    Enumerates filter (project.prune filter) events := by
  refine .of_ascending ?_ (h.ascending.imp before_iff.1)
  intro e
  rw [h.reports, reports_prune hwell]

/-- Projects without links that agree once they are pruned are walked alike. -/
theorem walk_eq_of_prune (hfs : fs.tree.WellFormed) (hfs' : fs'.tree.WellFormed)
    (hlocate : fs.locate true path = .ok (root, project))
    (hlocate' : fs'.locate true path' = .ok (root', project'))
    (hlinks : project.LinkFree) (hlinks' : project'.LinkFree)
    (hsame : ∀ at', (project'.prune filter).shapeAt at' = (project.prune filter).shapeAt at')
    (followLinks : Bool) :
    walk fs' filter followLinks path' = walk fs filter followLinks path := by
  have hwell : project.WellFormed := hfs.of_get? (leads_of_locate hlocate).get?_of_found
  have hwell' : project'.WellFormed := hfs'.of_get? (leads_of_locate hlocate').get?_of_found
  rw [walk_of_linkFree hfs hlocate hlinks, walk_of_linkFree hfs' hlocate' hlinks']
  -- Each walk enumerates its pruned project, and there is only one enumeration.
  exact ((enumerates_walk hfs hlocate filter).prune hwell).unique
    ((enumerates_walk hfs' hlocate' filter).prune hwell') hsame

end Walk

/-! ## Validation -/

/-- What a validation finds in a directory; the walk is stopped after a number of events, if one is
given. -/
def Validation.ofRoot (fs : FileSystem) (settings : Settings) (limit : Option Nat)
    (standards : Standards) (path : String) : Except Failure Validation :=
  (Analysis.scan fs settings limit path).map fun found => .ofSnapshot found.snapshot standards

namespace Analysis

open Walk

variable {fs fs' : FileSystem} {settings : Settings} {filter : NameFilter} {path : String}
  {root : Location} {project project' : Node}

/-- A walk that is not stopped is not cut. -/
theorem cut_eq_of_goesOn {limit : Option Nat} {events : List Event}
    (h : (cut limit events).any Event.isCancelled = false) : cut limit events = events := by
  cases limit with
  | none => rfl
  | some n =>
      by_cases hstops : n ≤ events.length
      · simp [cut, hstops, Event.isCancelled] at h
      · simp [cut, hstops]

/-- The scan of a path that leads somewhere depends on where it leads, on the walk from there and on
what is read again. -/
theorem scan_of_locate (hfilter : NameFilter.ofPatterns settings.scanner.exclude = .ok filter)
    (hlocate : fs.locate true path = .ok (root, project)) (limit : Option Nat) :
    scan fs settings limit path
      = let events := cut limit (walk fs filter settings.scanner.followLinks path)
        if project.isDirectory then
          if events.any Event.isCancelled then .error .interrupted
          else .ok { snapshot := complete settings.standards (fs.readBelow path)
                       (recordAll settings.standards.style (pathOf root) events),
                     walked := events.length }
        else .error (.pathNotFound path) := by
  have hcanonical : fs.canonical path = .ok (pathOf root) := by
    simp [canonical, hlocate, Except.map]
  cases hdirectory : project.isDirectory with
  | false =>
      simp [scan, hfilter, isDirectory, stat, hlocate, hdirectory, bind, Except.bind, Except.map,
        mapError_ok, throw, throwThe, MonadExceptOf.throw]
  | true =>
      by_cases hstopped : (cut limit (walk fs filter settings.scanner.followLinks path)).any
          Event.isCancelled = true
      · simp [scan, hfilter, isDirectory, stat, hlocate, hdirectory, hcanonical, hstopped, bind,
          Except.bind, Except.map, mapError_ok, throw, throwThe, MonadExceptOf.throw]
      · simp [scan, hfilter, isDirectory, stat, hlocate, hdirectory, hcanonical, hstopped, bind,
          Except.bind, Except.map, mapError_ok, pure, Except.pure]

/-- The scan describes the walk, so it depends on nothing else that the files hold. -/
theorem scan_eq_describe (hfs : fs.tree.WellFormed)
    (hfilter : NameFilter.ofPatterns settings.scanner.exclude = .ok filter)
    (hlocate : fs.locate true path = .ok (root, project)) (limit : Option Nat) :
    scan fs settings limit path
      = let events := cut limit (walk fs filter settings.scanner.followLinks path)
        if project.isDirectory then
          if events.any Event.isCancelled then .error .interrupted
          else .ok { snapshot := describe settings.standards (pathOf root) events,
                     walked := events.length }
        else .error (.pathNotFound path) := by
  rw [scan_of_locate hfilter hlocate]
  cases project with
  | file _ => rfl
  | link _ => rfl
  | directory entries =>
      by_cases hstopped : (cut limit (walk fs filter settings.scanner.followLinks path)).any
          Event.isCancelled = true
      · simp [hstopped]
      · have hwhole := cut_eq_of_goesOn (by simpa using hstopped)
        have hcomplete := complete_recordAll hfs hlocate settings.standards (pathOf root) filter
          settings.scanner.followLinks
        simp only [hwhole, hcomplete]

/-- A scan that succeeds describes all that a walk of the directory reports. -/
theorem eq_of_scan (hfs : fs.tree.WellFormed)
    (hfilter : NameFilter.ofPatterns settings.scanner.exclude = .ok filter)
    (hlocate : fs.locate true path = .ok (root, project)) {limit : Option Nat} {found : Scan}
    (h : scan fs settings limit path = .ok found) :
    found.snapshot = describe settings.standards (pathOf root)
      (walk fs filter settings.scanner.followLinks path) := by
  rw [scan_eq_describe hfs hfilter hlocate] at h
  cases hdirectory : project.isDirectory with
  | false => simp [hdirectory] at h
  | true =>
      cases hstopped : (cut limit (walk fs filter settings.scanner.followLinks path)).any
          Event.isCancelled with
      | true => simp [hdirectory, hstopped] at h
      | false =>
          simp only [hdirectory, hstopped, if_true, Bool.false_eq_true, if_false] at h
          cases h
          rw [cut_eq_of_goesOn hstopped]

end Analysis

section

variable {fs fs' : FileSystem} {settings : Settings} {filter : NameFilter} {path : String}
  {root : Location} {project project' : Node}

/--
Excluded entries have no influence.  If two projects without symbolic links lie at the same place
and agree once all excluded entries are deleted, a validation finds the same in both, or fails in
the same way, also if it is stopped.  What a snapshot tells comes from the kept entries alone.
-/
theorem Validation.ofRoot_eq_of_prune (hfs : fs.tree.WellFormed) (hfs' : fs'.tree.WellFormed)
    (hlocate : fs.locate true path = .ok (root, project))
    (hlocate' : fs'.locate true path = .ok (root, project'))
    (hlinks : project.LinkFree) (hlinks' : project'.LinkFree)
    (hfilter : NameFilter.ofPatterns settings.scanner.exclude = .ok filter)
    (hsame : ∀ at', (project'.prune filter).shapeAt at' = (project.prune filter).shapeAt at')
    (limit : Option Nat) (standards : Standards) :
    Validation.ofRoot fs' settings limit standards path
        = Validation.ofRoot fs settings limit standards path ∧
      ∀ found, Analysis.scan fs settings limit path = .ok found →
        ∃ events, found.snapshot = Analysis.describe settings.standards (pathOf root) events ∧
          Walk.Enumerates filter project events := by
  have hwalk := Walk.walk_eq_of_prune hfs hfs' hlocate hlocate' hlinks hlinks' hsame
    settings.scanner.followLinks
  have hdirectory : project'.isDirectory = project.isDirectory := by
    have hroot : project'.shape = project.shape := by simpa using hsame []
    rw [Node.isDirectory_eq_shape, Node.isDirectory_eq_shape, hroot]
  constructor
  · rw [Validation.ofRoot, Validation.ofRoot, Analysis.scan_eq_describe hfs hfilter hlocate limit,
      Analysis.scan_eq_describe hfs' hfilter hlocate' limit, hwalk, hdirectory]
  · intro found hfound
    refine ⟨_, Analysis.eq_of_scan hfs hfilter hlocate hfound, ?_⟩
    rw [Walk.walk_of_linkFree hfs hlocate hlinks]
    exact Walk.enumerates_walk hfs hlocate filter

end

/-! ## A sample -/

namespace Validation

/-- A project with a package description. -/
def leanProject : Node :=
  .directory [
    ("package.json", .file ⟨#[123, 125]⟩),
    ("src", .directory [("a.ts", .file ⟨#[120]⟩)])]

/-- The same project with the output of a build and a package that it depends on. -/
def builtProject : Node :=
  .directory [
    ("dist", .directory [("README.md", .file ⟨#[35]⟩)]),
    ("package.json", .file ⟨#[123, 125]⟩),
    ("src", .directory [
      ("a.ts", .file ⟨#[120]⟩),
      ("node_modules", .directory [("package.json", .file ⟨#[123]⟩)])])]

def builtInFilter : NameFilter :=
  (NameFilter.ofPatterns ({} : Settings).scanner.exclude).toOption.getD .empty

theorem ofPatterns_builtIn :
    NameFilter.ofPatterns ({} : Settings).scanner.exclude = .ok builtInFilter := rfl

theorem isExcluded_builtInFilter :
    (∀ name ∈ ["dist", "node_modules"], builtInFilter.isExcluded name true = true) ∧
      builtInFilter.isExcluded "src" true = false ∧
      ∀ name ∈ ["package.json", "a.ts"], builtInFilter.isExcluded name false = false := by
  decide +kernel

theorem wellFormed_leanProject : leanProject.WellFormed :=
  have hsrc : (Node.directory [("a.ts", .file ⟨#[120]⟩)]).WellFormed :=
    .cons (by decide) (by decide) (by decide) (.file _) .nil
  .cons (by decide) (by decide) (by decide) (.file _)
    (.cons (by decide) (by decide) (by decide) hsrc .nil)

theorem wellFormed_builtProject : builtProject.WellFormed :=
  have hpackage : (Node.directory [("package.json", .file ⟨#[123]⟩)]).WellFormed :=
    .cons (by decide) (by decide) (by decide) (.file _) .nil
  have hsrc : (Node.directory [("a.ts", .file ⟨#[120]⟩),
      ("node_modules", .directory [("package.json", .file ⟨#[123]⟩)])]).WellFormed :=
    .cons (by decide) (by decide) (by decide) (.file _)
      (.cons (by decide) (by decide) (by decide) hpackage .nil)
  have hdist : (Node.directory [("README.md", .file ⟨#[35]⟩)]).WellFormed :=
    .cons (by decide) (by decide) (by decide) (.file _) .nil
  .cons (by decide) (by decide) (by decide) hdist
    (.cons (by decide) (by decide) (by decide) (.file _)
      (.cons (by decide) (by decide) (by decide) hsrc .nil))

theorem linkFree_leanProject : leanProject.LinkFree :=
  have hsrc : (Node.directory [("a.ts", .file ⟨#[120]⟩)]).LinkFree :=
    .cons (Node.linkFree_file _) .nil
  .cons (Node.linkFree_file _) (.cons hsrc .nil)

theorem linkFree_builtProject : builtProject.LinkFree :=
  have hpackage : (Node.directory [("package.json", .file ⟨#[123]⟩)]).LinkFree :=
    .cons (Node.linkFree_file _) .nil
  have hsrc : (Node.directory [("a.ts", .file ⟨#[120]⟩),
      ("node_modules", .directory [("package.json", .file ⟨#[123]⟩)])]).LinkFree :=
    .cons (Node.linkFree_file _) (.cons hpackage .nil)
  have hdist : (Node.directory [("README.md", .file ⟨#[35]⟩)]).LinkFree :=
    .cons (Node.linkFree_file _) .nil
  .cons hdist (.cons (Node.linkFree_file _) (.cons hsrc .nil))

/-- What was built is pruned, and nothing else is. -/
theorem prune_builtProject :
    builtProject.prune builtInFilter = leanProject.prune builtInFilter := by
  obtain ⟨hout, hsrc, hfiles⟩ := isExcluded_builtInFilter
  simp [builtProject, leanProject, Node.prune, Node.pruneEntries, Node.isDirectory, hout, hsrc,
    hfiles]

theorem ofRoot_eq_of_prune_built :
    let fs : FileSystem := { tree := .directory [("app", leanProject)] }
    let fs' : FileSystem := { tree := .directory [("app", builtProject)] }
    ∃ found, ofRoot fs {} none {} "/app" = .ok found ∧ ofRoot fs' {} none {} "/app" = .ok found := by
  intro fs fs'
  have hfs : fs.tree.WellFormed :=
    .cons (by decide) (by decide) (by decide) wellFormed_leanProject .nil
  have hfs' : fs'.tree.WellFormed :=
    .cons (by decide) (by decide) (by decide) wellFormed_builtProject .nil
  have hlocate : fs.locate true "/app" = .ok (["app"], leanProject) := rfl
  have heq : ofRoot fs' {} none {} "/app" = ofRoot fs {} none {} "/app" :=
    (ofRoot_eq_of_prune hfs hfs' hlocate rfl linkFree_leanProject linkFree_builtProject
      ofPatterns_builtIn (fun at' => by rw [prune_builtProject]) none {}).1
  have hanalyze : Analysis.analyze fs {} "/app" = .ok _ :=
    Analysis.analyze_eq_ok hfs ofPatterns_builtIn hlocate rfl rfl
  cases hscan : Analysis.scan fs {} none "/app" with
  | error e => simp [Analysis.analyze, hscan, Except.map] at hanalyze
  | ok found =>
      have hfound : ofRoot fs {} none {} "/app" = .ok (.ofSnapshot found.snapshot {}) := by
        simp [ofRoot, hscan, Except.map]
      exact ⟨_, hfound, heq.trans hfound⟩

end Validation

/-! ## Names that are no text -/

namespace Validation

/-- A name that is no text, and is shown as another one. -/
def lossyName : String := "a" ++ RawName.stray 0xFF ++ ".json"

/-- A project with a file whose name is no text, and with one whose name is what is shown of it, if a
content is given for that one. -/
def lossyProject (content : Option ByteArray) : Node :=
  .directory ((content.map fun c => ("a\uFFFD.json", .file c)).toList ++ [(lossyName, .file ⟨#[]⟩)])

def lossySample (content : Option ByteArray) : FileSystem where
  tree := .directory [("app", lossyProject content)]

/-- The name that is shown is excluded, and tracked as the name of a configuration file. -/
def lossySettings : Settings where
  standards := { config := { perFile := [("a\uFFFD.json", { requiredKeys := ["name"] })] } }
  scanner := { exclude := ["a\uFFFD.json"] }

def lossyFilter : NameFilter :=
  (NameFilter.ofPatterns lossySettings.scanner.exclude).toOption.getD .empty

theorem isExcluded_lossyFilter :
    lossyFilter.isExcluded "a\uFFFD.json" false = true ∧
      lossyFilter.isExcluded lossyName false = false := by
  decide +kernel

theorem sorted_lossySample (content : Option ByteArray) :
    (lossySample content).tree.sorted = (lossySample content).tree := by
  have hbytes : RawName.bytes "a\uFFFD.json" ≤ RawName.bytes lossyName := by decide +kernel
  have horder : ∀ a b : Node,
      [("a\uFFFD.json", a), (lossyName, b)].Pairwise fun x y => Node.inOrder x y = true := by
    intro a b
    simpa [Node.inOrder] using hbytes
  cases content <;>
    simp [lossySample, lossyProject, Node.sorted, Node.sortedEntries, List.mergeSort_of_pairwise,
      horder]

/-- The walk comes upon the file whose name is no text. -/
theorem walk_lossySample (content : Option ByteArray) :
    Walk.walk (lossySample content) lossyFilter true "/app"
      = [.file [lossyName] ⟨#[]⟩] := by
  obtain ⟨hexcluded, hkept⟩ := isExcluded_lossyFilter
  have hlocate : (lossySample content).locate true "/app" = .ok (["app"], lossyProject content) := rfl
  have hcount : (lossySample content).tree.directoryCount = 2 := by
    cases content <;> rfl
  rw [Walk.walk_of_sorted (sorted_lossySample content) hlocate, hcount]
  cases content <;>
    simp [lossyProject, Node.entries, Walk.enter, Walk.visitEntries, Walk.visitNode_file, hkept,
      hexcluded]

/-- The configuration file is found to hold what is read by the name that is shown. -/
theorem configFiles_lossySample (content : Option ByteArray) :
    (ofRoot (lossySample content) lossySettings none lossySettings.standards "/app").map
        (fun v => v.snapshot.configFiles)
      = .ok [("a\uFFFD.json",
          Analysis.readConfigFile ((lossySample content).readBelow "/app") "a\uFFFD.json")] := by
  have hlocate : (lossySample content).locate true "/app" = .ok (["app"], lossyProject content) :=
    rfl
  have hfilter : NameFilter.ofPatterns lossySettings.scanner.exclude = .ok lossyFilter := rfl
  have hfollow : lossySettings.scanner.followLinks = true := rfl
  have htracked : ((Assoc.keys lossySettings.standards.config.perFile).filter
      (Analysis.recordAll lossySettings.standards.style (pathOf ["app"])
        (Walk.cut none [.file [lossyName] ⟨#[]⟩])).hasFile) = ["a\uFFFD.json"] := by
    decide +kernel
  rw [ofRoot, Analysis.scan_of_locate hfilter hlocate, hfollow, walk_lossySample]
  exact congrArg (fun names => Except.ok (names.map fun name =>
    (name, Analysis.readConfigFile ((lossySample content).readBelow "/app") name))) htracked

/-- The name that is shown of a walked file passes for that of the excluded one, which is read in its
place.  So it is told whether the excluded file is there, and what it holds. -/
theorem ofRoot_reads_excluded :
    let secret := "\x7b\"secret\": true\x7d"
    let found (content : Option ByteArray) :=
      (ofRoot (lossySample content) lossySettings none lossySettings.standards "/app").map
        fun v => v.snapshot.configFiles
    NameFilter.ofPatterns lossySettings.scanner.exclude = .ok lossyFilter ∧
      lossyFilter.isExcluded "a\uFFFD.json" false = true ∧
      (lossyProject (some secret.toUTF8)).LinkFree ∧ (lossyProject none).LinkFree ∧
      (lossyProject (some secret.toUTF8)).prune lossyFilter
        = (lossyProject none).prune lossyFilter ∧
      found none = .ok [("a\uFFFD.json", .invalid "No such file or directory (os error 2)")] ∧
      found (some secret.toUTF8)
        = .ok [("a\uFFFD.json", .parsed (.object [("secret", .bool true)]))] := by
  intro secret found
  obtain ⟨hexcluded, hkept⟩ := isExcluded_lossyFilter
  -- The shown name is that of the excluded file, so the second read opens it if it is there.
  have hmissing : (lossySample none).readBelow "/app" "a\uFFFD.json" = .error .notFound := rfl
  have hread : (lossySample (some secret.toUTF8)).readBelow "/app" "a\uFFFD.json"
      = .ok secret.toUTF8 := rfl
  have htext : Text.decode? secret.toUTF8 = some secret := by decide +kernel
  have hparsed : ConfigFile.ofText "\x7b\"secret\": true\x7d"
      = .parsed (.object [("secret", .bool true)]) := rfl
  refine ⟨rfl, hexcluded, .cons (Node.linkFree_file _) (.cons (Node.linkFree_file _) .nil),
    .cons (Node.linkFree_file _) .nil, ?_, ?_, ?_⟩
  · simp [lossyProject, Node.prune, Node.pruneEntries, Node.isDirectory, hexcluded, hkept]
  · simp only [found, configFiles_lossySample, Analysis.readConfigFile, hmissing]
    rfl
  · simp only [found, configFiles_lossySample, Analysis.readConfigFile, hread,
      Analysis.configFile, htext]
    exact congrArg (fun file => Except.ok [("a\uFFFD.json", file)]) hparsed

end Validation

end ProjectConsistency
