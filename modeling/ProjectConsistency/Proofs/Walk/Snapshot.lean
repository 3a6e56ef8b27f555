import ProjectConsistency.Proofs.Walk.Described

/-!
# Snapshot — what a snapshot lists of a tree

The analysis of a project finds its root and walks it, and succeeds if there is a directory and the
patterns can be read (`analyze_eq_ok`).  This file defines:

* `Snapshot.Describes` — the snapshot lists directories and files of a project, each once;

and shows that it does if there are no links, or if they are not followed (`describes_of_analyze`).
With links, too, the paths that it lists are written from names of entries (`listed_of_analyze`).
-/

namespace ProjectConsistency

open FileSystem Walk Walk.Event

/-- The snapshot lists directories and files that are in a project, each once. -/
structure Snapshot.Describes (s : Snapshot) (root : Location) (project : Node) : Prop where
  root_eq : s.root = pathOf root
  directories : ∀ text ∈ s.directories, ∃ path, path ≠ [] ∧ text = pathText path ∧
    project.shapeAt path = some .directory
  files : ∀ text ∈ s.files, ∃ path content, path ≠ [] ∧ text = pathText path ∧
    project.shapeAt path = some (.file content)
  nodup_directories : s.directories.Nodup
  nodup_files : s.files.Nodup

namespace Analysis

variable {fs : FileSystem} {settings : Settings} {path : String} {s : Snapshot}

/-- What a successful analysis went through. -/
theorem cases_of_analyze (h : analyze fs settings path = .ok s) :
    ∃ filter root entries, fs.locate true path = .ok (root, .directory entries) ∧
      s = complete settings.standards (fs.readBelow path)
        (recordAll settings.standards.style (pathOf root)
          (walk fs filter settings.scanner.followLinks path)) := by
  cases hscan : scan fs settings none path with
  | error e => simp [analyze, hscan, Except.map] at h
  | ok found =>
      have hfound : found.snapshot = s := by simpa [analyze, hscan, Except.map] using h
      -- The steps of the analysis, each of which may fail.
      rcases ok_of_bind hscan with ⟨filter, _, hscan⟩
      obtain ⟨hdirectory, hscan⟩ := ok_of_guard hscan
      rcases ok_of_bind hscan with ⟨text, hcanonical, hscan⟩
      obtain ⟨_, hscan⟩ := ok_of_guard hscan
      cases hscan
      cases hlocate : fs.locate true path with
      | error e => simp [FileSystem.canonical, hlocate, Except.map, mapError_error] at hcanonical
      | ok place =>
          obtain ⟨root, node⟩ := place
          have hstat : fs.stat path = .ok node := by simp [stat, hlocate, Except.map]
          have hroot : pathOf root = text := by
            simpa [FileSystem.canonical, hlocate, Except.map, mapError_ok] using hcanonical
          have hnode : node.isDirectory = true := by
            simpa [isDirectory, hstat] using hdirectory
          cases node with
          | file _ => simp [Node.isDirectory] at hnode
          | link _ => simp [Node.isDirectory] at hnode
          | directory entries =>
              refine ⟨filter, root, entries, rfl, ?_⟩
              rw [← hfound, hroot]
              rfl

/-- No snapshot has the empty path as its root, since roots are paths from the top. -/
theorem root_ne_empty (h : analyze fs settings path = .ok s) : s.root ≠ "" := by
  rcases cases_of_analyze h with ⟨filter, root, _, _, rfl⟩
  have hroot : fromTop (pathOf root) = true := fromTop_pathOf root
  rw [root_complete, root_recordAll]
  intro hempty
  simp [hempty, fromTop] at hroot

/-- A successful analysis describes the events of its walk. -/
theorem describes_events (hfs : fs.tree.WellFormed) (h : analyze fs settings path = .ok s) :
    ∃ filter root entries, fs.locate true path = .ok (root, .directory entries) ∧
      s = describe settings.standards (pathOf root)
        (walk fs filter settings.scanner.followLinks path) := by
  rcases cases_of_analyze h with ⟨filter, root, entries, hlocate, rfl⟩
  exact ⟨filter, root, entries, hlocate, complete_recordAll hfs hlocate _ _ _ _⟩

/-- A directory can be analysed if the patterns of names to exclude can be read. -/
theorem analyze_eq_ok (hfs : fs.tree.WellFormed) {filter : NameFilter}
    (hfilter : NameFilter.ofPatterns settings.scanner.exclude = .ok filter) {root : Location}
    {entries : List (String × Node)}
    (hlocate : fs.locate true path = .ok (root, .directory entries)) {text : String}
    (htext : pathOf root = text) {events : List Event}
    (hwalk : walk fs filter settings.scanner.followLinks path = events) :
    analyze fs settings path = .ok (describe settings.standards text events) := by
  subst htext hwalk
  have hgoes : (walk fs filter settings.scanner.followLinks path).any isCancelled = false := by
    rw [List.any_eq_false]
    intro e he
    simp [(proper_walk hfs filter settings.scanner.followLinks path e he).goesOn]
  have hdirectory : fs.isDirectory path = true := by
    simp [isDirectory, stat, hlocate, Except.map, Node.isDirectory]
  have hcanonical : fs.canonical path = .ok (pathOf root) := by
    simp [canonical, hlocate, Except.map]
  simp [analyze, scan, hfilter, hdirectory, hcanonical, cut, hgoes, bind, Except.bind, pure,
    Except.pure, Except.map, mapError_ok, complete_recordAll hfs hlocate]

/-- The paths of a snapshot are written from names of entries. -/
theorem listed_of_analyze (hfs : fs.tree.WellFormed) (h : analyze fs settings path = .ok s) :
    ∀ text ∈ s.directories ++ s.files, ∃ names, names ≠ [] ∧ text = pathText names ∧
      ∀ name ∈ names, PlainName name := by
  rcases describes_events hfs h with ⟨filter, root, entries, _, rfl⟩
  have proper := proper_walk hfs filter settings.scanner.followLinks path
  intro text htext
  rcases List.mem_append.1 htext with htext | htext
  · rcases List.mem_filterMap.1 htext with ⟨e, he, hsome⟩
    rcases eq_of_directory? hsome with ⟨p, rfl, rfl⟩
    exact ⟨p, (proper _ he).ne_nil rfl, rfl, (proper _ he).plain⟩
  · rcases List.mem_map.1 htext with ⟨entry, hentry, rfl⟩
    rcases List.mem_filterMap.1 hentry with ⟨e, he, hsome⟩
    rcases eq_of_file? hsome with ⟨p, rfl, htext⟩
    exact ⟨p, (proper _ he).ne_nil rfl, htext, (proper _ he).plain⟩

/-- Without links that it follows, a walk lists what is in its root. -/
theorem walk_lists (filter : NameFilter) (followLinks : Bool) {root : Location}
    {entries : List (String × Node)} (hfs : fs.tree.WellFormed)
    (hlocate : fs.locate true path = .ok (root, .directory entries))
    (hlinks : (Node.directory entries).LinkFree ∨ followLinks = false) :
    (∀ e ∈ walk fs filter followLinks path,
      e.shape? = none ∨ (e.path ≠ [] ∧ (Node.directory entries).shapeAt e.path = e.shape?)) ∧
      (walk fs filter followLinks path).Pairwise fun a b => a.path ≠ b.path := by
  have hwell : (Node.directory entries).WellFormed := hfs.of_get? (get?_of_locate hlocate)
  have hfollows : (Node.directory entries).sorted.LinkFree
      ∨ (Plan.ofRoot fs filter followLinks path root).followLinks = false :=
    hlinks.imp_left fun h => hwell.linkFree_sorted h
  rw [walk_of_locate hlocate, Plan.run, entries_ofRoot hfs hlocate]
  obtain ⟨hlists, hbelow⟩ := enter_lists hwell.sorted hfollows fs.tree.sorted.directoryCount
    ⟨root, [], []⟩ []
  refine ⟨?_, hlists.distinct⟩
  intro e he
  right
  -- The walk goes through the sorted tree, which shows the same.
  refine ⟨hbelow e he, ?_⟩
  rcases hlists.reports e he with ⟨below, hpath, hshape⟩
  have hbelow : e.path = below := by simpa using hpath
  rw [hbelow, ← hshape, ← hwell.shapeAt_sorted]
  rfl

/-- Without links that are followed, the snapshot lists directories and files, each once. -/
theorem describes_of_analyze {root : Location} {project : Node} (hfs : fs.tree.WellFormed)
    (hlocate : fs.locate true path = .ok (root, project))
    (hlinks : project.LinkFree ∨ settings.scanner.followLinks = false)
    (h : analyze fs settings path = .ok s) : s.Describes root project := by
  rcases describes_events hfs h with ⟨filter, found, entries, hfound, rfl⟩
  obtain ⟨rfl, rfl⟩ : found = root ∧ Node.directory entries = project := by
    rw [hlocate] at hfound
    cases hfound
    exact ⟨rfl, rfl⟩
  -- Without links followed, what the walk reports is there below the root.
  obtain ⟨hreports, hdistinct⟩ :=
    walk_lists filter settings.scanner.followLinks hfs hlocate hlinks
  obtain ⟨hdirectories, hfiles⟩ :=
    nodup_listed (proper_walk hfs filter settings.scanner.followLinks path) hdistinct
  refine ⟨rfl, ?_, ?_, hdirectories, hfiles⟩
  · intro text htext
    rcases List.mem_filterMap.1 htext with ⟨e, he, hsome⟩
    rcases eq_of_directory? hsome with ⟨p, rfl, rfl⟩
    rcases hreports _ he with hnone | ⟨hne, hshape⟩
    · cases hnone
    · exact ⟨p, hne, rfl, hshape⟩
  · intro text htext
    rcases List.mem_map.1 htext with ⟨entry, hentry, rfl⟩
    rcases List.mem_filterMap.1 hentry with ⟨e, he, hsome⟩
    rcases eq_of_file? hsome with ⟨p, rfl, htext⟩
    rcases hreports _ he with hnone | ⟨hne, hshape⟩
    · cases hnone
    · exact ⟨p, entry.2, hne, htext, hshape⟩

end Analysis
end ProjectConsistency
