import ProjectConsistency.Proofs.Walk.Pruned

/-!
# Inventory — which entries a snapshot lists

Kept entries of the project itself are listed whatever links there are, as links only add to a walk
(`listed_of_kept_directory`, `listed_of_kept_file`).  Without links that are followed nothing else is
listed (`mem_directories_iff`, `mem_files_iff`).  A snapshot that was obtained once tells that its
settings can be used (`filter_of_analyze`), and so that the project can be analysed again.
-/

namespace ProjectConsistency

open FileSystem Walk Walk.Event

/-! ## Kept paths -/

/-- A path is kept if the directory of its last name is, and the last name itself. -/
theorem NameFilter.keeps_concat (filter : NameFilter) (above : List String) (name : String)
    (isDirectory : Bool) :
    filter.keeps (above ++ [name]) isDirectory
      = (filter.keeps above true && !filter.isExcluded name isDirectory) := by
  induction above with
  | nil => simp [keeps]
  | cons first rest ih =>
      rw [List.cons_append, keeps_cons (by simp), ih]
      cases rest with
      | nil => simp [keeps]
      | cons second others =>
          have hrest : filter.keeps (first :: second :: others) true
              = (!filter.isExcluded first true && filter.keeps (second :: others) true) := rfl
          rw [hrest, Bool.and_assoc]

namespace Analysis

variable {fs : FileSystem} {settings : Settings} {filter : NameFilter} {path : String}
  {root : Location} {project : Node} {s : Snapshot}

/-- What a successful analysis found out, with the filter of the settings. -/
theorem filter_of_analyze (hfs : fs.tree.WellFormed)
    (hlocate : fs.locate true path = .ok (root, project))
    (h : analyze fs settings path = .ok s) :
    ∃ filter, NameFilter.ofPatterns settings.scanner.exclude = .ok filter ∧
      s = describe settings.standards (pathOf root)
        (walk fs filter settings.scanner.followLinks path) := by
  cases hscan : scan fs settings none path with
  | error e => simp [analyze, hscan, Except.map] at h
  | ok found =>
      obtain rfl : found.snapshot = s := by simpa [analyze, hscan, Except.map] using h
      cases hfilter : NameFilter.ofPatterns settings.scanner.exclude with
      | error pattern => simp [scan, hfilter, mapError_error, bind, Except.bind] at hscan
      | ok filter => exact ⟨filter, rfl, eq_of_scan hfs hfilter hlocate hscan⟩

/-- A kept entry of the project is reported, whether links are followed or not. -/
theorem mem_walk_of_reports (hfs : fs.tree.WellFormed)
    (hlocate : fs.locate true path = .ok (root, project)) {e : Event}
    (h : Reports filter project e) (followLinks : Bool) :
    e ∈ walk fs filter followLinks path := by
  have hunfollowed : e ∈ walk fs filter false path :=
    ((enumerates_walk hfs hlocate filter).reports e).2 h
  cases followLinks with
  | false => exact hunfollowed
  | true =>
      -- To follow links only adds events to those of the entries.
      have hmem : e ∈ (walk fs filter false path).filter Event.isEntry :=
        List.mem_filter.2 ⟨hunfollowed, h.entry⟩
      rw [← walk_following_links hfs hlocate filter] at hmem
      exact (List.mem_filter.1 hmem).1

/-- Without links that are followed, what is reported is kept. -/
theorem reports_of_mem_walk (hfs : fs.tree.WellFormed)
    (hlocate : fs.locate true path = .ok (root, project)) {followLinks : Bool}
    (hlinks : project.LinkFree ∨ followLinks = false) {e : Event}
    (he : e ∈ walk fs filter followLinks path) : Reports filter project e := by
  have hunfollowed : e ∈ walk fs filter false path := by
    rcases hlinks with hfree | rfl
    · rwa [walk_of_linkFree hfs hlocate hfree] at he
    · exact he
  exact ((enumerates_walk hfs hlocate filter).reports e).1 hunfollowed

/-- The snapshot is that of the walk with the filter of the settings. -/
theorem eq_describe (hfs : fs.tree.WellFormed)
    (hlocate : fs.locate true path = .ok (root, project))
    (hfilter : NameFilter.ofPatterns settings.scanner.exclude = .ok filter)
    (hs : analyze fs settings path = .ok s) :
    s = describe settings.standards (pathOf root)
      (walk fs filter settings.scanner.followLinks path) := by
  rcases filter_of_analyze hfs hlocate hs with ⟨found, hfound, rfl⟩
  obtain rfl : filter = found := Except.ok.inj (hfilter.symm.trans hfound)
  rfl

/-- A directory that is reported is listed. -/
theorem listed_of_directory (hfs : fs.tree.WellFormed)
    (hlocate : fs.locate true path = .ok (root, project))
    (hfilter : NameFilter.ofPatterns settings.scanner.exclude = .ok filter)
    (hs : analyze fs settings path = .ok s) {names : List String}
    (h : Event.directory names ∈ walk fs filter settings.scanner.followLinks path) :
    pathText names ∈ s.directories := by
  rw [eq_describe hfs hlocate hfilter hs]
  exact List.mem_filterMap.2 ⟨_, h, rfl⟩

/-- A file that is reported is listed. -/
theorem listed_of_file (hfs : fs.tree.WellFormed)
    (hlocate : fs.locate true path = .ok (root, project))
    (hfilter : NameFilter.ofPatterns settings.scanner.exclude = .ok filter)
    (hs : analyze fs settings path = .ok s) {names : List String} {content : ByteArray}
    (h : Event.file names content ∈ walk fs filter settings.scanner.followLinks path) :
    pathText names ∈ s.files := by
  rw [eq_describe hfs hlocate hfilter hs]
  exact List.mem_map.2 ⟨(pathText names, content), List.mem_filterMap.2 ⟨_, h, rfl⟩, rfl⟩

section

variable (hfs : fs.tree.WellFormed) (hlocate : fs.locate true path = .ok (root, project))
  (hfilter : NameFilter.ofPatterns settings.scanner.exclude = .ok filter)
  (hs : analyze fs settings path = .ok s)

include hfs hlocate hfilter hs

theorem listed_of_kept_directory {names : List String} (hne : names ≠ [])
    (hthere : project.shapeAt names = some .directory) (hkept : filter.keeps names true = true) :
    pathText names ∈ s.directories := by
  have hreports : Reports filter project (.directory names) := ⟨rfl, hne, hthere, hkept⟩
  exact listed_of_directory hfs hlocate hfilter hs (mem_walk_of_reports hfs hlocate hreports _)

theorem listed_of_kept_file {names : List String} {content : ByteArray} (hne : names ≠ [])
    (hthere : project.shapeAt names = some (.file content))
    (hkept : filter.keeps names false = true) : pathText names ∈ s.files := by
  have hreports : Reports filter project (.file names content) := ⟨rfl, hne, hthere, hkept⟩
  exact listed_of_file hfs hlocate hfilter hs (mem_walk_of_reports hfs hlocate hreports _)

/-- Without links that are followed, a snapshot lists exactly the directories that are kept. -/
theorem mem_directories_iff (hlinks : project.LinkFree ∨ settings.scanner.followLinks = false)
    (text : String) :
    text ∈ s.directories ↔ ∃ names, names ≠ [] ∧ text = pathText names ∧
      project.shapeAt names = some .directory ∧ filter.keeps names true = true := by
  constructor
  · intro h
    rw [eq_describe hfs hlocate hfilter hs] at h
    rcases List.mem_filterMap.1 h with ⟨e, he, hsome⟩
    have hreports := reports_of_mem_walk hfs hlocate hlinks he
    rcases eq_of_directory? hsome with ⟨names, rfl, rfl⟩
    exact ⟨names, hreports.ne_root, rfl, hreports.there, hreports.kept⟩
  · rintro ⟨names, hne, rfl, hthere, hkept⟩
    exact listed_of_kept_directory hfs hlocate hfilter hs hne hthere hkept

/-- Without links that are followed, a snapshot lists exactly the files that are kept. -/
theorem mem_files_iff (hlinks : project.LinkFree ∨ settings.scanner.followLinks = false)
    (text : String) :
    text ∈ s.files ↔ ∃ names content, names ≠ [] ∧ text = pathText names ∧
      project.shapeAt names = some (.file content) ∧ filter.keeps names false = true := by
  constructor
  · intro h
    rw [eq_describe hfs hlocate hfilter hs] at h
    rcases List.mem_map.1 h with ⟨entry, hentry, rfl⟩
    rcases List.mem_filterMap.1 hentry with ⟨e, he, hsome⟩
    have hreports := reports_of_mem_walk hfs hlocate hlinks he
    rcases eq_of_file? hsome with ⟨names, rfl, htext⟩
    exact ⟨names, entry.2, hreports.ne_root, htext, hreports.there, hreports.kept⟩
  · rintro ⟨names, content, hne, rfl, hthere, hkept⟩
    exact listed_of_kept_file hfs hlocate hfilter hs hne hthere hkept

/-- Without links that are followed, a file that is listed is found under the names of its path. -/
theorem file_of_listed (hlinks : project.LinkFree ∨ settings.scanner.followLinks = false)
    {text : String} (h : text ∈ s.files) :
    (project.get? (namesOf text)).any Node.isFile = true ∧
      filter.keeps (namesOf text) false = true := by
  rcases (mem_files_iff hfs hlocate hfilter hs hlinks text).1 h with
    ⟨names, content, _, rfl, hthere, hkept⟩
  have hnode : project.get? names = some (.file content) := Node.shapeAt_eq_file_iff.1 hthere
  have hwell : project.WellFormed := hfs.of_get? (get?_of_locate hlocate)
  rw [namesOf_pathText fun n hn => (hwell.names_of_get? hnode n hn).1]
  exact ⟨by simp [hnode, Node.isFile], hkept⟩

end

end Analysis
end ProjectConsistency
