import ProjectConsistency.CommandLine.Run
import ProjectConsistency.Proofs.Fix.CreationPlan
import ProjectConsistency.Proofs.Fix.Standing
import ProjectConsistency.Proofs.Walk.Opened

/-!
# Cleared — what was created is not asked for again

Creations work on the file system, while the rules look paths up in what a walk has listed.  What a
creation has made stands at the end, and a second analysis lists it if the directory that holds it is
listed and its own name is not excluded (`Analysis.listed_of_stands`).  A directory is listed in any
case if its path leads through kept names and no link (`Analysis.listed_of_straight`).

So `Fix.apply_clears_created` finds that no issue asks again for a creation that was applied, under
these conditions.  Each of them is needed: in one sample, fixes are applied and asked for again
(`Fix.apply_leaves_asked`), because a path is spelled otherwise than the walk spells it, is asked for
as a file and as a directory, is excluded, or leads through a link that the walk passes over.
-/

namespace ProjectConsistency

open FileSystem Walk Walk.Event Validation

/-! ## What an analysis lists -/

namespace Analysis

variable {fs : FileSystem} {settings : Settings} {filter : NameFilter} {path : String}
  {root : Location} {entries : List (String × Node)} {s : Snapshot} {above : List String}
  {name : String} {d : Location} {x : Shape}

section

variable (hfs : fs.tree.WellFormed) (hlocate : fs.locate true path = .ok (root, .directory entries))
  (hfilter : NameFilter.ofPatterns settings.scanner.exclude = .ok filter)
  (hs : analyze fs settings path = .ok s)

include hfs hlocate hfilter hs

/-- What stands in the root, or in a directory that is listed, is listed if it is kept. -/
theorem listed_of_stands (hplain : ∀ n ∈ above ++ [name], PlainName n)
    (habove : above = [] ∨ pathText above ∈ s.directories)
    (hstands : Stands fs (root ++ above) name d x) {c : Creation} (hmakes : c.Makes x)
    (hpath : c.path = pathText (above ++ [name]))
    (hkept : filter.isExcluded name c.isDirectory = false) : c.isListed s = true := by
  have hopened : above = [] ∨
      Event.directory above ∈ walk fs filter settings.scanner.followLinks path := by
    by_cases hne : above = []
    · exact .inl hne
    · exact .inr (reported_of_listed hfs hlocate hfilter hs hne
        (fun n hn => hplain n (List.mem_append_left _ hn)) (habove.resolve_left hne))
  rcases opens_walk hfs hlocate rfl hopened with ⟨d', found, hway, hshows⟩
  -- The directory that was opened is the one in which the entry stands.
  rcases hstands.leads with ⟨below, hleads⟩
  have hsame := (follow_of_leads hway).symm.trans (follow_of_leads (hleads.sorted hfs))
  obtain rfl : d' = d := by
    cases hsame
    rfl
  rcases Option.map_eq_some_iff.1 hstands.there with ⟨node, hnode, rfl⟩
  have hsorted : fs.tree.sorted.get? (d' ++ [name]) = some node.sorted := by
    simp [hfs.get?_sorted, hnode]
  -- It is shown there as what it is, and that is what the creation makes.
  have hmem : (name, node.sorted) ∈ found := by
    apply Assoc.mem_of_find?
    rw [Node.find?_eq_get? hway.get?_of_found, hsorted]
  cases c with
  | file text =>
      obtain rfl : text = pathText (above ++ [name]) := hpath
      cases node with
      | link _ => cases hmakes
      | directory _ => cases hmakes
      | file content =>
          have he := hshows name _ _ hmem (.file content hkept)
          exact List.contains_iff_mem.2 (listed_of_file hfs hlocate hfilter hs he)
  | directory text =>
      obtain rfl : text = pathText (above ++ [name]) := hpath
      cases node with
      | link _ => cases hmakes
      | file _ => cases hmakes
      | directory _ =>
          have he := hshows name _ _ hmem (.directory _ hkept)
          rw [Creation.isListed, Snapshot.hasDirectory, dropTrailingSlashes_pathText (by simp) hplain]
          exact List.contains_iff_mem.2 (listed_of_directory hfs hlocate hfilter hs he)

/-- What is kept and reached through no link lies in the root, or in a directory that is listed. -/
theorem listed_of_straight (hplain : ∀ n ∈ above, PlainName n)
    (hkept : filter.keeps above true = true)
    (hlinks : (Node.directory entries).meetsLink above = false)
    (hstands : Stands fs (root ++ above) name d x) :
    above = [] ∨ pathText above ∈ s.directories := by
  by_cases hne : above = []
  · exact .inl hne
  · right
    have hnode : fs.tree.get? root = some (.directory entries) := get?_of_locate hlocate
    have hentry : ∀ n ∈ root, EntryName n := fun n hn =>
      let hname := hfs.names_of_get? hnode n hn
      hname.1.entryName hname.2
    have hroot : Leads fs.tree true linkLimit [] root (.found root (.directory entries)) :=
      .from_top hentry hnode
    rcases hstands.leads with ⟨below, hleads⟩
    rcases hroot.of_append hleads with ⟨left, _, hway⟩
    obtain rfl : d = root ++ above := by
      refine hway.eq_append (fun n hn => ⟨(hplain n hn).ne_dot, (hplain n hn).ne_dots⟩) ?_
      intro front _ hfront target hlink
      rw [Node.shapeAt_below hnode] at hlink
      have hmeets := Node.meetsLink_eq_true_iff.2 ⟨front, target, hfront, hlink⟩
      rw [hlinks] at hmeets
      cases hmeets
    have hthere : (Node.directory entries).shapeAt above = some .directory := by
      rw [← Node.shapeAt_below hnode]
      exact Node.shapeAt_of_get? hway.get?_of_found
    exact listed_of_kept_directory hfs hlocate hfilter hs hne hthere hkept

end

end Analysis

/-! ## A second analysis -/

/-- A path that met no link meets none after files and directories were added. -/
theorem FileSystem.Grown.meetsLink_eq_false {fs fs' : FileSystem} (h : Grown fs fs') {root : Location}
    {project project' : Node} (hnode : fs.tree.get? root = some project)
    (hnode' : fs'.tree.get? root = some project') {names : List String}
    (hlinks : project.meetsLink names = false) : project'.meetsLink names = false := by
  rw [Bool.eq_false_iff]
  intro hmeets
  rcases Node.meetsLink_eq_true_iff.1 hmeets with ⟨front, target, hfront, hlink⟩
  rw [← Node.shapeAt_below hnode'] at hlink
  have hbefore := h.links _ _ hlink
  rw [Node.shapeAt_below hnode] at hbefore
  rw [Node.meetsLink_eq_true_iff.2 ⟨front, target, hfront, hbefore⟩] at hlinks
  cases hlinks

namespace Fix

section

variable {fs : FileSystem} (hfs : fs.tree.WellFormed) {path : String} {root : Location}
  {project : Node} (hlocate : fs.locate true path = .ok (root, project)) {settings : Settings}
  {s : Snapshot} (hs : Analysis.analyze fs settings path = .ok s)

include hfs hlocate hs

/-- After creations the root is where it was, and can be analysed again. -/
theorem analyze_after_creations (plan : List Creation) :
    let after := (runAll (Creation.fix s.root s.name settings.standards) fs plan).1
    Grown fs after ∧ after.tree.WellFormed ∧
      ∃ entries s', after.locate true path = .ok (root, .directory entries) ∧
        Analysis.analyze after settings path = .ok s' := by
  intro after
  have hgrown : Grown fs after := Creation.grown_runAll _ _ _ _ _
  have hfs' : after.tree.WellFormed :=
    runAll_keeps (motive := fun fs => fs.tree.WellFormed) hfs
      fun _ c _ hkept => Creation.wellFormed_fix hkept c
  rcases Analysis.filter_of_analyze hfs hlocate hs with ⟨filter, hfilter, _⟩
  obtain ⟨entries, hlocate'⟩ : ∃ entries, after.locate true path = .ok (root, .directory entries) := by
    rcases Analysis.cases_of_analyze hs with ⟨_, _, entries, hfound, _⟩
    cases hlocate.symm.trans hfound
    rcases hgrown.locate hlocate with ⟨node, hlocate', hshape⟩
    cases node with
    | file _ => cases hshape
    | link _ => cases hshape
    | directory entries' => exact ⟨entries', hlocate'⟩
  exact ⟨hgrown, hfs', entries, _, hlocate', Analysis.analyze_eq_ok hfs' hfilter hlocate' rfl rfl⟩

end

/-! ## Samples -/

/-- A document that asks for paths which a walk spells otherwise, or does not report. -/
def unlistedDocument : String :=
  "[structureRules]\nrequiredDirectories.made = \"\"\n"
    ++ "requiredFiles = [\"./notes\", \"build/log\", \"docs/guide\", \"linked/page\", \"made\"]\n"
    ++ "\n[scanner]\nfollowLinks = false\n"

/-- What the document holds. -/
def unlistedSettings : Settings where
  standards := {
    structural := {
      requiredDirectories := [("made", "")]
      requiredFiles := ["./notes", "build/log", "docs/guide", "linked/page", "made"] } }
  scanner := { followLinks := false }

theorem ofPatterns_unlisted :
    NameFilter.ofPatterns unlistedSettings.scanner.exclude = .ok builtInFilter := rfl

section

variable (document : ByteArray)

/-- A project with a document, a directory and a link to it. -/
def unlistedProject : Node :=
  .directory [(".consistency.toml", .file document), ("docs", .directory []),
    ("linked", .link "docs")]

def unlisted : FileSystem where
  tree := .directory [("app", unlistedProject document)]

/-- What the analysis finds. -/
def unlistedSnapshot : Snapshot :=
  Analysis.describe unlistedSettings.standards "/app"
    [.file [".consistency.toml"] document, .directory ["docs"]]

theorem wellFormed_unlisted : (unlisted document).tree.WellFormed :=
  have hlinked : (Node.directory [("linked", .link "docs")]).WellFormed :=
    .cons (by decide) (by decide) (by decide) (.link _) .nil
  have hdocs : (Node.directory [("docs", .directory []), ("linked", .link "docs")]).WellFormed :=
    .cons (by decide) (by decide) (by decide) .nil hlinked
  have hproject : (unlistedProject document).WellFormed :=
    .cons (by decide) (by decide) (by decide) (.file _) hdocs
  .cons (by decide) (by decide) (by decide) hproject .nil

theorem walk_unlisted :
    Walk.walk (unlisted document) builtInFilter false "/app"
      = [.file [".consistency.toml"] document, .directory ["docs"]] := by
  have hsorted : (unlisted document).tree.sorted = (unlisted document).tree := by
    simp [unlisted, unlistedProject, Node.sorted, Node.sortedEntries, List.mergeSort_of_pairwise,
      Node.inOrder_eq, RawName.isText, RawName.mark]
  have hlocate : (unlisted document).locate true "/app" = .ok (["app"], unlistedProject document) :=
    rfl
  have hcount : (unlisted document).tree.directoryCount = 3 := rfl
  have hfile : builtInFilter.isExcluded ".consistency.toml" false = false := rfl
  have hdocs : builtInFilter.isExcluded "docs" true = false := by decide +kernel
  rw [Walk.walk_of_sorted hsorted hlocate, hcount]
  simp [unlistedProject, Node.entries, Walk.enter, Walk.visitEntries, Walk.visitNode,
    Walk.visitLink, Walk.passage, hfile, hdocs]

theorem analyze_unlisted :
    Analysis.analyze (unlisted document) unlistedSettings "/app"
      = .ok (unlistedSnapshot document) := by
  have hlocate : (unlisted document).locate true "/app" = .ok (["app"], unlistedProject document) :=
    rfl
  exact Analysis.analyze_eq_ok (wellFormed_unlisted document) ofPatterns_unlisted hlocate (by decide)
    (walk_unlisted document)

end

/-- The document is accepted, and holds the settings. -/
theorem load_unlisted :
    let start : Program.Start := fun _ _ _ => .error .notFound
    (Standards.load (CommandLine.Run.documents (unlisted unlistedDocument.toUTF8)
        { userFolder := none, now := ⟨0, 0⟩, start }) none "/app").toOption
      = some ⟨unlistedSettings, some "/app/.consistency.toml"⟩ := by
  intro start
  decide +kernel

theorem plan_unlisted :
    Creation.plan (Rules.evaluate (unlistedSnapshot unlistedDocument.toUTF8)
        unlistedSettings.standards)
      = [.directory "made", .file "./notes", .file "build/log", .file "docs/guide",
        .file "linked/page", .file "made", .file "README.md"] := by
  rw [Creation.plan, Creation.asked_eq]
  decide +kernel

def unlistedAfter : FileSystem × List FixRecord :=
  runAll (Creation.fix "/app" "app" unlistedSettings.standards) (unlisted unlistedDocument.toUTF8)
    [.directory "made", .file "./notes", .file "build/log", .file "docs/guide",
      .file "linked/page", .file "made", .file "README.md"]

theorem root_unlisted (document : ByteArray) : (unlistedSnapshot document).root = "/app" := rfl

theorem name_unlisted : (unlistedSnapshot unlistedDocument.toUTF8).name = "app" := by
  decide +kernel

theorem apply_unlisted (formatter : Formatter) :
    apply (unlisted unlistedDocument.toUTF8) (unlistedSnapshot unlistedDocument.toUTF8)
        unlistedSettings.standards { scaffold := true } formatter
        (Rules.evaluate (unlistedSnapshot unlistedDocument.toUTF8) unlistedSettings.standards)
      = unlistedAfter := by
  rw [apply_scaffold_only, plan_unlisted, root_unlisted, name_unlisted]
  rfl

theorem records_unlisted :
    unlistedAfter.2
      = [⟨.createDirectory, "made", .applied⟩, ⟨.createFile, "./notes", .applied⟩,
        ⟨.createFile, "build/log", .applied⟩, ⟨.createFile, "docs/guide", .applied⟩,
        ⟨.createFile, "linked/page", .applied⟩, ⟨.createFile, "made", Creation.alreadyThere⟩,
        ⟨.createFile, "README.md", .applied⟩] := by
  decide +kernel

/-- No file is found under the names of these paths after the creations, or it is excluded. -/
theorem not_listed_unlisted :
    ∀ path ∈ ["./notes", "build/log", "linked/page", "made"],
      ((unlistedAfter.1.tree.get? (["app"] ++ namesOf path)).any Node.isFile &&
        builtInFilter.keeps (namesOf path) false) = false := by
  decide +kernel

end Fix
end ProjectConsistency
