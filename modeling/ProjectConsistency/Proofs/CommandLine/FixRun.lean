import ProjectConsistency.Proofs.CommandLine.Loading
import ProjectConsistency.Proofs.FileSystem.Joined
import ProjectConsistency.Proofs.Fix.Settled
import ProjectConsistency.Proofs.Fix.Standing

/-!
# Fix runs — when a run reports the fixes that it made

After its fixes a run validates the project again, and reports nothing if that fails.  This file
defines:

* `CommandLine.Run.attempted` — the files after the fixes of a run, and the records of the fixes.

A validation succeeds if its path leads to a directory for which settings can be loaded
(`inspect_cases`).  So a run whose first validation succeeded reports its fixes if both still hold
after them, and loses the records otherwise (`fix_reports_iff`).  Fixes can undo either: a directory on
the way of the path is renamed like any other, and so is a document that the command line names
(`fix_loses_records`).

A run reports its fixes if the document with the standards is left where it was
(`fix_reports_of_kept`).  Creations leave it there (`fix_reports_creations`), and so do renames if the
document is the local one of a project without links (`fix_reports_local`).
-/

namespace ProjectConsistency

open FileSystem

/-- No new name is asked for a file whose name begins with a dot. -/
theorem Renaming.relabel_dotted {rules : NamingRules} {project : Node} {made : List String}
    {name : String} {content : ByteArray}
    (hfile : project.shapeAt [name] = some (.file content)) (hdot : name.toList.head? = some '.') :
    relabel (newName rules project made) [] [name] = [name] := by
  have hnone : newName rules project made [name] = none := by
    rw [Option.eq_none_iff_forall_ne_some]
    intro new hnew
    have hwanted := (newName_eq_some hnew).2
    simp [wantedName_eq rules hfile, wantedFor, Rules.Naming.fileName, Rules.Naming.isExempt,
      hdot] at hwanted
  simp [relabel, hnone]

namespace CommandLine
namespace Run

variable {fs : FileSystem} {around : Surroundings} {o : GlobalOptions} {path : String}
  {selection : FixSelection} {found : Inspected}

/-! ## Validations -/

/-- Where the settings cannot be loaded, the validation fails for the same reason. -/
theorem inspect_of_error {e : Failure} (hdirectory : fs.isDirectory path = true)
    (hload : loadSettings fs around o path = .error e) :
    (inspect fs around o path).2 = .error e := by
  simp [inspect, hdirectory, hload]

/--
A validation fails without a directory, or with the failure to load settings; otherwise it succeeds.
-/
theorem inspect_cases (hfs : fs.tree.WellFormed) (around : Surroundings) (o : GlobalOptions)
    (path : String) :
    (fs.isDirectory path = false ∧ (inspect fs around o path).2 = .error (.pathNotFound path)) ∨
      (fs.isDirectory path = true ∧ ∃ e, loadSettings fs around o path = .error e ∧
        (inspect fs around o path).2 = .error e) ∨
      (fs.isDirectory path = true ∧ ∃ loaded s, loadSettings fs around o path = .ok loaded ∧
        Analysis.analyze fs loaded.settings path = .ok s ∧
        (inspect fs around o path).2
          = .ok ⟨loaded.settings, .ofSnapshot s loaded.settings.standards⟩) := by
  cases hdirectory : fs.isDirectory path with
  | false => exact .inl ⟨rfl, by simp [inspect, hdirectory]⟩
  | true =>
      right
      cases hload : loadSettings fs around o path with
      | error e => exact .inl ⟨rfl, e, rfl, inspect_of_error hdirectory hload⟩
      | ok loaded =>
          right
          rcases filter_of_loadSettings hload with ⟨filter, hfilter⟩
          rcases locate_of_isDirectory hdirectory with ⟨root, entries, hlocate⟩
          obtain ⟨s, hs⟩ : ∃ s, Analysis.analyze fs loaded.settings path = .ok s :=
            ⟨_, Analysis.analyze_eq_ok hfs hfilter hlocate rfl rfl⟩
          -- The analysis of the snapshot is a scan whose number of events is left out.
          refine ⟨rfl, loaded, s, rfl, hs, ?_⟩
          cases hscan : Analysis.scan fs loaded.settings none path with
          | error e => simp [Analysis.analyze, hscan, Except.map] at hs
          | ok scan =>
              have hsnapshot : scan.snapshot = s := by
                simpa [Analysis.analyze, hscan, Except.map] using hs
              simp [inspect, hdirectory, hload, hscan, hsnapshot]

/-- What a validation that succeeded has found. -/
theorem of_inspect (hfs : fs.tree.WellFormed) (h : (inspect fs around o path).2 = .ok found) :
    fs.isDirectory path = true ∧
      (∃ loaded, loadSettings fs around o path = .ok loaded ∧ loaded.settings = found.settings) ∧
      Analysis.analyze fs found.settings path = .ok found.validation.snapshot ∧
      found.validation.issues
        = Rules.evaluate found.validation.snapshot found.settings.standards := by
  rcases inspect_cases hfs around o path with
    ⟨_, herror⟩ | ⟨_, e, _, herror⟩ | ⟨hdirectory, loaded, s, hload, hs, hok⟩
  · rw [herror] at h
    cases h
  · rw [herror] at h
    cases h
  · rw [hok] at h
    cases h
    exact ⟨hdirectory, ⟨loaded, hload, rfl⟩, hs, rfl⟩

/-! ## Runs -/

/-- The files after the fixes of a run, and the records of the fixes. -/
def attempted (fs : FileSystem) (around : Surroundings) (selection : FixSelection)
    (found : Inspected) :
    FileSystem × List FixRecord :=
  Fix.apply fs found.validation.snapshot found.settings.standards selection
    (Formatter.ofCommand around.start found.settings.formatter.command) found.validation.issues

/-- A run makes its fixes, and its result is that of the validation after them. -/
theorem fix_eq (hfound : (inspect fs around o path).2 = .ok found) (selection : FixSelection) :
    let after := attempted fs around selection found
    (fix fs around o path selection).1 = after.1 ∧
      (fix fs around o path selection).2.2 = (inspect after.1 around o path).2.map fun last =>
        ⟨after.2, found.validation.score, last.validation.score⟩ := by
  intro after
  have hinspect : inspect fs around o path = ((inspect fs around o path).1, .ok found) := by
    rw [← hfound]
  by_cases hany : selection.any = true
  · rw [fix, hinspect]
    simp [hany, after, attempted]
  · -- No fix is selected, so none is made, and the validation would give the same again.
    have hnone : selection = {} := by
      obtain ⟨rename, scaffold, format⟩ := selection
      simpa [FixSelection.any, and_assoc] using hany
    have hafter : after = (fs, []) := by
      simp [after, attempted, hnone, Fix.apply, Fix.runAll]
    rw [hafter]
    simp only [hfound, Except.map]
    rw [fix, hinspect]
    simp [hany]

/-- The tree is well-formed after the fixes of a run without the formatter. -/
theorem wellFormed_attempted (hfs : fs.tree.WellFormed) (hformat : selection.format = false)
    (found : Inspected) : (attempted fs around selection found).1.tree.WellFormed := by
  obtain ⟨rename, scaffold, format⟩ := selection
  obtain rfl : format = false := hformat
  exact Fix.wellFormed_apply hfs _ _ rename scaffold _ _

/--
A run without the formatter whose first validation succeeded makes its fixes.  It reports them, with
the record of every fix that was attempted, if and only if the path still leads to a directory and
settings can still be loaded; if not, it fails for that reason, and there are no records.
-/
theorem fix_reports_iff (hfs : fs.tree.WellFormed) (hformat : selection.format = false)
    (hfound : (inspect fs around o path).2 = .ok found) :
    let after := attempted fs around selection found
    let result := (fix fs around o path selection).2.2
    (fix fs around o path selection).1 = after.1 ∧
      ((∃ summary, result = .ok summary ∧ summary.records = after.2 ∧
          summary.before = found.validation.score) ↔
        after.1.isDirectory path = true ∧
          ∃ loaded, loadSettings after.1 around o path = .ok loaded) ∧
      (after.1.isDirectory path = false → result = .error (.pathNotFound path)) ∧
      ∀ e, after.1.isDirectory path = true → loadSettings after.1 around o path = .error e →
        result = .error e := by
  intro after result
  obtain ⟨hfiles, hresult⟩ := fix_eq hfound selection
  change result = _ at hresult
  have hwell : after.1.tree.WellFormed := wellFormed_attempted hfs hformat found
  refine ⟨hfiles, ?_⟩
  -- How the closing validation ends decides everything.
  rcases inspect_cases hwell around o path with
    ⟨hdirectory, herror⟩ | ⟨hdirectory, e, hload, herror⟩ |
      ⟨hdirectory, loaded, s, hload, _, hok⟩
  · have hfails : result = .error (.pathNotFound path) := by rw [hresult, herror]; rfl
    simp [hfails, hdirectory]
  · have hfails : result = .error e := by rw [hresult, herror]; rfl
    simp [hfails, hdirectory, hload]
  · have hreports : ∃ after', result = .ok ⟨after.2, found.validation.score, after'⟩ := by
      rw [hresult, hok]
      exact ⟨_, rfl⟩
    rcases hreports with ⟨after', hreports⟩
    simp [hreports, hdirectory, hload]

/-! ## Runs that report their fixes -/

section

variable (hfs : fs.tree.WellFormed) (hfound : (inspect fs around o path).2 = .ok found)

include hfs hfound

/--
A run reports its fixes, and holds the project against the same standards again, if its path still
leads to a directory, and the same document is found where it was.
-/
theorem fix_reports_of_kept (hformat : selection.format = false)
    (hdirectory : (attempted fs around selection found).1.isDirectory path = true)
    (hsame : document? (attempted fs around selection found).1 around o path
      = document? fs around o path)
    (hkept : ∀ doc, document? fs around o path = some doc →
      (attempted fs around selection found).1.stat doc = fs.stat doc) :
    let after := attempted fs around selection found
    ∃ last, (inspect after.1 around o path).2 = .ok last ∧ last.settings = found.settings ∧
      (fix fs around o path selection).2.2
        = .ok ⟨after.2, found.validation.score, last.validation.score⟩ := by
  intro after
  rcases (of_inspect hfs hfound).2.1 with ⟨loaded, hload, hsettings⟩
  rw [← loadSettings_of_kept hsame hkept] at hload
  have hwell : after.1.tree.WellFormed := wellFormed_attempted hfs hformat found
  rcases inspect_cases hwell around o path with
    ⟨hnone, _⟩ | ⟨_, e, herror, _⟩ | ⟨_, loaded', s, hload', _, hok⟩
  · rw [hdirectory] at hnone
    cases hnone
  · rw [hload] at herror
    cases herror
  · obtain rfl : loaded = loaded' := Except.ok.inj (hload.symm.trans hload')
    refine ⟨_, hok, hsettings, ?_⟩
    rw [(fix_eq hfound selection).2, hok]
    rfl

/--
A run that only creates what is missing reports what it created, if the standards are not searched
for, or the search ends with the local document.
-/
theorem fix_reports_creations
    (hdoc : o.noConfig = true ∨ o.config.isSome = true ∨
      fs.isFile (Path.join path ".consistency.toml") = true) :
    let after := attempted fs around { scaffold := true } found
    ∃ last, (inspect after.1 around o path).2 = .ok last ∧ last.settings = found.settings ∧
      (fix fs around o path { scaffold := true }).2.2
        = .ok ⟨after.2, found.validation.score, last.validation.score⟩ := by
  intro after
  have hgrown : Grown fs after.1 := by
    have hrun := Creation.grown_runAll found.validation.snapshot.root
      found.validation.snapshot.name found.settings.standards fs
      (Creation.plan found.validation.issues)
    simpa only [after, attempted, Fix.apply_without_formatter, Bool.false_eq_true, if_false, if_true,
      Fix.runAll] using hrun
  obtain ⟨hdirectory, ⟨loaded, hload, _⟩, _⟩ := of_inspect hfs hfound
  refine fix_reports_of_kept hfs hfound rfl (hgrown.isDirectory hdirectory) ?_ ?_
  · -- Only a search depends on the files, and it ends with the local document.
    rcases hdoc with hnone | hconfig | hlocal
    · rw [document?_of_noConfig hnone, document?_of_noConfig hnone]
    · rcases Option.isSome_iff_exists.1 hconfig with ⟨file, hfile⟩
      simp [document?, hfile]
    · have hlocal' : after.1.isFile (Path.join path ".consistency.toml") = true := by
        rw [isFile, hgrown.stat_of_isFile hlocal]
        exact hlocal
      simp [document?, Standards.discover?, Standards.localNames, documents, after, hlocal,
        hlocal']
  · intro doc hdoc
    exact hgrown.stat_of_isFile (isFile_document hload hdoc)

/-- A file in the root of a project without links keeps its name if that begins with a dot. -/
theorem shapeAt_attempted_dotted {root : Location} {entries : List (String × Node)}
    (hlocate : fs.locate true path = .ok (root, .directory entries))
    (hlinks : (Node.directory entries).LinkFree) (hformat : selection.format = false)
    {name : String} {content : ByteArray} (hdot : name.toList.head? = some '.')
    (hfile : fs.tree.shapeAt (root ++ [name]) = some (.file content)) :
    (attempted fs around selection found).1.tree.shapeAt (root ++ [name]) = some (.file content) := by
  obtain ⟨rename, scaffold, format⟩ := selection
  obtain rfl : format = false := hformat
  obtain ⟨_, _, hs, hissues⟩ := of_inspect hfs hfound
  have hroot : Renaming.IsRoot fs root (.directory entries) :=
    ⟨hfs, Analysis.get?_of_locate hlocate⟩
  have hdesc := Analysis.describes_of_analyze hfs hlocate (.inl hlinks) hs
  have hproject : (Node.directory entries).shapeAt [name] = some (.file content) := by
    rwa [← Node.shapeAt_below hroot.get?_eq]
  rw [attempted, Fix.apply_without_formatter, hissues]
  -- The renames come first and ask for no other name; the creations leave the file as it is.
  refine (Creation.grown_runAll _ _ _ _ _).kept _ _ ?_
  cases rename with
  | false => exact hfile
  | true =>
      have hshape := (Renaming.plan_relabels hroot hdesc found.settings.standards).shape _ _ hproject
      rwa [Renaming.relabel_dotted hproject hdot] at hshape

/--
A run without the formatter reports its fixes in a project without links that has a local document,
if the path of the project still leads to it.
-/
theorem fix_reports_local {root : Location} {entries entries' : List (String × Node)}
    (hlocate : fs.locate true path = .ok (root, .directory entries))
    (hlinks : (Node.directory entries).LinkFree) (hformat : selection.format = false)
    (hlocal : fs.isFile (Path.join path ".consistency.toml") = true)
    (hsearch : o.noConfig = false ∧ o.config = none)
    (hpath : (attempted fs around selection found).1.locate true path = .ok (root, .directory entries')) :
    let after := attempted fs around selection found
    ∃ last, (inspect after.1 around o path).2 = .ok last ∧ last.settings = found.settings ∧
      (fix fs around o path selection).2.2
        = .ok ⟨after.2, found.validation.score, last.validation.score⟩ := by
  intro after
  have hname : PlainName ".consistency.toml" := by decide
  have hentry : EntryName ".consistency.toml" := hname.entryName (by decide)
  have hnolink : ∀ target,
      fs.tree.get? (root ++ [".consistency.toml"]) ≠ some (.link target) := by
    intro target hlink
    rw [Node.get?_append, Analysis.get?_of_locate hlocate] at hlink
    exact hlinks [".consistency.toml"] target hlink
  -- The path of the local document leads to its entry in the root, before and after the fixes.
  rcases get?_of_isFile_join hlocate hname hentry hnolink hlocal with ⟨content, hfile⟩
  have hkept : after.1.tree.get? (root ++ [".consistency.toml"]) = some (.file content) :=
    Node.shapeAt_eq_file_iff.1 (shapeAt_attempted_dotted hfs hfound hlocate hlinks hformat rfl
      (Node.shapeAt_of_get? hfile))
  have hstat : after.1.stat (Path.join path ".consistency.toml")
      = fs.stat (Path.join path ".consistency.toml") :=
    stat_join_congr hlocate hpath hname hentry hnolink (hkept.trans hfile.symm)
  have hlocal' : after.1.isFile (Path.join path ".consistency.toml") = true := by
    rw [isFile, hstat]
    exact hlocal
  have hbefore := document?_of_local hlocal hsearch.1 hsearch.2 around
  refine fix_reports_of_kept hfs hfound hformat ?_ ?_ ?_
  · simp [isDirectory, stat, hpath, Except.map, Node.isDirectory]
  · exact (document?_of_local hlocal' hsearch.1 hsearch.2 around).trans hbefore.symm
  · intro doc hdoc
    obtain rfl : Path.join path ".consistency.toml" = doc :=
      Option.some.inj (hbefore.symm.trans hdoc)
    exact hstat

end

/-! ## A sample -/

def named : FileSystem where
  tree := .directory [("app", .directory [("TeamStandards.toml", .file ⟨#[]⟩)])]
  current := ["app"]

/-- No document of the user and no program, and any time. -/
def alone : Surroundings where
  userFolder := none
  now := ⟨0, 0⟩
  start := fun _ _ _ => .error .notFound

def namedSnapshot : Snapshot :=
  Analysis.describe ({} : Settings).standards "/app" [.file ["TeamStandards.toml"] ⟨#[]⟩]

def namedFound : Inspected where
  settings := {}
  validation := .ofSnapshot namedSnapshot ({} : Settings).standards

def namedAfter : FileSystem × List FixRecord :=
  Fix.runAll (Renaming.fix "/app") named [⟨"TeamStandards.toml", "team-standards.toml"⟩]

theorem wellFormed_named : named.tree.WellFormed :=
  have hproject : (Node.directory [("TeamStandards.toml", .file ⟨#[]⟩)]).WellFormed :=
    .cons (by decide) (by decide) (by decide) (.file _) .nil
  .cons (by decide) (by decide) (by decide) hproject .nil

theorem analyze_named : Analysis.analyze named {} "." = .ok namedSnapshot := by
  have hsorted : named.tree.sorted = named.tree := by
    simp [named, Node.sorted, Node.sortedEntries]
  have hlocate : named.locate true "."
      = .ok (["app"], .directory [("TeamStandards.toml", .file ⟨#[]⟩)]) := rfl
  have hwalk : Walk.walk named Validation.builtInFilter true "."
      = [.file ["TeamStandards.toml"] ⟨#[]⟩] := by
    have hkept : Validation.builtInFilter.isExcluded "TeamStandards.toml" false = false := by
      decide +kernel
    have hcount : named.tree.directoryCount = 2 := rfl
    rw [Walk.walk_of_sorted hsorted hlocate, hcount]
    simp [Node.entries, Walk.enter, Walk.visitEntries, Walk.visitNode, hkept]
  exact Analysis.analyze_eq_ok wellFormed_named Validation.ofPatterns_builtIn hlocate (by decide)
    hwalk

/-- Whatever document the settings come from, the first validation finds the same. -/
theorem inspect_named {source : Option String}
    (hload : (loadSettings named alone o ".").toOption = some ⟨{}, source⟩) :
    (inspect named alone o ".").2 = .ok namedFound := by
  rcases inspect_cases wellFormed_named alone o "." with
    ⟨hnone, _⟩ | ⟨_, e, herror, _⟩ | ⟨_, loaded, s, hloaded, hs, hok⟩
  · have hthere : named.isDirectory "." = true := rfl
    rw [hthere] at hnone
    cases hnone
  · rw [herror] at hload
    cases hload
  · obtain rfl : loaded = ⟨{}, source⟩ := by
      rw [hloaded] at hload
      exact Option.some.inj hload
    obtain rfl : namedSnapshot = s := Except.ok.inj (analyze_named.symm.trans hs)
    exact hok

theorem plan_named :
    Renaming.plan namedSnapshot (Rules.evaluate namedSnapshot ({} : Settings).standards)
      = [⟨"TeamStandards.toml", "team-standards.toml"⟩] := by
  have hasked : (Rules.evaluate namedSnapshot ({} : Settings).standards).filterMap
      Renaming.ofIssue? = [⟨"TeamStandards.toml", "team-standards.toml"⟩] := by
    rw [Renaming.asked_eq]
    decide +kernel
  have hfile : Renaming.concernsDirectory namedSnapshot
      ⟨"TeamStandards.toml", "team-standards.toml"⟩ = false := by
    decide +kernel
  simp [Renaming.plan, hasked, hfile]

theorem attempted_named : attempted named alone { rename := true } namedFound = namedAfter := by
  have hroot : namedSnapshot.root = "/app" := rfl
  change Fix.apply named namedSnapshot ({} : Settings).standards { rename := true } _
    (Rules.evaluate namedSnapshot ({} : Settings).standards) = _
  rw [Renaming.apply_rename_only, plan_named, hroot]
  rfl

theorem records_named :
    namedAfter.2 = [⟨.rename, "TeamStandards.toml -> team-standards.toml", .applied⟩] := by
  decide +kernel

/-- The path still leads to the project, but not to the document. -/
theorem files_named :
    namedAfter.1.isDirectory "." = true ∧ namedAfter.1.isFile "TeamStandards.toml" = false ∧
      namedAfter.1.isFile "team-standards.toml" = true := by
  decide +kernel

/-- If the document is not read, the rename is reported. -/
theorem fix_reports_iff_named :
    let o : GlobalOptions := { noConfig := true }
    ∃ summary, (fix named alone o "." { rename := true }).2.2 = .ok summary ∧
      summary.records
        = [⟨.rename, "TeamStandards.toml -> team-standards.toml", .applied⟩] := by
  intro o
  have hload : (loadSettings named alone o ".").toOption = some ⟨{}, none⟩ := by decide +kernel
  have hfound := inspect_named hload
  have hformat : ({ rename := true } : FixSelection).format = false := rfl
  have hreports := fix_reports_iff wellFormed_named hformat hfound
  dsimp only at hreports
  rw [attempted_named] at hreports
  rcases (of_inspect wellFormed_named hfound).2.1 with ⟨loaded, hbefore, _⟩
  have hload' : loadSettings namedAfter.1 alone o "." = .ok loaded := by
    rw [← hbefore, loadSettings_eq, loadSettings_eq, document?_of_noConfig rfl,
      document?_of_noConfig rfl]
  rcases hreports.2.1.2 ⟨files_named.1, loaded, hload'⟩ with ⟨summary, hsummary, hrecords, _⟩
  exact ⟨summary, hsummary, hrecords.trans records_named⟩

/--
A run renames the document that its command line names.  The rename is made, but the run fails with
the document that it cannot find, and its record is lost.
-/
theorem fix_loses_records :
    let o : GlobalOptions := { config := some "TeamStandards.toml" }
    ∃ found, (inspect named alone o ".").2 = .ok found ∧
      (attempted named alone { rename := true } found).2
        = [⟨.rename, "TeamStandards.toml -> team-standards.toml", .applied⟩] ∧
      (fix named alone o "." { rename := true }).1.isFile "team-standards.toml" = true ∧
      (fix named alone o "." { rename := true }).2.2
        = .error (.configuration "Standards file not found: TeamStandards.toml") := by
  intro o
  have hload : (loadSettings named alone o ".").toOption
      = some ⟨{}, some "TeamStandards.toml"⟩ := by decide +kernel
  have hfound := inspect_named hload
  obtain ⟨hfiles, hresult⟩ := fix_eq hfound { rename := true }
  rw [attempted_named] at hfiles hresult
  refine ⟨namedFound, hfound, ?_, ?_, ?_⟩
  · rw [attempted_named, records_named]
  · rw [hfiles]
    exact files_named.2.2
  · have hlost : loadSettings namedAfter.1 alone o "."
        = .error (.configuration "Standards file not found: TeamStandards.toml") := by
      rw [loadSettings_of_missing (document?_of_config rfl rfl _ _ _) files_named.2.1]
      simp
    rw [hresult, inspect_of_error files_named.1 hlost]
    rfl

end Run
end CommandLine
end ProjectConsistency
