import ProjectConsistency.CommandLine.Arguments
import ProjectConsistency.Proofs.FileSystem.Revealed
import ProjectConsistency.Proofs.Rules.Noticed
import ProjectConsistency.Proofs.Standards.Accepted

/-!
# Reported — what a report changes in the project that it is about

A report is written to the root of the project by default, and then is a file of the project like any
other.  This file defines:

* `CommandLine.Run.Reported` — a report on a validation was written to a file;
* `CommandLine.Run.ReportChanges` — a report on a project changes what is found in it.

The directory of the report is there, so nothing but the report is written (`write_of_writeFile`).  If
it is not written through a link, and links lead to the same as before or into the root, then the same
issues are found just if the name of the report is excluded, or the rules do not notice the file
(`report_keeps_issues_iff`).  Each of these conditions can fail (`report_changes_issues`).
-/

namespace ProjectConsistency

open FileSystem Walk

theorem Node.canHold_defaultReport : Node.CanHold CommandLine.defaultReport :=
  ⟨by decide, by decide⟩

namespace Validation

section

variable {fs fs' : FileSystem} {settings : Settings} {filter : NameFilter} {path : String}
  {root : Location} {entries : List (String × Node)} (hfs : fs.tree.WellFormed)
  (hfilter : NameFilter.ofPatterns settings.scanner.exclude = .ok filter)
  (hlocate : fs.locate true path = .ok (root, .directory entries))

include hfs hfilter hlocate

/-- A directory can be validated with the filter of the settings. -/
theorem ofRoot_eq (standards : Standards) : ofRoot fs settings none standards path
    = .ok (ofSnapshot (Analysis.describe settings.standards (pathOf root)
        (walk fs filter settings.scanner.followLinks path)) standards) := by
  have hanalyze := Analysis.analyze_eq_ok hfs hfilter hlocate rfl rfl
  cases hscan : Analysis.scan fs settings none path with
  | error e => simp [Analysis.analyze, hscan, Except.map] at hanalyze
  | ok found =>
      have hsnapshot : found.snapshot = _ := Analysis.eq_of_scan hfs hfilter hlocate hscan
      rw [ofRoot, hscan, ← hsnapshot]
      rfl

/--
After a file was written in the root, the same issues are found just if its name is excluded or the
rules do not notice it.  Links that are followed lead to the same afterwards, or into the root.
-/
theorem issues_written_iff {name : String} {old : Option ByteArray} {content : ByteArray}
    (hwritten : Written fs root name old content fs') (hreadme : Analysis.isReadme name = false)
    (hdistinct : (Assoc.keys settings.standards.config.perFile).Nodup)
    (hlinks : settings.scanner.followLinks = true →
      (Plan.ofRoot fs filter true path root).SameLinks (Plan.ofRoot fs' filter true path root)) :
    ∃ v v', ofRoot fs settings none settings.standards path = .ok v ∧
      ofRoot fs' settings none settings.standards path = .ok v' ∧
      (v'.issues = v.issues ↔ filter.isExcluded name false = true ∨
        Rules.Unnoticed settings.standards v.snapshot name old content) := by
  have hfs' := hwritten.wellFormed hfs
  obtain ⟨entries', hlocate'⟩ := hwritten.locate_directory hlocate
  refine ⟨_, _, ofRoot_eq hfs hfilter hlocate _, ofRoot_eq hfs' hfilter hlocate' _, ?_⟩
  cases hexcluded : filter.isExcluded name false with
  | true => exact iff_of_true (by rw [walk_of_excluded hfs hlocate hwritten hlinks hexcluded]) (.inl rfl)
  | false =>
      obtain ⟨before, after, haround, hwalk, hwalk'⟩ :=
        walk_withFile hfs hlocate hwritten hlinks hexcluded
      have hproper := Analysis.proper_walk hfs filter settings.scanner.followLinks path
      have hspread := spread_walk hfs hlocate filter settings.scanner.followLinks
      have hspread' := spread_walk hfs' hlocate' filter settings.scanner.followLinks
      rw [hwalk] at hspread hproper
      rw [hwalk'] at hspread'
      simp only [hwalk, hwalk', Bool.false_eq_true, false_or]
      exact Rules.evaluate_withFile_iff haround hwritten.canHold.plain hreadme hdistinct
        (fun e he => hproper e (subset_withFile old he)) hspread hspread'

/-- A new file whose name breaks the convention is noticed. -/
theorem issues_ne_of_misnamed {name : String} {content : ByteArray}
    (hwritten : Written fs root name none content fs') (hreadme : Analysis.isReadme name = false)
    (hdistinct : (Assoc.keys settings.standards.config.perFile).Nodup)
    (hlinks : settings.scanner.followLinks = true →
      (Plan.ofRoot fs filter true path root).SameLinks (Plan.ofRoot fs' filter true path root))
    (hkept : filter.isExcluded name false = false)
    (hmisnamed : Rules.Naming.fileName settings.standards.naming name ≠ none) :
    ∃ v v', ofRoot fs settings none settings.standards path = .ok v ∧
      ofRoot fs' settings none settings.standards path = .ok v' ∧ v'.issues ≠ v.issues := by
  obtain ⟨v, v', hv, hv', hiff⟩ := issues_written_iff hfs hfilter hlocate hwritten hreadme hdistinct
    hlinks
  refine ⟨v, v', hv, hv', ?_⟩
  intro hsame
  rcases hiff.1 hsame with hexcluded | hunnoticed
  · simp [hkept] at hexcluded
  · exact hmisnamed (hunnoticed.named rfl)

end

/-- A directory that was validated is one. -/
theorem directory_of_ofRoot {fs : FileSystem} {settings : Settings} {filter : NameFilter}
    (hfilter : NameFilter.ofPatterns settings.scanner.exclude = .ok filter) {path : String}
    {root : Location} {project : Node} (hlocate : fs.locate true path = .ok (root, project))
    {limit : Option Nat} {standards : Standards} {v : Validation}
    (h : ofRoot fs settings limit standards path = .ok v) :
    ∃ entries, project = .directory entries := by
  rw [ofRoot, Analysis.scan_of_locate hfilter hlocate] at h
  cases project with
  | directory entries => exact ⟨entries, rfl⟩
  | file _ => cases h
  | link _ => cases h

/-- The score depends on the issues. -/
theorem score_of_ofRoot {fs : FileSystem} {settings : Settings} {limit : Option Nat}
    {standards : Standards} {path : String} {v : Validation}
    (h : ofRoot fs settings limit standards path = .ok v) : v.score = ProjectConsistency.score v.issues := by
  rw [ofRoot] at h
  cases hscan : Analysis.scan fs settings limit path with
  | error e => simp [hscan, Except.map] at h
  | ok found =>
      rw [hscan] at h
      cases h
      rfl

end Validation

namespace CommandLine
namespace Run

variable {fs fs' : FileSystem} {path output text : String}

/-- A file is written when the directories above it were made. -/
theorem writeFile_eq (fs : FileSystem) (output text : String) :
    writeFile fs output text = match (fs.prepared output).2 with
      | .error e => ((fs.prepared output).1, .error (.io e))
      | .ok () => match (fs.prepared output).1.write output text.toUTF8 with
        | .ok written => (written, .ok ())
        | .error e => ((fs.prepared output).1, .error (.io e)) := by
  unfold writeFile prepared
  cases Path.parent? output <;> rfl

/-- The directories above a file are made, and it is written, or the system refuses one of both. -/
theorem writeFile_cases (fs : FileSystem) (output text : String) :
    (∃ e, writeFile fs output text = ((fs.prepared output).1, .error (.io e)) ∧
        ((fs.prepared output).2 = .ok () →
          (fs.prepared output).1.write output text.toUTF8 = .error e)) ∨
      ∃ fs', writeFile fs output text = (fs', .ok ()) ∧ (fs.prepared output).2 = .ok () ∧
        (fs.prepared output).1.write output text.toUTF8 = .ok fs' := by
  rw [writeFile_eq]
  cases (fs.prepared output).2 with
  | error e => exact .inl ⟨e, rfl, fun h => by cases h⟩
  | ok _ =>
      cases (fs.prepared output).1.write output text.toUTF8 with
      | error e => exact .inl ⟨e, rfl, fun _ => rfl⟩
      | ok fs' => exact .inr ⟨fs', rfl, rfl, rfl⟩

/-- Where the directory of a file is there, nothing but the file is written. -/
theorem write_of_writeFile {place : Location} (hplace : fs.placeOf? output = some place)
    (h : writeFile fs output text = (fs', .ok ())) : fs.write output text.toUTF8 = .ok fs' := by
  rcases writeFile_cases fs output text with ⟨e, hdone, _⟩ | ⟨written, hdone, _, hwrite⟩
  · cases hdone.symm.trans h
  · obtain rfl : written = fs' := congrArg Prod.fst (hdone.symm.trans h)
    rwa [prepared_of_placeOf? hplace] at hwrite

/-- A report on a validation was written to a file. -/
structure Reported (fs : FileSystem) (v : Validation) (now : Timestamp) (output text : String)
    (fs' : FileSystem) : Prop where
  text_eq : reportText {} .json (.ofValidation v now) = .ok text
  written : writeFile fs output text = (fs', .ok ())

def sample (entries : List (String × Node)) : FileSystem where
  tree := .directory [("app", .directory entries)]

def sampleOutput : String :=
  "/app/consistency-report.json"

theorem locate_sample (entries : List (String × Node)) :
    (sample entries).locate true "/app" = .ok (["app"], .directory entries) :=
  rfl

theorem wellFormed_sample {entries : List (String × Node)}
    (h : (Node.directory entries).WellFormed) : (sample entries).tree.WellFormed :=
  .cons (by decide) (by decide) (by decide) h .nil

/-- There is a report for the beginning of 1970, which has a text. -/
theorem exists_reported (fs : FileSystem) (output : String) (v : Validation)
    (hwrite : ∀ text, ∃ fs', writeFile fs output text = (fs', .ok ())) :
    ∃ text fs', Reported fs v ⟨0, 0⟩ output text fs' := by
  have htime : (Report.ofValidation v ⟨0, 0⟩).generated.rfc3339? = some "1970-01-01T00:00:00Z" := by
    show (Timestamp.mk 0 0).rfc3339? = _
    decide +kernel
  have htext : ∃ text, reportText {} .json (.ofValidation v ⟨0, 0⟩) = .ok text := by
    rw [reportText, Report.json, htime]
    exact ⟨_, rfl⟩
  obtain ⟨text, htext⟩ := htext
  obtain ⟨fs', hfs'⟩ := hwrite text
  exact ⟨text, fs', htext, hfs'⟩

def plainSample : FileSystem :=
  sample [("README.md", .file ⟨#[35]⟩), ("src", .directory [])]

theorem wellFormed_plainSample : plainSample.tree.WellFormed :=
  wellFormed_sample (.cons (by decide) (by decide) (by decide) (.file _)
    (.cons (by decide) (by decide) (by decide) .nil .nil))

/-- A report on a project, with the settings of a document, changes what is found. -/
def ReportChanges (fs : FileSystem) (document : String) : Prop :=
  ∃ loaded v text fs' v',
    Standards.loadFrom (Standards.oneDocument document) none "/s.toml" = .ok loaded ∧
      Validation.ofRoot fs loaded.settings none loaded.settings.standards "/app" = .ok v ∧
      Reported fs v ⟨0, 0⟩ sampleOutput text fs' ∧
      Validation.ofRoot fs' loaded.settings none loaded.settings.standards "/app" = .ok v' ∧
      ¬ (v'.issues = v.issues ∧ v'.score = v.score)

/-- A report changes what is found if the validations before and after it differ. -/
theorem reportChanges_of {fs : FileSystem} {document : String} (settings : Settings)
    (after : String → FileSystem)
    (hload : (Standards.loadFrom (Standards.oneDocument document) none "/s.toml").toOption.map
      (·.settings) = some settings)
    (hwrite : ∀ text, writeFile fs sampleOutput text = (after text, .ok ()))
    (hissues : ∀ text, ∃ v v',
      Validation.ofRoot fs settings none settings.standards "/app" = .ok v ∧
        Validation.ofRoot (after text) settings none settings.standards "/app" = .ok v' ∧
        v'.issues ≠ v.issues) :
    ReportChanges fs document := by
  cases hloaded : Standards.loadFrom (Standards.oneDocument document) none "/s.toml" with
  | error e => simp [hloaded, Except.toOption] at hload
  | ok loaded =>
      obtain rfl : loaded.settings = settings := by simpa [hloaded, Except.toOption] using hload
      -- What is found before does not depend on the text, so the text can be that of its report.
      obtain ⟨v, _, hv, _⟩ := hissues ""
      obtain ⟨text, fs', hreport⟩ := exists_reported fs sampleOutput v fun text => ⟨_, hwrite text⟩
      obtain rfl : fs' = after text :=
        (congrArg Prod.fst hreport.written).symm.trans (congrArg Prod.fst (hwrite text))
      obtain ⟨found, v', hfound, hv', hne⟩ := hissues text
      obtain rfl : found = v := Except.ok.inj (hfound.symm.trans hv)
      exact ⟨loaded, found, text, after text, v', hloaded, hv, hreport, hv', fun h => hne h.1⟩

section

variable {entries : List (String × Node)}

theorem sorted_sample (h : (Node.sortedEntries entries).mergeSort Node.inOrder = entries) :
    (sample entries).tree.sorted = (sample entries).tree := by
  simp [sample, Node.sorted, Node.sortedEntries, h]

/-- A validation of a sample sees what its walk reports. -/
theorem ofRoot_sample (h : (Node.directory entries).WellFormed) {settings : Settings}
    (hfilter : NameFilter.ofPatterns settings.scanner.exclude = .ok ⟨[], []⟩) {events : List Event}
    (hwalk : walk (sample entries) ⟨[], []⟩ settings.scanner.followLinks "/app" = events) :
    Validation.ofRoot (sample entries) settings none settings.standards "/app"
      = .ok (.ofSnapshot (Analysis.describe settings.standards "/app" events)
          settings.standards) := by
  subst hwalk
  exact Validation.ofRoot_eq (wellFormed_sample h) hfilter (locate_sample entries)
    settings.standards

end

/-- The name of the report breaks another convention. -/
theorem reportChanges_named : ReportChanges (sample [])
    "[namingRules]\nfileCasing = \"snake\"\n\n[scanner]\nexclude = []\n" := by
  let settings : Settings :=
    { standards := { naming := { fileCasing := .snake } }, scanner := { exclude := [] } }
  refine reportChanges_of settings (fun text => sample [(defaultReport, .file text.toUTF8)])
    (by decide +kernel) (fun text => rfl) ?_
  intro text
  have hwell : (sample []).tree.WellFormed := wellFormed_sample .nil
  have hwritten : Written (sample []) ["app"] defaultReport none text.toUTF8
      (sample [(defaultReport, .file text.toUTF8)]) :=
    ⟨rfl, Node.canHold_defaultReport, rfl, rfl⟩
  exact Validation.issues_ne_of_misnamed hwell rfl (locate_sample []) hwritten (by decide)
    (by decide +kernel) (fun _ => sameLinks_of_linkFree hwell (locate_sample [])
      (Node.linkFree_directory (by simp)) _ true _) rfl (by decide)

/-- The report is written through a link to a file with another name. -/
theorem reportChanges_through :
    ReportChanges (sample [(defaultReport, .link "Summary.json")])
      "[scanner]\nexclude = []\nfollowLinks = false\n" := by
  let settings : Settings := { scanner := { exclude := [], followLinks := false } }
  refine reportChanges_of settings (fun text =>
      sample [(defaultReport, .link "Summary.json"), ("Summary.json", .file text.toUTF8)])
    (by decide +kernel) (fun text => rfl) ?_
  intro text
  have hwell : (Node.directory [(defaultReport, .link "Summary.json")]).WellFormed :=
    .cons (by decide) (by decide) (by decide) (.link _) .nil
  have hwritten : Written (sample [(defaultReport, .link "Summary.json")]) ["app"] "Summary.json"
      none text.toUTF8
      (sample [(defaultReport, .link "Summary.json"), ("Summary.json", .file text.toUTF8)]) :=
    ⟨rfl, ⟨by decide, by decide⟩, rfl, rfl⟩
  exact Validation.issues_ne_of_misnamed (wellFormed_sample hwell) rfl (locate_sample _) hwritten
    (by decide) (by decide +kernel) (by simp [settings]) rfl (by decide)

/-- It is enough that different numbers of issues about files are found in what the walks report. -/
theorem reportChanges_of_walks (settings : Settings) {document : String}
    {entries : List (String × Node)} (entries' : String → List (String × Node))
    (events : List Event) (events' : String → List Event)
    (hload : (Standards.loadFrom (Standards.oneDocument document) none "/s.toml").toOption.map
      (·.settings) = some settings)
    (hfilter : NameFilter.ofPatterns settings.scanner.exclude = .ok ⟨[], []⟩)
    (hwell : (Node.directory entries).WellFormed)
    (hwell' : ∀ text, (Node.directory (entries' text)).WellFormed)
    (hwrite : ∀ text,
      writeFile (sample entries) sampleOutput text = (sample (entries' text), .ok ()))
    (hwalk : walk (sample entries) ⟨[], []⟩ settings.scanner.followLinks "/app" = events)
    (hwalk' : ∀ text,
      walk (sample (entries' text)) ⟨[], []⟩ settings.scanner.followLinks "/app" = events' text)
    (hissues : ∀ text,
      (Rules.Structure.check (Analysis.describe settings.standards "/app" (events' text))
          settings.standards).length
        ≠ (Rules.Structure.check (Analysis.describe settings.standards "/app" events)
          settings.standards).length) :
    ReportChanges (sample entries) document := by
  refine reportChanges_of settings (fun text => sample (entries' text)) hload hwrite ?_
  intro text
  refine ⟨_, _, ofRoot_sample hwell hfilter hwalk, ofRoot_sample (hwell' text) hfilter (hwalk' text), ?_⟩
  intro hsame
  exact hissues text (congrArg List.length (Rules.evaluate_eq_iff.1 hsame .structural))

/-- A link to the report leads to nothing before there is one. -/
theorem reportChanges_dangling : ReportChanges (sample [("archived.json", .link defaultReport)])
    "[scanner]\nexclude = []\n" := by
  refine reportChanges_of_walks { scanner := { exclude := [] } }
    (fun text => [("archived.json", .link defaultReport), (defaultReport, .file text.toUTF8)])
    [.unreadable ["archived.json"] .notFound]
    (fun text => [.file ["archived.json"] text.toUTF8, .file [defaultReport] text.toUTF8])
    (by decide +kernel) rfl ?_ ?_ (fun text => rfl) ?_ ?_ ?_
  · exact .cons (by decide) (by decide) (by decide) (.link _) .nil
  · intro text
    exact .cons (by decide) (by decide) (by simp [Assoc.keys, defaultReport]) (.link _)
      (.cons (by decide) (by decide) (by decide) (.file _) .nil)
  · rw [walk_of_sorted (sorted_sample (by simp [Node.sortedEntries, Node.sorted])) (locate_sample _)]
    rfl
  · intro text
    rw [walk_of_sorted (sorted_sample (by
      simp [Node.sortedEntries, Node.sorted, List.mergeSort, Node.inOrder_eq, RawName.isText,
        RawName.mark, defaultReport]))
      (locate_sample _)]
    rfl
  · intro text hlength
    have hbefore : 3 = 2 := hlength.symm
    cases hbefore

/-- The report is also behind a link to the directory of the project. -/
theorem reportChanges_behind : ReportChanges (sample [("all", .link "..")])
    "[scanner]\nexclude = []\n\n[structureRules]\nmaxDepth = 2\n" := by
  refine reportChanges_of_walks
    { standards := { structural := { maxDepth := 2 } }, scanner := { exclude := [] } }
    (fun text => [("all", .link ".."), (defaultReport, .file text.toUTF8)])
    [.directory ["all"], .directory ["all", "app"]]
    (fun text => [.directory ["all"], .directory ["all", "app"],
      .file ["all", "app", defaultReport] text.toUTF8, .file [defaultReport] text.toUTF8])
    (by decide +kernel) rfl ?_ ?_ (fun text => rfl) ?_ ?_ ?_
  · exact .cons (by decide) (by decide) (by decide) (.link _) .nil
  · intro text
    exact .cons (by decide) (by decide) (by simp [Assoc.keys, defaultReport]) (.link _)
      (.cons (by decide) (by decide) (by decide) (.file _) .nil)
  · rw [walk_of_sorted (sorted_sample (by simp [Node.sortedEntries, Node.sorted])) (locate_sample _)]
    rfl
  · intro text
    rw [walk_of_sorted (sorted_sample (by
      simp [Node.sortedEntries, Node.sorted, List.mergeSort, Node.inOrder_eq, RawName.isText,
        RawName.mark, defaultReport]))
      (locate_sample _)]
    rfl
  · intro text hlength
    have hbefore : 2 = 3 := hlength.symm
    cases hbefore

end Run
end CommandLine
end ProjectConsistency
