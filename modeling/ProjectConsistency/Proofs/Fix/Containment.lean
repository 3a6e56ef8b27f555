import ProjectConsistency.CommandLine.Run
import ProjectConsistency.Proofs.FileSystem.Inside
import ProjectConsistency.Proofs.Fix.Relabelling

/-!
# Containment — fixes that stay inside the project

Fixes take paths from two sources: the walk, which follows links, and the rules, which may ask for any
path.  Neither is checked before a fix is made.  So fixes can leave the project, and one sample does
(`Fix.apply_leaves_leaky`).

If the links of the project keep inside it and the rules ask for paths inside it, each rename and each
creation keeps the root (`Renaming.kept_fix`, `Creation.kept_fix`).  By induction on the two plans,
fixes change nothing outside the project (`Fix.apply_stays_inside`).
-/

namespace ProjectConsistency

open FileSystem Walk.Event

/-! ## Paths in the root -/

namespace FileSystem

variable {root : Location}

/-- A path that keeps inside the root leads down to it, or into it. -/
theorem downward_join (hplain : ∀ name ∈ root, PlainName name) {path : String}
    (h : keepsInside root 0 path = true) : Downward root (Path.join (pathOf root) path) := by
  refine ⟨fromTop_join (fromTop_pathOf root) path, ?_⟩
  -- A path from the top replaces the root when it is joined to it.
  by_cases htop : fromTop path = true
  · have hparts : root <+: namesOf path ∧ ".." ∉ namesOf path := by
      simpa [keepsInside, htop] using h
    rcases hparts with ⟨⟨rest, hrest⟩, hdots⟩
    rw [join_of_fromTop _ htop]
    have hall : namesOf path <+: root ++ rest := ⟨[], by rw [List.append_nil, hrest]⟩
    exact ⟨rest, hall, fun hmem => hdots (hrest ▸ List.mem_append_right _ hmem)⟩
  · have hrelative : fromTop path = false := by simpa using htop
    rw [namesOf_join _ hrelative, namesOf_pathOf hplain]
    refine ⟨namesOf path, List.prefix_rfl, not_mem_of_staysBelow_zero ?_⟩
    simpa [keepsInside, htop] using h

/-- The names of a joined path are those of the root and then those of the relative one. -/
theorem namesOf_join_pathText (hplain : ∀ name ∈ root, PlainName name) {path : List String}
    (hne : path ≠ []) (h : ∀ name ∈ path, PlainName name) :
    namesOf (Path.join (pathOf root) (pathText path)) = root ++ path := by
  rw [join_pathOf hplain hne h, namesOf_pathOf (List.forall_mem_append.2 ⟨hplain, h⟩)]

end FileSystem

/-! ## Renames -/

namespace Renaming

open Rules.Naming

variable {fs before : FileSystem} {settings : Settings} {path : String} {s : Snapshot}
  {root : Location}

/-- Whatever links there are, a planned rename changes only the last name of a path. -/
theorem names_of_planned (hfs : fs.tree.WellFormed) (hs : Analysis.analyze fs settings path = .ok s)
    (standards : Standards) {r : Renaming} (hr : r ∈ plan s (Rules.evaluate s standards)) :
    ∃ above old new, r = ⟨pathText (above ++ [old]), pathText (above ++ [new])⟩ ∧
      (∀ name ∈ above, PlainName name) ∧ PlainName old ∧ PlainName new := by
  have listed := Analysis.listed_of_analyze hfs hs
  -- Directories and files differ only in the name that is wanted.
  have entry : ∀ {wanted : String → Option String} {text : String},
      KeepsPlain wanted → text ∈ s.directories ++ s.files → forPath? wanted text = some r →
      ∃ above old new, r = ⟨pathText (above ++ [old]), pathText (above ++ [new])⟩ ∧
        (∀ name ∈ above, PlainName name) ∧ PlainName old ∧ PlainName new := by
    intro wanted text hkeeps htext hentry
    rcases listed text htext with ⟨names, hne, rfl, hplain⟩
    obtain ⟨above, old, rfl⟩ : ∃ above old, names = above ++ [old] :=
      ⟨_, _, (List.dropLast_concat_getLast hne).symm⟩
    have hold : PlainName old := hplain old (by simp)
    rcases cases_of_forPath? hkeeps hold hentry with ⟨new, hnew, _, rfl⟩
    exact ⟨above, old, new, rfl, fun name hname => hplain name (List.mem_append_left _ hname), hold,
      hkeeps old new hold hnew⟩
  rw [(plan_perm s _).mem_iff, asked_eq] at hr
  rcases List.mem_append.1 hr with hr | hr
  · rcases List.mem_filterMap.1 hr with ⟨text, htext, hentry⟩
    exact entry (keepsPlain_directoryName _) (List.mem_append_left _ htext) hentry
  · rcases List.mem_filterMap.1 hr with ⟨text, htext, hentry⟩
    exact entry (keepsPlain_fileName _) (List.mem_append_right _ htext) hentry

/-- A planned rename keeps a fenced root. -/
theorem kept_fix (hroot : ∀ name ∈ root, PlainName name ∧ name.utf8ByteSize ≤ nameLimit)
    (h : Kept root before fs) {above : List String} {old new : String}
    (habove : ∀ name ∈ above, PlainName name) (hold : PlainName old) (hnew : PlainName new) :
    Kept root before (fix (pathOf root) fs
      ⟨pathText (above ++ [old]), pathText (above ++ [new])⟩).1 := by
  have hplain : ∀ name ∈ root, PlainName name := fun name hname => (hroot name hname).1
  have plain : ∀ {last : String}, PlainName last → ∀ name ∈ above ++ [last], PlainName name :=
    fun hlast => List.forall_mem_append.2 ⟨habove, by simpa using hlast⟩
  cases hrun : perform fs (pathOf root) ⟨pathText (above ++ [old]), pathText (above ++ [new])⟩ with
  | error e => rwa [fix_of_error hrun]
  | ok fs' =>
      rw [fix_of_ok hrun]
      rcases rename_of_perform hrun with ⟨hlstat, hrename⟩
      refine h.rename (fun name hname => (hplain name hname).entryName (hroot name hname).2)
        (fromTop_join (fromTop_pathOf root) _) (fromTop_join (fromTop_pathOf root) _)
        (namesOf_join_pathText hplain (by simp) (plain hold))
        (namesOf_join_pathText hplain (by simp) (plain hnew)) ?_ hrename hlstat
      exact fun hmem => (plain hold ".." hmem).ne_dots rfl

end Renaming

/-! ## Creations -/

namespace Creation

variable {s : Snapshot} {standards : Standards} {issue : Issue} {c : Creation}

theorem ofIssue?_eq_none (hstructural : issue.category ≠ .structural)
    (hdocumentation : issue.category ≠ .documentation) : ofIssue? issue = none := by
  unfold ofIssue?
  cases hcategory : issue.category with
  | structural => exact absurd hcategory hstructural
  | documentation => exact absurd hcategory hdocumentation
  | _ => rfl

/-- A creation is made at a path that the rules ask for. -/
theorem path_of_ofIssue? {category : Category} {paths : List String}
    (hcreates : issue.CreatesAt category paths) (h : ofIssue? issue = some c) : c.path ∈ paths := by
  have hbind : issue.remedy.bind ofRemedy? = some c := by
    unfold ofIssue? at h
    cases hcategory : issue.category <;> simp_all
  rcases Option.bind_eq_some_iff.1 hbind with ⟨remedy, hremedy, hc⟩
  rcases hcreates.remedy remedy hremedy with ⟨path, hpath, rfl | rfl⟩
  · obtain rfl : Creation.file path = c := Option.some.inj hc
    exact hpath
  · obtain rfl : Creation.directory path = c := Option.some.inj hc
    exact hpath

/-- What is created is what the rules ask for. -/
theorem path_of_planned (h : c ∈ plan (Rules.evaluate s standards)) :
    c.path ∈ requestedPaths standards := by
  rw [plan, Uniques.mem_ofList] at h
  rcases List.mem_filterMap.1 h with ⟨issue, hissue, hc⟩
  have other : ∀ {category : Category}, category ≠ .structural → category ≠ .documentation →
      issue.category = category → c.path ∈ requestedPaths standards := by
    rintro category hstructural hdocumentation rfl
    rw [ofIssue?_eq_none hstructural hdocumentation] at hc
    cases hc
  simp only [Rules.evaluate_eq, List.mem_append] at hissue
  rcases hissue with hissue | hissue | hissue | hissue | hissue
  · exact path_of_ofIssue? (Rules.Structure.createsAt hissue) hc
  · exact other (by decide) (by decide) (Rules.Naming.category_of_mem hissue)
  · exact other (by decide) (by decide) (Rules.Style.category_of_mem hissue)
  · exact path_of_ofIssue? (Rules.Documentation.createsAt hissue) hc
  · exact other (by decide) (by decide) (Rules.Configuration.category_of_mem hissue)

/-- Directories are made on the way to the path of the creation only. -/
theorem isAbove_of_mem_directoryPaths {root above : String}
    (h : above ∈ directoryPaths root c) : IsAbove above (Path.join root c.path) := by
  cases c with
  | directory path => exact isAbove_of_mem_ancestors h
  | file path =>
      cases hparent : Path.parent? (Path.join root path) with
      | none => simp [directoryPaths, hparent] at h
      | some parent =>
          have hmem : above ∈ ancestors parent := by simpa [directoryPaths, hparent] using h
          exact (isAbove_of_mem_ancestors hmem).trans (isAbove_of_parent? hparent)

/-- A creation at a path that keeps inside a fenced root keeps the root. -/
theorem kept_fix {root : Location} {before fs : FileSystem}
    (hroot : ∀ name ∈ root, PlainName name ∧ name.utf8ByteSize ≤ nameLimit)
    (h : Kept root before fs) (project : String) (standards : Standards)
    (hpath : keepsInside root 0 c.path = true) :
    Kept root before (fix (pathOf root) project standards fs c).1 := by
  have hnames : ∀ name ∈ root, EntryName name := fun name hname =>
    (hroot name hname).1.entryName (hroot name hname).2
  have hdown := downward_join (fun name hname => (hroot name hname).1) hpath
  apply fix_keeps (motive := Kept root before) h
  · intro fs₁ fs₂ above hmem hfs₁ hmade
    exact hfs₁.makeDirectory hnames (hdown.of_isAbove (isAbove_of_mem_directoryPaths hmem)) hmade
  · rintro fs₁ fs₂ path bytes rfl hfs₁ hmade
    exact hfs₁.newFile hnames hdown hmade

end Creation

/-! ## All fixes -/

namespace Fix

variable {fs : FileSystem} {settings : Settings} {path : String} {s : Snapshot} {root : Location}
  {project : Node} {standards : Standards}

/-- The renames and creations for a snapshot keep a fenced root. -/
theorem kept_apply (hfs : fs.tree.WellFormed)
    (hlocate : fs.locate true path = .ok (root, project))
    (hs : Analysis.analyze fs settings path = .ok s) (hname : s.root = pathOf root)
    (hthere : fs.tree.shapeAt root = some .directory) (hlinks : Fenced fs.tree root)
    (rename scaffold : Bool)
    (hpaths : scaffold = true → ∀ p ∈ requestedPaths standards, keepsInside root 0 p = true)
    (formatter : Formatter) :
    Kept root fs (apply fs s standards { rename, scaffold } formatter
      (Rules.evaluate s standards)).1 := by
  have hroot := hfs.names_of_get? (Analysis.get?_of_locate hlocate)
  rw [apply_without_formatter, hname]
  -- The creations come after the renames, which are made on the files as they are.
  apply runAll_keeps
  · apply runAll_keeps ⟨hthere, hlinks, fun _ _ => rfl⟩
    intro fs₁ r hr hfs₁
    have hplanned : r ∈ Renaming.plan s (Rules.evaluate s standards) := by
      cases rename with
      | true => exact hr
      | false => simp at hr
    rcases Renaming.names_of_planned hfs hs standards hplanned with
      ⟨above, old, new, rfl, habove, hold, hnew⟩
    exact Renaming.kept_fix hroot hfs₁ habove hold hnew
  · intro fs₁ c hc hfs₁
    cases scaffold with
    | true =>
        have hpath := hpaths rfl c.path (Creation.path_of_planned hc)
        exact Creation.kept_fix hroot hfs₁ s.name standards hpath
    | false => simp at hc

/-- A project with a link to its root, in a directory that breaks the convention. -/
def fencedSample : FileSystem where
  tree := .directory [("p", .directory [("Notes", .directory [("back", .link "..")])])]

/-- What the analysis finds. -/
def fencedSnapshot : Snapshot :=
  Analysis.describe Renaming.sampleSettings.standards "/p" [.directory ["Notes"]]

theorem wellFormed_fencedSample : fencedSample.tree.WellFormed :=
  have hnotes : (Node.directory [("back", .link "..")]).WellFormed :=
    .cons (by decide) (by decide) (by decide) (.link _) .nil
  have hproject : (Node.directory [("Notes", .directory [("back", .link "..")])]).WellFormed :=
    .cons (by decide) (by decide) (by decide) hnotes .nil
  .cons (by decide) (by decide) (by decide) hproject .nil

/-- In a directory with one entry, there is nothing but what is in that entry. -/
theorem get?_only {only : String} {inner node : Node} {at' : Location} (hne : at' ≠ [])
    (h : (Node.directory [(only, inner)]).get? at' = some node) :
    ∃ rest, at' = only :: rest ∧ inner.get? rest = some node := by
  cases at' with
  | nil => exact absurd rfl hne
  | cons name rest =>
      by_cases hname : only = name
      · exact ⟨rest, by rw [hname], by simpa [Node.get?, Assoc.find?, hname] using h⟩
      · simp [Node.get?, Assoc.find?, hname] at h

/-- The link in the sample does not lead out of the project. -/
theorem fenced_fencedSample : Fenced fencedSample.tree ["p"] := by
  intro below name target hlink
  rcases Option.map_eq_some_iff.1 hlink with ⟨node, hnode, hshape⟩
  -- Down the only way there is: the link is the only entry of the only entry.
  rcases get?_only (by simp) hnode with ⟨inProject, hproject, hnode⟩
  obtain rfl : below ++ [name] = inProject := by simpa using hproject
  rcases get?_only (by simp) hnode with ⟨inNotes, hnotes, hnode⟩
  by_cases hend : inNotes = []
  · subst hend
    cases hnode
    cases hshape
  · rcases get?_only hend hnode with ⟨inLink, rfl, hnode⟩
    cases inLink with
    | cons _ _ => cases hnode
    | nil =>
        cases hnode
        cases hshape
        have hboth : below ++ [name] = ["Notes"] ++ ["back"] := hnotes
        obtain ⟨rfl, rfl⟩ : below = ["Notes"] ∧ name = "back" := by
          simpa using List.append_inj' hboth rfl
        decide

theorem analyze_fencedSample :
    Analysis.analyze fencedSample Renaming.sampleSettings "/p" = .ok fencedSnapshot := by
  have hsorted : fencedSample.tree.sorted = fencedSample.tree := by
    simp [fencedSample, Node.sorted, Node.sortedEntries]
  have hwalk : Walk.walk fencedSample ⟨[], []⟩ true "/p" = [.directory ["Notes"]] := by
    rw [Walk.walk_of_sorted hsorted rfl]
    rfl
  exact Analysis.analyze_eq_ok wellFormed_fencedSample rfl rfl (by decide) hwalk

/-- A document that asks for a file beside the project. -/
def leakyDocument : String :=
  "[structureRules]\nrequiredFiles = [\"../escape.md\"]\n\n[scanner]\nexclude = []\n"

/-- What the document holds. -/
def leakySettings : Settings where
  standards := { structural := { requiredFiles := ["../escape.md"] } }
  scanner := { exclude := [] }

/-- A project with a document, and a link to a directory beside it. -/
def leakyProject (document : ByteArray) : Node :=
  .directory [(".consistency.toml", .file document), ("linked", .link "../other")]

/-- A file system with the project, and a file beside it that breaks the convention. -/
def leaky (document : ByteArray) : FileSystem where
  tree := .directory [
    ("app", leakyProject document),
    ("other", .directory [("Bad.ts", .file ⟨#[120]⟩)])]

/-- What the analysis finds. -/
def leakySnapshot (document : ByteArray) : Snapshot :=
  Analysis.describe leakySettings.standards "/app"
    [.file [".consistency.toml"] document, .directory ["linked"], .file ["linked", "Bad.ts"] ⟨#[120]⟩]

section

variable (document : ByteArray)

theorem wellFormed_leaky : (leaky document).tree.WellFormed :=
  have hother : (Node.directory [("Bad.ts", .file ⟨#[120]⟩)]).WellFormed :=
    .cons (by decide) (by decide) (by decide) (.file _) .nil
  have hlinked : (Node.directory [("linked", .link "../other")]).WellFormed :=
    .cons (by decide) (by decide) (by decide) (.link _) .nil
  have hproject : (leakyProject document).WellFormed :=
    .cons (by decide) (by decide) (by decide) (.file _) hlinked
  .cons (by decide) (by decide) (by decide) hproject
    (.cons (by decide) (by decide) (by decide) hother .nil)

theorem sorted_leaky : (leaky document).tree.sorted = (leaky document).tree := by
  have hproject : ∀ a b, [(".consistency.toml", a), ("linked", b)].Pairwise
      fun x y => Node.inOrder x y = true := by
    intro a b
    simp [Node.inOrder_eq, RawName.isText, RawName.mark]
  have htop : ∀ a b, [("app", a), ("other", b)].Pairwise fun x y => Node.inOrder x y = true := by
    intro a b
    simp [Node.inOrder_eq, RawName.isText, RawName.mark]
  simp [leaky, leakyProject, Node.sorted, Node.sortedEntries, List.mergeSort_of_pairwise, htop,
    hproject]

theorem walk_leaky :
    Walk.walk (leaky document) ⟨[], []⟩ true "/app"
      = [.file [".consistency.toml"] document, .directory ["linked"],
        .file ["linked", "Bad.ts"] ⟨#[120]⟩] := by
  have hlocate : (leaky document).locate true "/app" = .ok (["app"], leakyProject document) := rfl
  have hcount : (leaky document).tree.directoryCount = 3 := rfl
  have hlinked : follow (leaky document).tree true linkLimit [] ["app", "linked"]
      = .ok (.found ["other"] (.directory [("Bad.ts", .file ⟨#[120]⟩)])) := rfl
  have hstart : (leaky document).start "/app" = [] := rfl
  have hnames : namesOf "/app" = ["app"] := rfl
  rw [Walk.walk_of_sorted (sorted_leaky document) hlocate, hcount, hstart, hnames]
  simp [leakyProject, Node.entries, Walk.enter, Walk.visitEntries, Walk.visitNode, Walk.visitLink,
    Walk.passage, Walk.Plan.examine, Walk.noFailure, Walk.Plan.follow, NameFilter.isExcluded, hlinked,
    Walk.isCovered, Walk.Position.linked]

theorem analyze_leaky :
    Analysis.analyze (leaky document) leakySettings "/app" = .ok (leakySnapshot document) := by
  have hlocate : (leaky document).locate true "/app" = .ok (["app"], leakyProject document) := rfl
  exact Analysis.analyze_eq_ok (wellFormed_leaky document) rfl hlocate (by decide)
    (walk_leaky document)

end

theorem plan_leaky :
    let s := leakySnapshot leakyDocument.toUTF8
    Renaming.plan s (Rules.evaluate s leakySettings.standards)
      = [⟨"linked/Bad.ts", "linked/bad.ts"⟩] := by
  intro s
  have hasked : (Rules.evaluate s leakySettings.standards).filterMap Renaming.ofIssue?
      = [⟨"linked/Bad.ts", "linked/bad.ts"⟩] := by
    rw [Renaming.asked_eq]
    decide +kernel
  have hfile : Renaming.concernsDirectory s ⟨"linked/Bad.ts", "linked/bad.ts"⟩ = false := by
    decide +kernel
  simp [Renaming.plan, hasked, hfile]

end Fix

end ProjectConsistency
