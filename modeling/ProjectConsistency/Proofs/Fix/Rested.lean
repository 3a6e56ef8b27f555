import ProjectConsistency.Proofs.FileSystem.Lasting
import ProjectConsistency.Proofs.Fix.Attempts
import ProjectConsistency.Proofs.Fix.Standing

/-!
# Rested — after creations the same creations do nothing

Creations may overlap: a path may be asked for as a file and as a directory, be above another, or lead
through two dots.  What one of them could not make, another may seem to make possible.  This file
defines:

* `Creation.Rested` — nothing is left of a creation that could be made;

and shows that a creation is at rest when it has been attempted (`Creation.rested_fix`), and that it
stays so whatever is added, if its path comes upon no link (`Creation.Rested.extended`).  A creation at
rest changes nothing and is not applied (`Creation.Rested.fix_eq`), so that a second run over the same
issues does nothing (`Fix.apply_scaffold_again`).  A link that leads to nothing may lead to a directory
after the first run, also if it is not in the project itself, and an empty path is made again and again
(`Fix.scaffold_again_applied`).
-/

namespace ProjectConsistency

open FileSystem

namespace Creation

variable {root project : String} {standards : Standards} {fs fs' : FileSystem} {c : Creation}

/-- Neither a directory that the creation needs nor its file can be made. -/
structure Rested (root : String) (fs : FileSystem) (c : Creation) : Prop where
  prepared : c.Prepared root fs
  taken : ∀ path, c = file path →
    ∀ content fs', fs.newFile (Path.join root path) content ≠ .ok fs'

/-! ## Coming to rest -/

/-- If a file can be made, the directory above it is there. -/
theorem makeAbove_of_newFile {path : String} {content : ByteArray}
    (h : (makeAbove fs path).1.newFile path content = .ok fs') :
    (makeAbove fs path).2 = .ok () := by
  obtain ⟨directory, name, hvacant, _⟩ := newFile_eq_ok_iff.1 h
  cases hparent : Path.parent? path with
  | none => simp [makeAbove, hparent]
  | some parent =>
      simp only [makeAbove, hparent] at hvacant ⊢
      exact makeDirectories_ok_iff.2 ((parent_of_parentOf hvacant.parent).there hparent)

/-- A file that has been made cannot be made again. -/
theorem newFile_again {path : String} {content : ByteArray}
    (h : fs.newFile path content = .ok fs') (other : ByteArray) (fs'' : FileSystem) :
    fs'.newFile path other ≠ .ok fs'' := by
  intro hagain
  have hgrown := grown_of_newFile h
  obtain ⟨directory, name, hvacant, rfl⟩ := newFile_eq_ok_iff.1 h
  obtain ⟨directory', name', hvacant', _⟩ := newFile_eq_ok_iff.1 hagain
  have hparent := parent_of_parentOf hvacant.parent
  -- It would have to be made in the same place.
  have hsame := (hgrown.parent hparent).parentOf_eq.symm.trans hvacant'.parent
  obtain ⟨rfl, rfl⟩ : directory = directory' ∧ name = name' := by simpa using hsame
  obtain ⟨inside, hinside⟩ := Node.shapeAt_eq_directory_iff.1 hparent.shapeAt
  have hmade := Node.get?_put (.file content) name hinside
  cases hmade.symm.trans hvacant'.free

/-- A file is made in a directory that is there. -/
theorem rested_of_newFile {path : String} {content : ByteArray}
    (hok : (makeAbove fs (Path.join root path)).2 = .ok ())
    (hmade : (makeAbove fs (Path.join root path)).1.newFile (Path.join root path) content = .ok fs') :
    (file path).Rested root fs' := by
  refine ⟨?_, ?_⟩
  · intro parent hparent
    rw [directory?] at hparent
    simp only [makeAbove, hparent] at hok hmade
    have hthere := makeDirectories_ok_iff.1 hok
    exact There.nothingToMake (hthere.imp_right (grown_of_newFile hmade).isDirectory)
  · rintro path' ⟨⟩ other fs''
    exact newFile_again hmade other fs''

/-- A creation that was attempted is at rest, however it ended. -/
theorem rested_fix (root project : String) (standards : Standards) (fs : FileSystem)
    (c : Creation) : c.Rested root (fix root project standards fs c).1 := by
  rw [fix_fst]
  cases c with
  | directory path =>
      refine ⟨?_, by simp⟩
      rw [run, createDirectory_fst]
      exact prepared_withDirectories root fs (directory path)
  | file path =>
      rw [run]
      have hends := fileEnds_createFile fs (Path.join root path) (Fix.scaffold path project standards)
      generalize createFile fs (Path.join root path) (Fix.scaffold path project standards)
        = result at hends ⊢
      cases hends with
      | whole hok hmade => exact rested_of_newFile hok hmade
      | torn hok _ hmade => exact rested_of_newFile hok hmade
      | refused hnot _ =>
          -- The directories are made as far as they can be, and the file could not be made in them.
          refine ⟨makeAbove_fst root path fs ▸ prepared_withDirectories root fs (file path), ?_⟩
          rintro path' ⟨⟩ content fs' hmade
          exact hnot (makeAbove_of_newFile hmade) content fs' hmade

/-! ## Staying at rest -/

/-- A creation whose path comes upon no link stays at rest when more is added. -/
theorem Rested.extended (hrested : c.Rested root fs) (h : Extended fs fs')
    (hclear : fs.Clear (Path.join root c.path)) : c.Rested root fs' := by
  refine ⟨fun path hpath => (hrested.prepared path hpath).extended h ?_, ?_⟩
  · cases c with
    | directory _ =>
        cases hpath
        exact hclear
    | file _ => exact hclear.of_parent? hpath
  rintro path rfl content fs'' hmade
  obtain ⟨made, hbefore⟩ :=
    h.newFile hclear (fun parent hparent => hrested.prepared parent hparent) hmade
  exact hrested.taken path rfl content made hbefore

theorem join_ne_empty (hroot : root ≠ "") (path : String) : Path.join root path ≠ "" := by
  have hempty : root.isEmpty = false := by simpa using hroot
  unfold Path.join
  split
  · rintro rfl
    simp [Path.isAbsolute, hempty] at *
  · split <;> simp [hroot]

/-- A file that cannot be made is not made, with any content. -/
theorem Rested.refused {path : String} (h : (file path).Rested root fs) (content : String) :
    ∃ result, createFile fs (Path.join root path) content = (fs, result) ∧
      result ≠ .ok .applied := by
  have hends := fileEnds_createFile fs (Path.join root path) content
  have habove : (makeAbove fs (Path.join root path)).1 = fs :=
    (makeAbove_fst root path fs).trans (withDirectories_eq_iff.2 h.prepared)
  generalize hresult : createFile fs (Path.join root path) content = result at hends
  cases hends with
  | whole _ hmade => exact absurd (habove ▸ hmade) (h.taken path rfl _ _)
  | torn _ _ hmade => exact absurd (habove ▸ hmade) (h.taken path rfl _ _)
  | refused _ hnot => exact ⟨_, by rw [habove], hnot⟩

/-- Only the directory with the empty path is made again. -/
theorem Rested.empty_of_applied (h : c.Rested root fs)
    (happlied : (fix root project standards fs c).2.outcome = .applied) :
    ∃ path, c = directory path ∧ Path.join root path = "" := by
  rw [outcome_eq_applied_iff] at happlied
  cases c with
  | file path =>
      obtain ⟨result, hresult, hnot⟩ := h.refused (Fix.scaffold path project standards)
      rw [run, hresult] at happlied
      exact absurd happlied hnot
  | directory path =>
      refine ⟨path, rfl, ?_⟩
      have hmakes : (fs.makeDirectories (Path.join root path)).1 = fs :=
        withDirectories_eq_iff.2 h.prepared
      rw [run] at happlied
      by_cases hthere : fs.isDirectory (Path.join root path) = true
      · simp [createDirectory, hthere, alreadyThere] at happlied
      · -- If it is made without an error it is there, and nothing was changed.
        have hok : (fs.makeDirectories (Path.join root path)).2 = .ok () := by
          rcases hmade : fs.makeDirectories (Path.join root path) with ⟨made, _ | _⟩
          · simp [createDirectory, hthere, hmade] at happlied
          · rfl
        have hmade := makeDirectories_ok_iff.1 hok
        rw [hmakes] at hmade
        exact hmade.resolve_right hthere

/-- A creation at rest is not made again. -/
theorem Rested.not_applied (h : c.Rested root fs) (hroot : root ≠ "") :
    (fix root project standards fs c).2.outcome ≠ .applied := by
  intro happlied
  obtain ⟨path, _, hempty⟩ := h.empty_of_applied happlied
  exact join_ne_empty hroot path hempty

/-- A creation at rest changes nothing. -/
theorem Rested.fix_eq (h : c.Rested root fs) : (fix root project standards fs c).1 = fs := by
  rw [fix_fst]
  cases c with
  | file path =>
      obtain ⟨result, hresult, _⟩ := h.refused (Fix.scaffold path project standards)
      rw [run, hresult]
  | directory path =>
      have hsame : (fs.makeDirectories (Path.join root path)).1 = fs :=
        withDirectories_eq_iff.2 h.prepared
      exact (createDirectory_fst fs (Path.join root path)).trans hsame

end Creation

/-! ## A second run -/

namespace Fix

/-- Fixes that change nothing one by one change nothing together. -/
theorem runAll_eq_self {α : Type} {fix : FileSystem → α → FileSystem × FixRecord}
    {fs : FileSystem} {xs : List α} (h : ∀ x ∈ xs, (fix fs x).1 = fs) :
    runAll fix fs xs = (fs, xs.map fun x => (fix fs x).2) := by
  induction xs with
  | nil => rfl
  | cons x rest ih =>
      obtain ⟨hfirst, hrest⟩ := List.forall_mem_cons.1 h
      simp [runAll, hfirst, ih hrest]

section

variable {fs : FileSystem} (hcurrent : fs.tree.shapeAt fs.current = some .directory)

include hcurrent

/-- At the end of a run all creations are at rest. -/
theorem rested_runAll {root : String} {plan : List Creation}
    (hclear : ∀ c ∈ plan, fs.Clear (Path.join root c.path)) (project : String)
    (standards : Standards) :
    ∀ c ∈ plan, c.Rested root (runAll (Creation.fix root project standards) fs plan).1 := by
  intro c hc
  -- A creation is at rest after its turn, and those after it only add something.
  obtain ⟨before, after, rfl⟩ := List.append_of_mem hc
  simp only [runAll_append, runAll]
  have hturn := Creation.grown_runAll root project standards fs before
  have hfix := Creation.grown_fix root project standards
    (runAll (Creation.fix root project standards) fs before).1 c
  have hextended : Extended fs _ := ⟨hturn.trans hfix, hcurrent⟩
  exact (Creation.rested_fix root project standards _ c).extended
    (hextended.next (Creation.grown_runAll root project standards _ after))
    ((hclear c hc).grown (hturn.trans hfix))

/--
Scaffolding is idempotent if no path that is asked for comes upon a link, as in a tree without links,
whatever the snapshot and the issues are.  The current directory has to be there, since relative paths
lead from it.  A second run with the same arguments leaves the file system exactly as the first one left
it, and no fix is applied.  Only with an empty root, which no analysis finds
(`Analysis.root_ne_empty`), the directory with the empty path is made again and again.
-/
theorem apply_scaffold_again (s : Snapshot) (standards : Standards) (formatter : Formatter)
    (issues : List Issue)
    (hclear : ∀ c ∈ Creation.plan issues, fs.Clear (Path.join s.root c.path)) :
    let first := apply fs s standards { scaffold := true } formatter issues
    let second := apply first.1 s standards { scaffold := true } formatter issues
    second.1 = first.1 ∧ (s.root ≠ "" → ∀ record ∈ second.2, record.outcome ≠ .applied) := by
  simp only [apply_scaffold_only]
  have hrested := rested_runAll hcurrent hclear s.name standards
  rw [runAll_eq_self fun c hc => (hrested c hc).fix_eq]
  refine ⟨rfl, fun hroot record hrecord => ?_⟩
  obtain ⟨c, hc, rfl⟩ := List.mem_map.1 hrecord
  exact (hrested c hc).not_applied hroot

end

/-! ## A sample -/

def overlapping : List Issue :=
  [Rules.Structure.missingFile .error "Missing required file" "made/..",
    Rules.Structure.missingFile .error "Missing required file" "made/page/",
    Rules.Structure.missingFile .error "Missing required file" "made/page",
    Rules.Structure.missingDirectory "made/page" "",
    Rules.Structure.missingDirectory "made/page/below" ""]

theorem apply_scaffold_again_overlapping :
    let formatter : Formatter := fun fs _ => (fs, .ok 0)
    let first := apply bare bareSnapshot {} { scaffold := true } formatter overlapping
    let second := apply first.1 bareSnapshot {} { scaffold := true } formatter overlapping
    first.2.map (fun record => record.outcome.isApplied)
        = [false, false, true, false, false] ∧
      second.1 = first.1 ∧ ∀ record ∈ second.2, record.outcome ≠ .applied := by
  intro formatter first second
  have hlinks : bare.tree.LinkFree := .cons .nil .nil
  obtain ⟨hsame, hrecords⟩ := apply_scaffold_again rfl bareSnapshot {} formatter overlapping
    fun c _ => .of_linkFree hlinks _
  exact ⟨by decide +kernel, hsame, hrecords (by decide)⟩

/-- Beside a project in which there is nothing is a link to a directory that is not in it yet. -/
def besideSample : FileSystem where
  tree := .directory [("app", .directory []), ("beside", .link "app/made")]

/-- Issues that ask for a file behind the link, and then for the directory to which the link leads. -/
def behindLink : List Issue :=
  [Rules.Structure.missingFile .error "Missing required file" "../beside/page",
    Rules.Structure.missingDirectory "made" ""]

/-- Which fixes of two runs with the same arguments are applied. -/
def appliedTwice (fs : FileSystem) (s : Snapshot) (issues : List Issue) : List Bool × List Bool :=
  let formatter : Formatter := fun fs _ => (fs, .ok 0)
  let first := apply fs s {} { scaffold := true } formatter issues
  let second := apply first.1 s {} { scaffold := true } formatter issues
  (first.2.map (·.outcome.isApplied), second.2.map (·.outcome.isApplied))

/-- A second run makes the file behind the link, because the first one has made the directory, although
there is no link in the project.  And where the root is the empty path, a directory with the empty path
is made both times, although there is no link at all. -/
theorem scaffold_again_applied :
    besideSample.locate true bareSnapshot.root = .ok (["app"], .directory []) ∧
      (Node.directory []).LinkFree ∧
      appliedTwice besideSample bareSnapshot behindLink = ([false, true], [true, false]) ∧
      bare.tree.LinkFree ∧
      appliedTwice bare { bareSnapshot with root := "" }
        [Rules.Structure.missingDirectory "" ""] = ([true], [true]) :=
  ⟨rfl, .nil, by decide +kernel, .cons .nil .nil, by decide +kernel⟩

end Fix
end ProjectConsistency
