import ProjectConsistency.Proofs.FileSystem.Making
import ProjectConsistency.Proofs.Fix.Effects
import ProjectConsistency.Rules.Structure

/-!
# Attempts — what a fix leaves that is not applied

Fixes are not transactions.  A rename that fails changes nothing, but a creation makes the directories
that it needs before it is known whether its file, or the last of the directories, can be made.  This
file defines:

* `Creation.directory?` — the directory that a creation needs, and `Creation.withDirectories`, the
  file system once it is made as far as it can be;
* `Creation.Prepared` — neither this directory nor one above it can be made;
* `Fix.Attempt` — a single fix, and `Fix.attempts`, the fixes that are selected, in their order.

A creation that is not applied leaves exactly the directories (`Creation.fix_of_unapplied`), so that it
changes nothing if and only if it finds the file system prepared.  The main statement is
`Fix.apply_unapplied`.
-/

namespace ProjectConsistency

open FileSystem

namespace Creation

variable {root project : String} {standards : Standards} {fs : FileSystem} {c : Creation}

/-! ## The directory that is needed -/

/-- The directory that a creation needs: the one above its file, or the one that it makes. -/
def directory? (root : String) : Creation → Option String
  | file path => Path.parent? (Path.join root path)
  | directory path => some (Path.join root path)

/-- The file system once the directory is made that a creation needs, as far as it can be. -/
def withDirectories (root : String) (fs : FileSystem) (c : Creation) : FileSystem :=
  match c.directory? root with
  | some path => (fs.makeDirectories path).1
  | none => fs

/-- Neither the directory that a creation needs nor one above it can be made. -/
def Prepared (root : String) (fs : FileSystem) (c : Creation) : Prop :=
  ∀ path, c.directory? root = some path → NothingToMake fs path

/-- Once the directories are made as far as they can be, no more can be made. -/
theorem prepared_withDirectories (root : String) (fs : FileSystem) (c : Creation) :
    c.Prepared root (c.withDirectories root fs) := by
  intro path hpath
  simp only [withDirectories, hpath]
  exact nothingToMake_makeDirectories fs path

/-- The files stay as they are just if none of the directories can be made. -/
theorem withDirectories_eq_iff : c.withDirectories root fs = fs ↔ c.Prepared root fs := by
  cases hpath : c.directory? root with
  | none => simp [withDirectories, Prepared, hpath]
  | some path => simp [withDirectories, Prepared, hpath, makeDirectories_eq_iff]

theorem grown_withDirectories (root : String) (fs : FileSystem) (c : Creation) :
    Grown fs (c.withDirectories root fs) := by
  unfold withDirectories
  cases c.directory? root with
  | none => exact .refl fs
  | some path =>
      exact makeDirectories_keeps (motive := Grown fs) (.refl fs)
        fun _ _ _ _ hgrown hmade => hgrown.trans (grown_of_makeDirectory hmade)

/-- Directories are made at free places on the way, and nothing else is done. -/
theorem run_withDirectories (root : String) (fs : FileSystem) (c : Creation) :
    ∃ places : List Location,
      Run fs (places.map fun place => .made place (.directory [])) (c.withDirectories root fs) ∧
        ∀ place ∈ places, ∃ above ∈ c.directoryPaths root,
          Reaches (c.withDirectories root fs) above place := by
  have hpaths : c.directoryPaths root = ((c.directory? root).map ancestors).getD [] := by
    cases c <;> rfl
  rw [hpaths]
  cases hpath : c.directory? root with
  | none => exact ⟨[], by simpa [withDirectories, hpath] using .done fs, by simp⟩
  | some path => simpa [withDirectories, hpath] using run_makeDirectories fs path

/-! ## Creations that are not applied -/

/-- The directory above a file is made first. -/
def makeAbove (fs : FileSystem) (path : String) : FileSystem × Except OsError Unit :=
  match Path.parent? path with
  | some parent => fs.makeDirectories parent
  | none => (fs, .ok ())

/-- How the creation of a file goes on after the directory above it. -/
def thenCreateNew (path content : String) :
    FileSystem × Except OsError Unit → FileSystem × Except Failure FixOutcome
  | (fs, .error e) => (fs, .error (.io e))
  | (fs, .ok ()) =>
      match fs.createNew path with
      | .ok (opened, place) =>
          let (fs', written) := opened.writeNew place content.toUTF8
          (fs', match written with
            | .ok () => .ok .applied
            | .error e => .error (.io e))
      | .error .exists => (fs, .ok alreadyThere)
      | .error e => (fs, .error (.fix path e.text))

/-- A file is created after the directory above it. -/
theorem createFile_eq (fs : FileSystem) (path content : String) :
    createFile fs path content = thenCreateNew path content (makeAbove fs path) := by
  unfold createFile makeAbove
  cases Path.parent? path with
  | none => rfl
  | some parent =>
      dsimp only
      rcases fs.makeDirectories parent with ⟨made, _ | _⟩ <;> rfl

/-- How the creation of a file ends, after the directory above it. -/
inductive FileEnds (path content : String) (above : FileSystem × Except OsError Unit) :
    FileSystem × Except Failure FixOutcome → Prop where
  /-- The file is made in the directory above it. -/
  | whole {after : FileSystem} (hok : above.2 = .ok ())
      (hmade : above.1.newFile path content.toUTF8 = .ok after) :
      FileEnds path content above (after, .ok .applied)
  /-- The file is made, but it does not take its whole content. -/
  | torn {after : FileSystem} {taken : Nat} {e : Failure} (hok : above.2 = .ok ())
      (htaken : taken < content.toUTF8.size)
      (hmade : above.1.newFile path (content.toUTF8.extract 0 taken) = .ok after) :
      FileEnds path content above (after, .error e)
  /-- Only the directory is left. -/
  | refused {result : Except Failure FixOutcome}
      (hnot : above.2 = .ok () → ∀ bytes after, above.1.newFile path bytes ≠ .ok after)
      (hresult : result ≠ .ok .applied) : FileEnds path content above (above.1, result)

theorem fileEnds_thenCreateNew (path content : String)
    (above : FileSystem × Except OsError Unit) :
    FileEnds path content above (thenCreateNew path content above) := by
  rcases above with ⟨made, e | ⟨⟨⟩⟩⟩
  · exact .refused (by simp) (by simp)
  · cases hfile : made.createNew path with
    | ok created =>
        obtain ⟨opened, place⟩ := created
        rcases writeNew_cases opened place content.toUTF8 with
          hwrite | ⟨taken, reason, htaken, hwrite⟩
        · have hends : FileEnds path content (made, .ok ())
              (opened.put place (.file content.toUTF8), .ok .applied) :=
            .whole rfl (newFile_of_createNew hfile _)
          simpa only [thenCreateNew, hfile, hwrite] using hends
        · have hends : FileEnds path content (made, .ok ())
              (opened.put place (.file (content.toUTF8.extract 0 taken)), .error (.io reason)) :=
            .torn rfl htaken (newFile_of_createNew hfile _)
          simpa only [thenCreateNew, hfile, hwrite] using hends
    | error e =>
        have hnot : ∀ bytes after, made.newFile path bytes ≠ .ok after := by
          simp [newFile, hfile, Except.map]
        have hends : ∀ result : Except Failure FixOutcome, result ≠ .ok .applied →
            FileEnds path content (made, .ok ()) (made, result) :=
          fun result hresult => .refused (fun _ => hnot) hresult
        -- Which error it is matters only to what is reported.
        cases e <;> simpa [thenCreateNew, hfile] using hends _ (by simp [alreadyThere])

/-- The creation of a file has one of three ends. -/
theorem fileEnds_createFile (fs : FileSystem) (path content : String) :
    FileEnds path content (makeAbove fs path) (createFile fs path content) :=
  createFile_eq fs path content ▸ fileEnds_thenCreateNew path content (makeAbove fs path)

/-- Whether a directory is there or not, the files are as after making it. -/
theorem createDirectory_fst (fs : FileSystem) (path : String) :
    (createDirectory fs path).1 = (fs.makeDirectories path).1 := by
  by_cases hthere : fs.isDirectory path = true
  · have hnothing : NothingToMake fs path := There.nothingToMake (.inr hthere)
    simp [createDirectory, hthere, hnothing.makeDirectories_eq]
  · simp only [createDirectory, hthere]
    rcases fs.makeDirectories path with ⟨made, _ | _⟩ <;> rfl

/-- Before a file is made, the directories that the creation needs are. -/
theorem makeAbove_fst (root path : String) (fs : FileSystem) :
    (makeAbove fs (Path.join root path)).1 = withDirectories root fs (file path) := by
  rw [withDirectories, makeAbove, directory?]
  split <;> rfl

/-- A creation is recorded as applied just if it succeeded. -/
theorem outcome_eq_applied_iff :
    (fix root project standards fs c).2.outcome = .applied ↔
      (run root project standards fs c).2 = .ok .applied := by
  unfold fix
  rcases run root project standards fs c with ⟨made, e | outcome⟩ <;> simp

/-- A file system after another, with a new file at a path that holds only the beginning of a
content. -/
def Torn (path content : String) (fs fs' : FileSystem) : Prop :=
  ∃ place taken, taken < content.toUTF8.size ∧ fs.placeOf? path = some place ∧
    Step fs (.made place (.file (content.toUTF8.extract 0 taken))) fs'

/-- Such a file was not there before. -/
theorem Torn.ne {path content : String} {made next : FileSystem} (h : Torn path content made next)
    (hgrown : Grown fs made) : next ≠ fs := by
  rintro rfl
  obtain ⟨place, taken, _, _, hstep⟩ := h
  cases hstep with
  | made hfree _ =>
      obtain ⟨directory, name, rfl, hdir, hnone⟩ := hfree
      have hmade := Node.shapeAt_put_append (.file (content.toUTF8.extract 0 taken)) name hdir []
      rw [List.append_nil] at hmade
      have hthere := hgrown.kept _ _ hmade
      simp [Node.shapeAt, hnone] at hthere

/-- A creation that is not applied leaves the directory that it needs, as far as it can be made, and
in it a file whose content could not be written. -/
theorem fix_of_unapplied (h : (fix root project standards fs c).2.outcome ≠ .applied) :
    (fix root project standards fs c).1 = c.withDirectories root fs ∨
      ∃ path reason, c = file path ∧
        (fix root project standards fs c).2.outcome = .failed reason ∧
        Torn (Path.join root path) (Fix.scaffold path project standards)
          (c.withDirectories root fs) (fix root project standards fs c).1 := by
  cases c with
  | file path =>
      have hends := fileEnds_createFile fs (Path.join root path) (Fix.scaffold path project standards)
      rw [Ne, outcome_eq_applied_iff, run] at h
      rw [fix_fst, run, ← makeAbove_fst]
      generalize hresult : createFile fs (Path.join root path)
        (Fix.scaffold path project standards) = result at h hends
      cases hends with
      | whole => exact absurd rfl h
      | @torn after taken e _ htaken hmade =>
          obtain ⟨place, hplace, hstep⟩ := step_of_newFile hmade
          refine .inr ⟨path, e.message, rfl, ?_, place, taken, htaken, hplace, hstep⟩
          rw [fix, run, hresult]
      | refused => exact .inl rfl
  | directory path => exact .inl (createDirectory_fst fs (Path.join root path))

/-- A directory is skipped only if it is there. -/
theorem fix_of_skipped {path reason : String}
    (h : (fix root project standards fs (directory path)).2.outcome = .skipped reason) :
    (fix root project standards fs (directory path)).1 = fs := by
  by_cases hthere : fs.isDirectory (Path.join root path) = true
  · simp [fix, run, createDirectory, hthere]
  · rcases hmade : fs.makeDirectories (Path.join root path) with ⟨made, _ | _⟩ <;>
      simp [fix, run, createDirectory, hthere, hmade] at h

end Creation

/-! ## Single fixes -/

namespace Fix

/-- A single fix. -/
inductive Attempt where
  | rename (r : Renaming)
  | create (c : Creation)
  | format (formatter : Formatter)

def Attempt.make (s : Snapshot) (standards : Standards) (fs : FileSystem) :
    Attempt → FileSystem × FixRecord
  | rename r => Renaming.fix s.root fs r
  | create c => Creation.fix s.root s.name standards fs c
  | format formatter => Fix.format s.root fs formatter

/-- The fixes that are selected for the issues of a snapshot, in the order in which they are made. -/
def attempts (s : Snapshot) (selection : FixSelection) (formatter : Formatter)
    (issues : List Issue) : List Attempt :=
  (if selection.rename then Renaming.plan s issues else []).map .rename
    ++ (if selection.scaffold then Creation.plan issues else []).map .create
    ++ (if selection.format then [formatter] else []).map .format

theorem runAll_map {α β : Type} (fix : FileSystem → β → FileSystem × FixRecord) (f : α → β)
    (fs : FileSystem) (xs : List α) :
    runAll fix fs (xs.map f) = runAll (fun fs x => fix fs (f x)) fs xs := by
  induction xs generalizing fs with
  | nil => rfl
  | cons x rest ih => simp [runAll, ih]

variable (fs : FileSystem) (s : Snapshot) (standards : Standards) (selection : FixSelection)
  (formatter : Formatter) (issues : List Issue)

/-- The selected fixes are made one after the other. -/
theorem apply_eq_runAll :
    apply fs s standards selection formatter issues
      = runAll (Attempt.make s standards) fs (attempts s selection formatter issues) := by
  simp only [apply, attempts, runAll_append, runAll_map]
  rfl

/--
A fix that fails or is skipped may leave directories behind, and a file whose content could not be
written, but nothing else.  `now` is the file system when its turn comes, and `next` the one that it
leaves.

A rename that is not applied leaves the file system as it was, and so does the creation of a directory
that is skipped.  Any other creation that is not applied adds empty directories at free places, each of
them at a path above that of the creation, or at the path itself for a directory.  This is all, unless
the content of its file cannot be written: then it fails, and there is a new file with the beginning of
the content.  So it leaves the file system as it was if and only if none of the directories could be
made and there is no such file.
-/
theorem apply_unapplied {before after : List Attempt} {x : Attempt}
    (hx : attempts s selection formatter issues = before ++ x :: after) :
    let now := (runAll (Attempt.make s standards) fs before).1
    let next := (x.make s standards now).1
    let record := (x.make s standards now).2
    (apply fs s standards selection formatter issues).2[before.length]? = some record ∧
      (record.outcome ≠ .applied →
        (∀ r, x = .rename r → next = now) ∧
        (∀ path reason, x = .create (.directory path) → record.outcome = .skipped reason →
          next = now) ∧
        ∀ c, x = .create c → ∃ made,
          (∃ places : List Location,
            Run now (places.map fun place => .made place (.directory [])) made ∧
              ∀ place ∈ places, ∃ above ∈ c.directoryPaths s.root, Reaches made above place) ∧
          (made = now ↔ c.Prepared s.root now) ∧
          (next = made ∨ ∃ path reason, c = .file path ∧ record.outcome = .failed reason ∧
            Creation.Torn (Path.join s.root path) (scaffold path s.name standards) made next) ∧
          (next = now ↔ c.Prepared s.root now ∧ next = made)) := by
  intro now next record
  refine ⟨?_, fun hrecord => ⟨?_, ?_, ?_⟩⟩
  · -- Each fix before it has one record.
    have hlength := length_runAll (Attempt.make s standards) fs before
    rw [apply_eq_runAll, hx, runAll_append, List.getElem?_append_right (by omega), hlength,
      Nat.sub_self]
    rfl
  · rintro r rfl
    cases hrun : Renaming.perform now s.root r with
    | ok made =>
        refine absurd ?_ hrecord
        simp [record, Attempt.make, Renaming.fix_of_ok hrun, Renaming.record]
    | error e => simp [next, Attempt.make, Renaming.fix_of_error hrun]
  · rintro path reason rfl hskipped
    have hfix : (Creation.fix s.root s.name standards now (.directory path)).2.outcome
        = .skipped reason := hskipped
    exact Creation.fix_of_skipped hfix
  · rintro c rfl
    have hends := Creation.fix_of_unapplied hrecord
    refine ⟨c.withDirectories s.root now, Creation.run_withDirectories s.root now c,
      Creation.withDirectories_eq_iff, hends, ?_⟩
    rw [← Creation.withDirectories_eq_iff (c := c)]
    refine ⟨fun hsame => ?_, fun ⟨hmade, hnext⟩ => hnext.trans hmade⟩
    rcases hends with hnext | ⟨path, reason, _, _, htorn⟩
    · exact ⟨hnext.symm.trans hsame, hnext⟩
    · exact absurd hsame (htorn.ne (Creation.grown_withDirectories s.root now c))

/-! ## A sample -/

/-- A project with nothing in it. -/
def bare : FileSystem where
  tree := .directory [("app", .directory [])]

/-- What is known of the project. -/
def bareSnapshot : Snapshot where
  root := "/app"
  name := "app"

/-- Issues that ask for files at paths that can be no files. -/
def unfilable : List Issue :=
  ["docs/guide/", "new/.."].map (Rules.Structure.missingFile .error "Missing required file")

theorem attempts_unfilable (formatter : Formatter) :
    attempts bareSnapshot { scaffold := true } formatter unfilable
      = [.create (.file "docs/guide/")] ++ .create (.file "new/..") :: [] := by
  have hplan : Creation.plan unfilable = [.file "docs/guide/", .file "new/.."] := by decide +kernel
  simp [attempts, hplan]

theorem apply_unapplied_skipped :
    let formatter : Formatter := fun fs _ => (fs, .ok 0)
    let now := (runAll (Attempt.make bareSnapshot {}) bare [.create (.file "docs/guide/")]).1
    let next := (Creation.fix "/app" "app" {} now (.file "new/..")).1
    (apply bare bareSnapshot {} { scaffold := true } formatter unfilable).2[1]?
        = some ⟨.createFile, "new/..", Creation.alreadyThere⟩ ∧
      ∃ made, (made = now ↔ Creation.Prepared "/app" now (.file "new/..")) ∧
        (next = now ↔ Creation.Prepared "/app" now (.file "new/..") ∧ next = made) := by
  intro formatter now next
  obtain ⟨hrecord, hnext⟩ := apply_unapplied bare bareSnapshot {} { scaffold := true } formatter
    unfilable (attempts_unfilable formatter)
  obtain ⟨made, _, hmade, _, hsame⟩ := (hnext (by decide +kernel)).2.2 _ rfl
  exact ⟨hrecord.trans (by decide +kernel), made, hmade, hsame⟩

/-- Creations that fail or are skipped leave directories behind. -/
theorem unapplied_leaves_directories :
    ¬ ∀ (fs : FileSystem) (s : Snapshot) (standards : Standards) (selection : FixSelection)
      (formatter : Formatter) (issues : List Issue) (before after : List Attempt) (x : Attempt),
      attempts s selection formatter issues = before ++ x :: after →
      ((∃ r, x = .rename r) ∨ ∃ c, x = .create c) →
      let now := (runAll (Attempt.make s standards) fs before).1
      (x.make s standards now).2.outcome ≠ .applied → (x.make s standards now).1 = now := by
  intro hall
  have hsame := hall bare bareSnapshot {} { scaffold := true } (fun fs _ => (fs, .ok 0)) unfilable []
    [.create (.file "new/..")] (.create (.file "docs/guide/")) (attempts_unfilable _)
    (.inr ⟨_, rfl⟩) (by decide +kernel)
  have hdocs := congrArg (fun fs => fs.isDirectory "/app/docs") hsame
  exact absurd hdocs (by decide +kernel)

end Fix
end ProjectConsistency
