import ProjectConsistency.Fix.Apply
import ProjectConsistency.Proofs.Fix.Taken

/-!
# The effects of fixes

Without the formatter, a list of fixes is a run of effects: renames move nodes, and creations make
directories and files.  This file defines:

* `Renaming.perform` — the file system after a rename, if it is made;
* `Renaming.move?` — the move that a rename makes, if it is made;
* `Renaming.moves` — the moves of renames that are made one after the other;

and shows that renames run exactly their moves (`Renaming.run_moves`).  For creations an induction
principle is enough: what every single making keeps, a creation keeps (`Creation.fix_keeps`), and
what every fix of a list keeps, the list keeps (`Fix.runAll_keeps`).
-/

namespace ProjectConsistency

open FileSystem

namespace Fix

variable {α : Type} {fix : FileSystem → α → FileSystem × FixRecord} {fs : FileSystem}

/-- What every single fix keeps is kept by a run of them. -/
theorem runAll_keeps {motive : FileSystem → Prop} {xs : List α} (h : motive fs)
    (keep : ∀ fs x, x ∈ xs → motive fs → motive (fix fs x).1) : motive (runAll fix fs xs).1 := by
  induction xs generalizing fs with
  | nil => exact h
  | cons x rest ih =>
      exact ih (keep fs x (by simp) h) fun fs y hy => keep fs y (List.mem_cons_of_mem _ hy)

/-- Each fix has one record. -/
theorem length_runAll (fix : FileSystem → α → FileSystem × FixRecord) (fs : FileSystem)
    (xs : List α) : (runAll fix fs xs).2.length = xs.length := by
  induction xs generalizing fs with
  | nil => rfl
  | cons x rest ih => simp [runAll, ih]

/-- Fixes are made where the fixes before them have left off. -/
theorem runAll_append (fix : FileSystem → α → FileSystem × FixRecord) (fs : FileSystem)
    (xs ys : List α) :
    runAll fix fs (xs ++ ys)
      = ((runAll fix (runAll fix fs xs).1 ys).1,
        (runAll fix fs xs).2 ++ (runAll fix (runAll fix fs xs).1 ys).2) := by
  induction xs generalizing fs with
  | nil => rfl
  | cons x rest ih => simp [runAll, ih]

/-- Without the formatter, renames come first and creations after them. -/
theorem apply_without_formatter (fs : FileSystem) (s : Snapshot) (standards : Standards)
    (rename scaffold : Bool) (formatter : Formatter) (issues : List Issue) :
    (apply fs s standards { rename, scaffold } formatter issues).1
      = (runAll (Creation.fix s.root s.name standards)
          (runAll (Renaming.fix s.root) fs (if rename then Renaming.plan s issues else [])).1
          (if scaffold then Creation.plan issues else [])).1 := rfl

/-- Only creations are made. -/
theorem apply_scaffold_only (fs : FileSystem) (s : Snapshot) (standards : Standards)
    (formatter : Formatter) (issues : List Issue) :
    apply fs s standards { scaffold := true } formatter issues
      = runAll (Creation.fix s.root s.name standards) fs (Creation.plan issues) := by
  simp [apply, runAll]

end Fix

/-! ## Renames -/

namespace Renaming

/-- The record of a rename that ends in a given way. -/
def record (r : Renaming) (outcome : FixOutcome) : FixRecord where
  kind := .rename
  target := r.source ++ " -> " ++ r.target
  outcome := outcome

/-- The file system after a rename, if it is made. -/
def perform (fs : FileSystem) (root : String) (r : Renaming) : Except Failure FileSystem :=
  (run fs root r).2.map fun _ => (run fs root r).1

/-- The move that a rename makes, if it is made. -/
def move? (root : String) (fs : FileSystem) (r : Renaming) : Option Move := do
  let _ ← (perform fs root r).toOption
  let source ← fs.placeOf? (Path.join root r.source)
  let target ← fs.placeOf? (Path.join root r.target)
  return { source, target }

/-- The moves of renames that are made one after the other. -/
def moves (root : String) : FileSystem → List Renaming → List Move
  | _, [] => []
  | fs, r :: rest => (move? root fs r).toList ++ moves root (fix root fs r).1 rest

variable {root : String} {fs fs' : FileSystem} {r : Renaming}

/-- A rename is refused where nothing is to be renamed or the new path is taken, and otherwise made at
once. -/
theorem run_eq (fs : FileSystem) (root : String) (r : Renaming) :
    run fs root r
      = if !(fs.lstat (Path.join root r.source)).isOk then
          (fs, .error (.fix (Path.join root r.source) "source no longer exists"))
        else if (fs.lstat (Path.join root r.target)).isOk then
          (fs, .error (.fix (Path.join root r.source)
            ("destination `" ++ r.target ++ "` already exists")))
        else match fs.rename (Path.join root r.source) (Path.join root r.target) with
          | .ok fs' => (fs', .ok ())
          | .error e => (fs, .error (.fix (Path.join root r.source) e.text)) := by
  simp only [run, isTaken_eq]
  by_cases htarget : (fs.lstat (Path.join root r.target)).isOk = true
  · simp [htarget]
  · -- Where nothing has the path there is no reason for two steps.
    cases fs.rename (Path.join root r.source) (Path.join root r.target) <;> simp [htarget]

/-- A rename succeeds if its source is there, its target is free and the system makes it. -/
theorem perform_eq (fs : FileSystem) (root : String) (r : Renaming) :
    perform fs root r
      = if !(fs.lstat (Path.join root r.source)).isOk then
          .error (.fix (Path.join root r.source) "source no longer exists")
        else if (fs.lstat (Path.join root r.target)).isOk then
          .error (.fix (Path.join root r.source)
            ("destination `" ++ r.target ++ "` already exists"))
        else (fs.rename (Path.join root r.source) (Path.join root r.target)).mapError
          fun e => .fix (Path.join root r.source) e.text := by
  rw [perform, run_eq]
  by_cases hsource : (fs.lstat (Path.join root r.source)).isOk = true
  · by_cases htarget : (fs.lstat (Path.join root r.target)).isOk = true
    · simp [hsource, htarget, Except.map]
    · cases hrename : fs.rename (Path.join root r.source) (Path.join root r.target) <;>
        simp [hsource, htarget, Except.map, Except.mapError]
  · simp [hsource, Except.map]

/-- A rename is made only if nothing is found at the new path. -/
theorem rename_of_perform (h : perform fs root r = .ok fs') :
    (fs.lstat (Path.join root r.target)).isOk = false ∧
      fs.rename (Path.join root r.source) (Path.join root r.target) = .ok fs' := by
  rw [perform_eq] at h
  by_cases hsource : (fs.lstat (Path.join root r.source)).isOk = true
  · by_cases htarget : (fs.lstat (Path.join root r.target)).isOk = true
    · simp [hsource, htarget] at h
    · refine ⟨by simpa using htarget, ?_⟩
      cases hrename : fs.rename (Path.join root r.source) (Path.join root r.target) with
      | error e => simp [hsource, htarget, hrename, mapError_error] at h
      | ok made => simpa [hsource, htarget, hrename, mapError_ok] using h
  · simp [hsource] at h

theorem fix_of_ok (h : perform fs root r = .ok fs') :
    fix root fs r = (fs', r.record .applied) := by
  unfold fix
  rw [perform] at h
  rcases hrun : run fs root r with ⟨after, _ | _⟩
  · simp [hrun, Except.map] at h
  · obtain rfl : after = fs' := by simpa [hrun, Except.map] using h
    rfl

/-- A rename that fails leaves the files as they were. -/
theorem fix_of_error {e : Failure} (h : perform fs root r = .error e) :
    fix root fs r = (fs, r.record (.failed e.message)) := by
  unfold fix
  rw [perform] at h
  rw [run_eq] at h ⊢
  split_ifs at h ⊢ with hsource htarget
  · obtain rfl := Except.error.inj h
    rfl
  · obtain rfl := Except.error.inj h
    rfl
  · cases hrename : fs.rename (Path.join root r.source) (Path.join root r.target) with
    | ok made => simp [hrename, Except.map] at h
    | error reason =>
        obtain rfl : .fix (Path.join root r.source) reason.text = e := by
          simpa [hrename, Except.map] using h
        rfl

/-- A rename that succeeds is one move, to a place that was free. -/
theorem step_of_perform (h : perform fs root r = .ok fs') :
    ∃ m, move? root fs r = some m ∧ Step fs (.moved m) fs' := by
  rcases rename_of_perform h with ⟨hlstat, hrename⟩
  rcases step_of_rename hrename hlstat with ⟨m, hsource, htarget, hstep⟩
  exact ⟨m, by simp [move?, h, hsource, htarget, Except.toOption], hstep⟩

/-- A list of renames runs the moves that it makes. -/
theorem run_moves (root : String) (fs : FileSystem) (plan : List Renaming) :
    Run fs ((moves root fs plan).map .moved) (Fix.runAll (fix root) fs plan).1 := by
  induction plan generalizing fs with
  | nil => exact .done fs
  | cons r rest ih =>
      have hrest := ih (fix root fs r).1
      -- A rename that fails is no move, and leaves the files to the next one.
      cases hrun : perform fs root r with
      | error e =>
          have hnone : move? root fs r = none := by simp [move?, hrun, Except.toOption]
          rw [fix_of_error hrun] at hrest
          simpa [moves, hnone, Fix.runAll, fix_of_error hrun] using hrest
      | ok made =>
          rcases step_of_perform hrun with ⟨m, hm, hstep⟩
          rw [fix_of_ok hrun] at hrest
          simpa [moves, hm, Fix.runAll, fix_of_ok hrun] using Run.next hstep hrest

end Renaming

/-! ## Creations -/

namespace Creation

variable {motive : FileSystem → Prop} {fs : FileSystem}

/-- What making a directory above the file and making the file keep is kept by the creation of a
file. -/
theorem createFile_keeps {path content : String} (h : motive fs)
    (keepDirectory : ∀ fs fs' parent p, Path.parent? path = some parent → p ∈ ancestors parent →
      motive fs → fs.makeDirectory p = .ok fs' → motive fs')
    (keepFile : ∀ fs fs' bytes, motive fs → fs.newFile path bytes = .ok fs' → motive fs') :
    motive (createFile fs path content).1 := by
  unfold createFile
  -- The directories above come first, and what is made of them stays if the file fails.
  cases hparent : Path.parent? path with
  | none =>
      dsimp only
      cases hfile : fs.createNew path with
      | ok created =>
          obtain ⟨bytes, hmade⟩ := newFile_of_writeNew hfile content.toUTF8
          exact keepFile fs _ bytes h hmade
      | error e => cases e <;> exact h
  | some parent =>
      have above : motive (fs.makeDirectories parent).1 :=
        makeDirectories_keeps h fun fs fs' p hp => keepDirectory fs fs' parent p hparent hp
      dsimp only
      cases hmade : fs.makeDirectories parent with
      | mk made result =>
          rw [hmade] at above
          cases result with
          | error e => exact above
          | ok _ =>
              dsimp only
              cases hfile : made.createNew path with
              | ok created =>
                  obtain ⟨bytes, hmade⟩ := newFile_of_writeNew hfile content.toUTF8
                  exact keepFile made _ bytes above hmade
              | error e => cases e <;> exact above

/-- What making each of the directories keeps is kept by the creation of a directory. -/
theorem createDirectory_keeps {path : String} (h : motive fs)
    (keepDirectory : ∀ fs fs' p, p ∈ ancestors path → motive fs → fs.makeDirectory p = .ok fs' →
      motive fs') : motive (createDirectory fs path).1 := by
  have hkept : motive (fs.makeDirectories path).1 := makeDirectories_keeps h keepDirectory
  by_cases hthere : fs.isDirectory path = true
  · simpa [createDirectory, hthere] using h
  · cases hmade : fs.makeDirectories path with
    | mk made result =>
        rw [hmade] at hkept
        cases result with
        | ok _ => simpa [createDirectory, hthere, hmade] using hkept
        | error e => simpa [createDirectory, hthere, hmade] using hkept

def directoryPaths (root : String) : Creation → List String
  | file path => ((Path.parent? (Path.join root path)).map ancestors).getD []
  | directory path => ancestors (Path.join root path)

theorem fix_fst (root project : String) (standards : Standards) (fs : FileSystem) (c : Creation) :
    (fix root project standards fs c).1 = (run root project standards fs c).1 := rfl

/-- What making a directory and making a file keep is kept by a creation. -/
theorem fix_keeps {root project : String} {standards : Standards} {c : Creation} (h : motive fs)
    (keepDirectory : ∀ fs fs' p, p ∈ directoryPaths root c → motive fs →
      fs.makeDirectory p = .ok fs' → motive fs')
    (keepFile : ∀ fs fs' path bytes, c = file path → motive fs →
      fs.newFile (Path.join root path) bytes = .ok fs' → motive fs') :
    motive (fix root project standards fs c).1 := by
  rw [fix_fst]
  cases c with
  | file path =>
      rw [run]
      exact createFile_keeps h
        (fun fs fs' parent p hparent hp =>
          keepDirectory fs fs' p (by simpa [directoryPaths, hparent]))
        (fun fs fs' bytes => keepFile fs fs' path bytes rfl)
  | directory path =>
      rw [run]
      exact createDirectory_keeps h keepDirectory

end Creation

end ProjectConsistency
