import ProjectConsistency.Proofs.CommandLine.Reported

/-!
# Initialised — what is left of the files when a standards document is written

A standards document is not written over a file unless this is forced.  Whether there is a file is looked
up before the directories above the document are made.  This file defines:

* `CommandLine.Run.IsPreset` — the name of a preset, or none.

A refusal changes nothing (`files_of_init_refused`).  Otherwise a file keeps its content just if the path is
not revealed by the making of directories to lead to it (`init_keeps_iff`, `init_overwrites`).
-/

namespace ProjectConsistency

open FileSystem

namespace CommandLine
namespace Run

variable {fs : FileSystem} {preset : Option String} {output text : String} {force : Bool}
  {at' : Location} {content : ByteArray}

/-! ## Refusals -/

/-- There is a preset with the name, if there is a name. -/
def IsPreset (preset : Option String) : Prop :=
  ∀ name, preset = some name → (Preset.find? name).isSome = true

/-- A document is refused if a file is in its place or there is no preset of the name, and in no
other case. -/
theorem checkInit_cases (fs : FileSystem) (preset : Option String) (output : String) (force : Bool) :
    (∃ reason, checkInit fs preset output force = .error (.configuration reason)) ∧
        ((fs.exists? output = true ∧ force = false) ∨ ¬ IsPreset preset) ∨
      checkInit fs preset output force = .ok () ∧
        ¬ (fs.exists? output = true ∧ force = false) ∧ IsPreset preset := by
  by_cases hthere : fs.exists? output = true ∧ force = false
  · exact .inl ⟨⟨_, by rw [checkInit.eq_def, if_pos (by simpa using hthere)]⟩, .inl hthere⟩
  · rw [checkInit.eq_def, if_neg (by simpa using hthere)]
    cases preset with
    | none => exact .inr ⟨rfl, hthere, fun name hname => by cases hname⟩
    | some name =>
        simp only [Standards.presetDocument]
        cases hfind : Preset.find? name with
        | none =>
            refine .inl ⟨⟨_, rfl⟩, .inr fun hpreset => ?_⟩
            simpa [hfind] using hpreset name rfl
        | some document =>
            refine .inr ⟨rfl, hthere, fun other hother => ?_⟩
            cases hother
            rw [hfind]
            rfl

/-! ## Writes -/

/-- The making of directories leaves a file as it was. -/
theorem get?_prepared (hfile : fs.tree.get? at' = some (.file content)) (output : String) :
    (fs.prepared output).1.tree.get? at' = some (.file content) :=
  Node.shapeAt_eq_file_iff.1
    ((grown_prepared fs output).kept _ _ (Node.shapeAt_eq_file_iff.2 hfile))

/-- A file that is revealed is written. -/
theorem get?_writeFile_of_revealed (h : Revealed fs output at') (text : String) :
    (writeFile fs output text).1.tree.get? at' = some (.file text.toUTF8) := by
  obtain ⟨old, hlocate⟩ := h.leads
  have hwritten := write_of_locate hlocate text.toUTF8
  have hfile := (leads_of_locate hlocate).get?_of_found
  have htop := (grown_prepared fs output).kept _ _ (doublesBack_of_revealed h).shapeAt_nil
  rcases writeFile_cases fs output text with ⟨e, _, hrefused⟩ | ⟨fs', hdone, _, hwrite⟩
  · cases (hrefused h.made).symm.trans hwritten
  · obtain rfl := Except.ok.inj (hwrite.symm.trans hwritten)
    rw [hdone]
    exact get?_put_file hfile htop _

/-- Any other file keeps its content if the path led nowhere. -/
theorem get?_writeFile_of_not_revealed (hfile : fs.tree.get? at' = some (.file content))
    (hnowhere : fs.exists? output = false) (h : ¬ Revealed fs output at') (text : String) :
    (writeFile fs output text).1.tree.get? at' = some (.file content) := by
  have hkept := get?_prepared hfile output
  rcases writeFile_cases fs output text with ⟨e, hdone, _⟩ | ⟨fs', hdone, hmade, hwrite⟩
  · rw [hdone]
    exact hkept
  · rw [hdone]
    -- What was written is another file, or it is at a place that was free.
    rcases cases_of_write hwrite with ⟨place, old, hlocate, rfl⟩ | ⟨place, hfree, rfl⟩
    · have hother := (leads_of_locate hlocate).get?_of_found
      refine get?_put_of_ne hkept ?_ ?_ _
      · rw [Node.shapeAt_of_get? hother]
        simp [Node.shape]
      · rintro rfl
        exact h ⟨hnowhere, hmade, old, hlocate⟩
    · obtain ⟨_, _, _, _, hnone⟩ := hfree
      refine get?_put_of_ne hkept (by simp [Node.shapeAt, hnone]) ?_ _
      rintro rfl
      cases hnone.symm.trans hkept

/-! ## Standards documents -/

/-- A run that is refused changes nothing. -/
theorem init_eq_of_refused {e : Failure} (h : checkInit fs preset output force = .error e) :
    init fs preset output force = (fs, .error e) := by
  rw [init, h]

theorem init_eq_of_checked (h : checkInit fs preset output force = .ok ()) :
    init fs preset output force = writeFile fs output (Standards.template preset) := by
  rw [init, h]

/-- The document is refused just if there is something already and it is not forced, or if there is no such
preset. -/
theorem init_refused_iff (fs : FileSystem) (preset : Option String) (output : String) (force : Bool) :
    (∃ reason, (init fs preset output force).2 = .error (.configuration reason)) ↔
      (fs.exists? output = true ∧ force = false) ∨ ¬ IsPreset preset := by
  rcases checkInit_cases fs preset output force with ⟨⟨reason, hrefused⟩, hwhy⟩ |
    ⟨hchecked, hnew, hpreset⟩
  · exact iff_of_true ⟨reason, by rw [init_eq_of_refused hrefused]⟩ hwhy
  · refine iff_of_false ?_ (not_or.2 ⟨hnew, fun hnot => hnot hpreset⟩)
    rintro ⟨reason, hreason⟩
    rw [init_eq_of_checked hchecked] at hreason
    rcases writeFile_cases fs output (Standards.template preset) with ⟨e, hdone, _⟩ |
      ⟨fs', hdone, _⟩ <;>
    · rw [hdone] at hreason
      cases hreason

/-- What is refused changes nothing, not even by directories. -/
theorem files_of_init_refused {reason : String}
    (h : (init fs preset output force).2 = .error (.configuration reason)) :
    (init fs preset output force).1 = fs := by
  rcases checkInit_cases fs preset output force with ⟨⟨_, hrefused⟩, _⟩ | ⟨_, haccepted⟩
  · rw [init_eq_of_refused hrefused]
  · -- What is accepted fails only with an error of the system.
    rcases (init_refused_iff fs preset output force).1 ⟨reason, h⟩ with hthere | hnone
    · exact absurd hthere haccepted.1
    · exact absurd haccepted.2 hnone

/-- If it is not forced, a file gets another content just if it is revealed. -/
theorem get?_init_iff (hfile : fs.tree.get? at' = some (.file content)) :
    (init fs preset output false).1.tree.get? at' = some (.file content) ↔
      ¬ (IsPreset preset ∧ Revealed fs output at' ∧
        content ≠ (Standards.template preset).toUTF8) := by
  rcases checkInit_cases fs preset output false with ⟨⟨_, hrefused⟩, hwhy⟩ |
    ⟨hchecked, hnew, hpreset⟩
  · -- What is refused is not revealed, as it is there already, or there is no such preset.
    rw [init_eq_of_refused hrefused]
    refine iff_of_true hfile ?_
    rintro ⟨hpreset, hrevealed, _⟩
    rcases hwhy with ⟨hthere, _⟩ | hnone
    · exact Bool.false_ne_true (hrevealed.nowhere.symm.trans hthere)
    · exact hnone hpreset
  · rw [init_eq_of_checked hchecked]
    have hnowhere : fs.exists? output = false := by simpa using hnew
    by_cases hrevealed : Revealed fs output at'
    · rw [get?_writeFile_of_revealed hrevealed]
      simp [hpreset, hrevealed, eq_comm]
    · exact iff_of_true (get?_writeFile_of_not_revealed hfile hnowhere hrevealed _)
        fun h => hrevealed h.2.1

/--
A standards document is refused just if there is something at its path and it is not forced, or if there is
no such preset, and then no file and no directory is changed or made.  If it is not forced and not refused,
a file gets another content just if the path leads nowhere and then, once the directories above it are
made, to this file.  A path does so only if it goes through a name at which nothing is and later leads up.
-/
theorem init_keeps_iff (fs : FileSystem) (preset : Option String) (output : String) (force : Bool) :
    ((∃ reason, (init fs preset output force).2 = .error (.configuration reason)) ↔
        (fs.exists? output = true ∧ force = false) ∨ ¬ IsPreset preset) ∧
      (∀ reason, (init fs preset output force).2 = .error (.configuration reason) →
        (init fs preset output force).1 = fs) ∧
      (force = false → ∀ at' content, fs.tree.get? at' = some (.file content) →
        ((init fs preset output force).1.tree.get? at' = some (.file content) ↔
          ¬ (IsPreset preset ∧ Revealed fs output at' ∧
            content ≠ (Standards.template preset).toUTF8))) ∧
      ∀ at', Revealed fs output at' → DoublesBack fs output := by
  refine ⟨init_refused_iff fs preset output force, fun _ => files_of_init_refused, ?_,
    fun _ => doublesBack_of_revealed⟩
  rintro rfl at' content hfile
  exact get?_init_iff hfile

/-! ## A sample -/

/-- A project with an empty standards document, from which commands are run. -/
def documentSample : FileSystem where
  tree := .directory [("app", .directory [("standards.toml", .file ⟨#[]⟩)])]
  current := ["app"]

/-- A path to the document through a directory that is not there. -/
def doublingOutput : String :=
  "new/../standards.toml"

theorem wellFormed_documentSample : documentSample.tree.WellFormed :=
  have hproject : (Node.directory [("standards.toml", .file ⟨#[]⟩)]).WellFormed :=
    .cons (by decide) (by decide) (by decide) (.file _) .nil
  .cons (by decide) (by decide) (by decide) hproject .nil

theorem revealed_documentSample :
    Revealed documentSample doublingOutput ["app", "standards.toml"] := by
  obtain ⟨⟨⟩, hmade, _⟩ := Standards.ok_of_any (x := (documentSample.prepared doublingOutput).2)
    (p := fun _ => True) (by decide +kernel)
  obtain ⟨⟨place, node⟩, hlocate, rfl, hfile⟩ := Standards.ok_of_any
    (x := (documentSample.prepared doublingOutput).1.locate true doublingOutput)
    (p := fun found => found.1 = ["app", "standards.toml"] ∧ found.2.isFile = true)
    (by decide +kernel)
  cases node with
  | file content => exact ⟨by decide +kernel, hmade, content, hlocate⟩
  | link _ => cases hfile
  | directory _ => cases hfile

theorem isPreset_none : IsPreset none :=
  fun _ h => by cases h

/-- What is written ends with a line. -/
theorem template_ne_empty (preset : Option String) :
    (⟨#[]⟩ : ByteArray) ≠ (Standards.template preset).toUTF8 := by
  intro hempty
  have hsize : 0 = (Standards.template preset).utf8ByteSize := congrArg ByteArray.size hempty
  rw [Standards.template, String.utf8ByteSize_append] at hsize
  have hline : "\n".utf8ByteSize = 1 := rfl
  omega

/-- By its name the document is refused, and by the other path it is overwritten. -/
theorem init_keeps_iff_documentSample :
    (∃ reason, (init documentSample none "standards.toml" false).2
        = .error (.configuration reason)) ∧
      (init documentSample none "standards.toml" false).1 = documentSample ∧
      documentSample.tree.get? ["app", "standards.toml"] = some (.file ⟨#[]⟩) ∧
      (init documentSample none doublingOutput false).1.tree.get? ["app", "standards.toml"]
        ≠ some (.file ⟨#[]⟩) ∧
      DoublesBack documentSample doublingOutput := by
  obtain ⟨hrefused, hsame, _⟩ := init_keeps_iff documentSample none "standards.toml" false
  obtain ⟨_, _, hkeeps, hdoubles⟩ := init_keeps_iff documentSample none doublingOutput false
  obtain ⟨reason, hreason⟩ := hrefused.2 (.inl ⟨by decide +kernel, rfl⟩)
  have hfile : documentSample.tree.get? ["app", "standards.toml"] = some (.file ⟨#[]⟩) := rfl
  refine ⟨⟨reason, hreason⟩, hsame reason hreason, hfile, fun hkept => ?_,
    hdoubles _ revealed_documentSample⟩
  exact (hkeeps rfl _ _ hfile).1 hkept
    ⟨isPreset_none, revealed_documentSample, template_ne_empty none⟩

/-- So a document can be overwritten without being asked for. -/
theorem init_overwrites :
    ¬ ∀ (fs : FileSystem) (preset : Option String) (output : String) (at' : Location)
        (content : ByteArray), fs.tree.WellFormed → fs.tree.get? at' = some (.file content) →
      (init fs preset output false).1.tree.get? at' = some (.file content) := by
  intro hclaim
  have hkept := hclaim documentSample none doublingOutput ["app", "standards.toml"] ⟨#[]⟩
    wellFormed_documentSample rfl
  exact (get?_init_iff rfl).1 hkept
    ⟨isPreset_none, revealed_documentSample, template_ne_empty none⟩

end Run
end CommandLine
end ProjectConsistency
