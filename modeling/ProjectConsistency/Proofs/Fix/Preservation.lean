import ProjectConsistency.Proofs.Fix.Effects

/-!
# Preservation — fixes lose, alter and replace nothing

Whatever snapshot and issues they are made for, fixes without the formatter are a run of effects:
first the moves of the renames, then the makings of the creations, each at a place that is free at
that moment (`run_apply`).  The main statement, `apply_preserves_files`, reads off what this means
for the files that were there before.
-/

namespace ProjectConsistency

open FileSystem

/-- The location of an old entry after moves that are made one after the other. -/
def Renaming.relocate (moves : List Move) (at' : Location) : Location :=
  moves.foldl (fun found m => m.apply found) at'

/-- Nodes that are made, each at its place. -/
abbrev Made := List (Location × Node)

def Fix.effects (moves : List Move) (made : Made) : List Effect :=
  moves.map .moved ++ made.map fun (place, node) => .made place node

namespace FileSystem

/-- What is made moves nothing. -/
theorem imageAfter_made (made : Made) (at' : Location) :
    imageAfter (made.map fun (place, node) => .made place node) at' = at' := by
  induction made with
  | nil => rfl
  | cons _ rest ih => exact ih

/-- After all fixes an entry is where the moves have taken it. -/
theorem imageAfter_effects (moves : List Move) (made : Made) (at' : Location) :
    imageAfter (Fix.effects moves made) at' = Renaming.relocate moves at' := by
  rw [imageAfter, Fix.effects, List.foldl_append]
  show imageAfter _ (imageAfter (moves.map .moved) at') = _
  rw [imageAfter_made, imageAfter, List.foldl_map]
  rfl

/-- What a run of moves and makings brings in is what it makes. -/
theorem Run.eq_relocate_or_made {fs fs' : FileSystem} {moves : List Move} {made : Made}
    (h : Run fs (Fix.effects moves made) fs') {at' : Location}
    (hthere : (fs'.tree.get? at').isSome) :
    (∃ old, (fs.tree.get? old).isSome ∧ Renaming.relocate moves old = at') ∨
      at' ∈ made.map Prod.fst := by
  rcases Node.exists_shapeAt hthere with ⟨x, hx⟩
  rcases h.eq_image_or_made hx with ⟨old, hold, himage⟩ | ⟨before, place, node, after, hsplit, hlast⟩
  · rw [imageAfter_effects] at himage
    exact .inl ⟨old, Node.isSome_of_shapeAt hold, himage⟩
  · right
    -- No move comes after a making, so the new entry is still where it was made.
    rcases List.append_eq_append_iff.1 hsplit with
      ⟨left, hbefore, hmade⟩ | ⟨left, hmoves, hrest⟩
    · rcases List.map_eq_append_iff.1 hmade with ⟨first, rest, rfl, _, hlater⟩
      rcases List.map_eq_cons_iff.1 hlater with ⟨entry, others, rfl, hentry, rfl⟩
      rw [imageAfter_made] at hlast
      cases hentry
      simp [hlast]
    · cases left with
      | nil =>
          rcases List.map_eq_cons_iff.1 hrest.symm with ⟨entry, others, rfl, hentry, rfl⟩
          rw [imageAfter_made] at hlast
          cases hentry
          simp [hlast]
      | cons e left =>
          have he : e ∈ moves.map Effect.moved := by simp [hmoves]
          rcases List.mem_map.1 he with ⟨m, _, rfl⟩
          simp at hrest

end FileSystem

namespace Fix

variable (fs : FileSystem) (s : Snapshot) (standards : Standards) (rename scaffold : Bool)
  (formatter : Formatter) (issues : List Issue)

/-- The moves of the renames that are selected for the issues of a snapshot. -/
def selectedMoves : List Move :=
  Renaming.moves s.root fs (if rename then Renaming.plan s issues else [])

/-- Creations make nodes and move none. -/
theorem run_creations (root project : String) (plan : List Creation) :
    ∃ made : Made, Run fs (effects [] made)
      (runAll (Creation.fix root project standards) fs plan).1 := by
  have extend : ∀ {fs₁ fs₂ : FileSystem} {place : Location} {node : Node},
      (∃ made : Made, Run fs (effects [] made) fs₁) → Step fs₁ (.made place node) fs₂ →
      ∃ made : Made, Run fs (effects [] made) fs₂ := by
    rintro fs₁ fs₂ place node ⟨made, hmade⟩ hstep
    exact ⟨made ++ [(place, node)], by simpa [effects] using hmade.snoc hstep⟩
  -- The makings so far are what every further making adds to.
  apply runAll_keeps (motive := fun found => ∃ made : Made, Run fs (effects [] made) found)
    ⟨[], .done fs⟩
  intro fs₁ c _ hfs₁
  apply Creation.fix_keeps (motive := fun found => ∃ made : Made, Run fs (effects [] made) found) hfs₁
  · intro fs₂ fs₃ p _ hfs₂ hmade
    rcases step_of_makeDirectory hmade with ⟨_, _, hstep⟩
    exact extend hfs₂ hstep
  · intro fs₂ fs₃ path bytes _ hfs₂ hmade
    rcases step_of_newFile hmade with ⟨_, _, hstep⟩
    exact extend hfs₂ hstep

/-- Fixes without the formatter are moves to free places, and makings at free places after them. -/
theorem run_apply :
    ∃ made : Made, Run fs (effects (selectedMoves fs s rename issues) made)
      (apply fs s standards { rename, scaffold } formatter issues).1 := by
  rw [apply_without_formatter]
  have hmoves := Renaming.run_moves s.root fs (if rename then Renaming.plan s issues else [])
  rcases run_creations _ standards s.root s.name (if scaffold then Creation.plan issues else [])
    with ⟨made, hmade⟩
  exact ⟨made, by simpa [effects, selectedMoves] using hmoves.append hmade⟩

/--
Fixes without the formatter destroy nothing.  They are moves of the renames that are made and
makings after them, each at a place that is free at that moment.  Every file is afterwards at the
location to which the moves take it, with the same content; no two entries are taken to one
location; and every other entry is one that was made.
-/
theorem apply_preserves_files (fs : FileSystem) (s : Snapshot) (standards : Standards)
    (rename scaffold : Bool) (formatter : Formatter) (issues : List Issue) :
    let after := (apply fs s standards { rename, scaffold } formatter issues).1
    let moves := selectedMoves fs s rename issues
    ∃ made : Made, Run fs (effects moves made) after ∧
      (∀ at' content, fs.tree.get? at' = some (.file content) →
        after.tree.get? (Renaming.relocate moves at') = some (.file content)) ∧
      (∀ a b, (fs.tree.get? a).isSome → (fs.tree.get? b).isSome →
        Renaming.relocate moves a = Renaming.relocate moves b → a = b) ∧
      ∀ at', (after.tree.get? at').isSome →
        (∃ old, (fs.tree.get? old).isSome ∧ Renaming.relocate moves old = at') ∨
          at' ∈ made.map Prod.fst := by
  intro after moves
  rcases run_apply fs s standards rename scaffold formatter issues with ⟨made, hrun⟩
  refine ⟨made, hrun, ?_, ?_, ?_⟩
  · intro at' content hfile
    have himage := hrun.shapeAt_imageAfter (Node.shapeAt_eq_file_iff.2 hfile)
    rw [imageAfter_effects] at himage
    exact Node.shapeAt_eq_file_iff.1 himage
  · intro a b ha hb heq
    rw [← imageAfter_effects _ made, ← imageAfter_effects _ made] at heq
    exact hrun.imageAfter_injective ha hb heq
  · intro at' hthere
    exact hrun.eq_relocate_or_made hthere

end Fix
end ProjectConsistency
