import ProjectConsistency.Proofs.FileSystem.Shape

/-!
# Effects — changes that replace nothing

Every change that fixes make to a file system is one of two: a node moves to a free place, or a new
node is made at a free place.  This file defines:

* `FileSystem.Free` — a name in a directory, at which there is nothing;
* `FileSystem.Effect` — one change, and `Effect.image`, the location of an old entry after it;
* `FileSystem.Step` and `FileSystem.Run` — one change and a sequence of changes, each of them at a
  place that is free at that moment.

Because nothing is ever replaced, a step carries every entry to its image (`Step.shapeAt_image`),
never two entries to one location (`Step.image_injective`), and it brings in no other entry than the
one it makes (`Step.eq_image_or_made`).  By induction this holds of runs.
-/

namespace ProjectConsistency
namespace FileSystem

open Node

/-- The place is a name in a directory that is there, and there is nothing at it. -/
def Free (fs : FileSystem) (place : Location) : Prop :=
  ∃ directory name, place = directory ++ [name] ∧
    fs.tree.shapeAt directory = some .directory ∧ fs.tree.get? place = none

/-- One change of a file system. -/
inductive Effect where
  /-- A node and everything below it gets another place. -/
  | moved (m : Move)
  /-- A new node is made. -/
  | made (place : Location) (node : Node)

/-- The location that an entry has after a change. -/
def Effect.image : Effect → Location → Location
  | moved m => m.apply
  | made _ _ => id

inductive IsNew : Node → Prop where
  | file (content : ByteArray) : IsNew (.file content)
  | directory : IsNew (.directory [])

/-- One change, at a place that is free. -/
inductive Step (fs : FileSystem) : Effect → FileSystem → Prop where
  | moved {m : Move} {node : Node} (hnode : fs.tree.get? m.source = some node)
      (htop : m.source ≠ []) (hfree : fs.Free m.target) (hapart : ¬ m.source <+: m.target) :
      Step fs (.moved m) (fs.move m node)
  | made {place : Location} {node : Node} (hfree : fs.Free place) (hnew : IsNew node) :
      Step fs (.made place node) (fs.put place node)

/-- Changes one after the other. -/
inductive Run : FileSystem → List Effect → FileSystem → Prop where
  | done (fs : FileSystem) : Run fs [] fs
  | next {fs fs' fs'' : FileSystem} {e : Effect} {effects : List Effect} (first : Step fs e fs')
      (rest : Run fs' effects fs'') : Run fs (e :: effects) fs''

/-- The location that an entry has after a number of changes. -/
def imageAfter (effects : List Effect) (at' : Location) : Location :=
  effects.foldl (fun found e => e.image found) at'

/-! ## Places -/

/-- There is nothing at a free place or below it. -/
theorem Free.get?_append {fs : FileSystem} {place : Location} (h : fs.Free place)
    (below : Location) : fs.tree.shapeAt (place ++ below) = none := by
  rcases h with ⟨_, _, _, _, hnone⟩
  rw [shapeAt_append, hnone]
  rfl

/-- A free place is above nothing that is there. -/
theorem Free.not_above {fs : FileSystem} {place at' : Location} {x : Shape} (h : fs.Free place)
    (hx : fs.tree.shapeAt at' = some x) : ¬ place <+: at' := by
  rintro ⟨below, rfl⟩
  simp [h.get?_append] at hx

theorem IsNew.shapeAt_cons {node : Node} (h : IsNew node) (name : String) (rest : Location) :
    node.shapeAt (name :: rest) = none := by
  cases h <;> rfl

/-! ## Moves -/

/-- What is below the source of a move goes with it. -/
theorem apply_append (m : Move) (below : Location) :
    m.apply (m.source ++ below) = m.target ++ below := by
  simp [Move.apply]

theorem apply_eq_self {m : Move} {at' : Location} (h : ¬ m.source <+: at') :
    m.apply at' = at' := by
  simp [Move.apply, h]

section

variable {fs : FileSystem} {m : Move} {node : Node}

/-- The directory of a free place stays when something is moved there. -/
theorem Free.directory_of_remove {directory : Location} {name : String}
    (hdir : fs.tree.shapeAt directory = some .directory)
    (hapart : ¬ m.source <+: directory ++ [name]) :
    (Node.remove m.source fs.tree).shapeAt directory = some .directory := by
  rw [shapeAt_remove_of_not_above]
  · exact hdir
  · intro hpre
    exact hapart (hpre.trans (List.prefix_append _ _))

/-- After a move the source is found at the target. -/
theorem shapeAt_move_target (hnode : fs.tree.get? m.source = some node) (hfree : fs.Free m.target)
    (hapart : ¬ m.source <+: m.target) (below : Location) :
    (fs.move m node).tree.shapeAt (m.target ++ below) = fs.tree.shapeAt (m.source ++ below) := by
  rcases hfree with ⟨directory, name, htarget, hdir, _⟩
  rw [htarget] at hapart
  rw [shapeAt_append m.source, hnode, htarget]
  simp only [FileSystem.move, htarget]
  exact shapeAt_put_append node name (Free.directory_of_remove hdir hapart) below

/-- After a move nothing is left at the source, unless the target is there. -/
theorem shapeAt_move_source (hnode : fs.tree.get? m.source = some node) (htop : m.source ≠ [])
    (below : Location) :
    (fs.move m node).tree.shapeAt (m.source ++ below) = none ∨
      m.target <+: m.source ++ below := by
  by_cases htarget : m.target <+: m.source ++ below
  · exact .inr htarget
  · left
    rw [FileSystem.move, shapeAt_put_of_not_above _ _ htarget]
    obtain ⟨parent, name, hsource⟩ : ∃ parent name, m.source = parent ++ [name] :=
      ⟨_, _, (List.dropLast_concat_getLast htop).symm⟩
    have hdir : fs.tree.shapeAt parent = some .directory := by
      apply shapeAt_directory_of_append (b := [name]) (by simp)
      rw [← hsource]
      exact shapeAt_of_get? hnode
    rw [hsource]
    exact shapeAt_remove_append name hdir below

/-- A move changes nothing apart from its source and its target. -/
theorem shapeAt_move_of_not_above {at' : Location} (hsource : ¬ m.source <+: at')
    (htarget : ¬ m.target <+: at') :
    (fs.move m node).tree.shapeAt at' = fs.tree.shapeAt at' := by
  rw [FileSystem.move, shapeAt_put_of_not_above _ _ htarget,
    shapeAt_remove_of_not_above _ hsource]

end

/-! ## What one change keeps -/

namespace Step

variable {fs fs' : FileSystem} {e : Effect}

/-- Every entry is at its image, as it was. -/
theorem shapeAt_image (h : Step fs e fs') {at' : Location} {x : Shape}
    (hx : fs.tree.shapeAt at' = some x) : fs'.tree.shapeAt (e.image at') = some x := by
  cases h with
  | @moved m node hnode htop hfree hapart =>
      -- The entry moves along with the source, or it is where nothing happens.
      by_cases hsource : m.source <+: at'
      · rcases hsource with ⟨below, rfl⟩
        rw [Effect.image, apply_append, shapeAt_move_target hnode hfree hapart]
        exact hx
      · rw [Effect.image, apply_eq_self hsource,
          shapeAt_move_of_not_above hsource (hfree.not_above hx)]
        exact hx
  | made hfree hnew =>
      show (Node.put _ _ _).shapeAt at' = some x
      rw [shapeAt_put_of_not_above _ _ (hfree.not_above hx)]
      exact hx

/-- A move is not seen where neither its source nor its target leads. -/
theorem shapeAt_of_not_above {m : Move} (h : Step fs (.moved m) fs') {at' : Location}
    (hsource : ¬ m.source <+: at') (htarget : ¬ m.target <+: at') :
    fs'.tree.shapeAt at' = fs.tree.shapeAt at' := by
  cases h with
  | moved _ _ _ _ => exact shapeAt_move_of_not_above hsource htarget

/-- Two entries never come to the same location. -/
theorem image_injective (h : Step fs e fs') {a b : Location}
    (ha : (fs.tree.get? a).isSome) (hb : (fs.tree.get? b).isSome) (heq : e.image a = e.image b) :
    a = b := by
  cases h with
  | @moved m node hnode htop hfree hapart =>
      rcases exists_shapeAt ha with ⟨x, hx⟩
      rcases exists_shapeAt hb with ⟨y, hy⟩
      -- Two entries below the source stay apart, and so do two that do not move.
      by_cases hsa : m.source <+: a
      · rcases hsa with ⟨below, rfl⟩
        by_cases hsb : m.source <+: b
        · rcases hsb with ⟨below', rfl⟩
          have hsame : below = below' := by
            simpa [Effect.image, apply_append] using heq
          rw [hsame]
        · -- The target would have been taken by `b`.
          rw [Effect.image, apply_append, apply_eq_self hsb] at heq
          exact absurd ⟨below, heq⟩ (hfree.not_above hy)
      · by_cases hsb : m.source <+: b
        · rcases hsb with ⟨below', rfl⟩
          rw [Effect.image, apply_append, apply_eq_self hsa] at heq
          exact absurd ⟨below', heq.symm⟩ (hfree.not_above hx)
        · rwa [Effect.image, apply_eq_self hsa, apply_eq_self hsb] at heq
  | made hfree hnew => exact heq

/-- An entry was there before, at the location whose image this is, or it is the one just made. -/
theorem eq_image_or_made (h : Step fs e fs') {at' : Location} {x : Shape}
    (hx : fs'.tree.shapeAt at' = some x) :
    (∃ old, fs.tree.shapeAt old = some x ∧ e.image old = at') ∨ ∃ node, e = .made at' node := by
  cases h with
  | @moved m node hnode htop hfree hapart =>
      left
      -- What is below the target now was below the source, and below the source there is nothing now.
      by_cases htarget : m.target <+: at'
      · rcases htarget with ⟨below, rfl⟩
        rw [shapeAt_move_target hnode hfree hapart] at hx
        exact ⟨m.source ++ below, hx, apply_append m below⟩
      · by_cases hsource : m.source <+: at'
        · rcases hsource with ⟨below, rfl⟩
          rcases shapeAt_move_source hnode htop below with hnone | hpre
          · simp [hnone] at hx
          · exact absurd hpre htarget
        · rw [shapeAt_move_of_not_above hsource htarget] at hx
          exact ⟨at', hx, apply_eq_self hsource⟩
  | @made place node hfree hnew =>
      by_cases hplace : place <+: at'
      · right
        rcases hfree with ⟨directory, name, rfl, hdir, _⟩
        rcases hplace with ⟨below, rfl⟩
        cases below with
        | nil => exact ⟨node, by simp⟩
        | cons first rest =>
            -- A new node has nothing in it.
            have hbelow : node.shapeAt (first :: rest) = some x := by
              rw [← shapeAt_put_append node name hdir (first :: rest)]
              exact hx
            simp [hnew.shapeAt_cons] at hbelow
      · left
        refine ⟨at', ?_, rfl⟩
        rw [← shapeAt_put_of_not_above node fs.tree hplace]
        exact hx

end Step

/-! ## What a run keeps -/

namespace Run

variable {fs fs' fs'' : FileSystem} {effects more : List Effect}

theorem append (h : Run fs effects fs') (h' : Run fs' more fs'') :
    Run fs (effects ++ more) fs'' := by
  induction h with
  | done _ => exact h'
  | next first _ ih => exact .next first (ih h')

theorem snoc {e : Effect} (h : Run fs effects fs') (last : Step fs' e fs'') :
    Run fs (effects ++ [e]) fs'' :=
  h.append (.next last (.done _))

/-- Everything is found after the changes, at its image. -/
theorem shapeAt_imageAfter (h : Run fs effects fs') {at' : Location} {x : Shape}
    (hx : fs.tree.shapeAt at' = some x) :
    fs'.tree.shapeAt (imageAfter effects at') = some x := by
  induction h generalizing at' with
  | done _ => exact hx
  | next first _ ih => exact ih (first.shapeAt_image hx)

/-- Different entries stay different. -/
theorem imageAfter_injective (h : Run fs effects fs') {a b : Location}
    (ha : (fs.tree.get? a).isSome) (hb : (fs.tree.get? b).isSome)
    (heq : imageAfter effects a = imageAfter effects b) : a = b := by
  induction h generalizing a b with
  | done _ => exact heq
  | @next fs fs' _ e _ first _ ih =>
      -- The images are entries of the next file system, so that the rest of the run applies to them.
      have there : ∀ {c : Location}, (fs.tree.get? c).isSome →
          (fs'.tree.get? (e.image c)).isSome := by
        intro c hc
        rcases exists_shapeAt hc with ⟨x, hx⟩
        exact isSome_of_shapeAt (first.shapeAt_image hx)
      exact first.image_injective ha hb (ih (there ha) (there hb) heq)

/-- An entry was there before, or a change of the run made it, and later changes moved it. -/
theorem eq_image_or_made (h : Run fs effects fs') {at' : Location} {x : Shape}
    (hx : fs'.tree.shapeAt at' = some x) :
    (∃ old, fs.tree.shapeAt old = some x ∧ imageAfter effects old = at') ∨
      ∃ before place node after,
        effects = before ++ .made place node :: after ∧ imageAfter after place = at' := by
  induction h with
  | done _ => exact .inl ⟨at', hx, rfl⟩
  | @next _ _ _ e effects first _ ih =>
      -- What the rest of the run did not make was there after its first change.
      rcases ih hx with ⟨old, hold, rfl⟩ | ⟨before, place, node, after, rfl, hafter⟩
      · rcases first.eq_image_or_made hold with ⟨older, holder, rfl⟩ | ⟨node, rfl⟩
        · exact .inl ⟨older, holder, rfl⟩
        · exact .inr ⟨[], old, node, effects, rfl, rfl⟩
      · exact .inr ⟨e :: before, place, node, after, rfl, hafter⟩

end Run

end FileSystem
end ProjectConsistency
