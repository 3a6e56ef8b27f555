import ProjectConsistency.Proofs.Fix.Relabelling

/-!
# Turns — each rename of a plan at its turn

The plan is made before anything moves.  When the turn of a rename comes, its entry is still where it
was, because the renames before it have only changed names elsewhere and further down
(`Renaming.runAll_relabelled`).  So the only thing that can be in its way is an entry under the new
name.  This file defines:

* `Renaming.WithinLimits` — the paths and the new name of a rename are short enough for the system;

and the main statement, `fix_at_turn`, tells how the rename ends.
-/

namespace ProjectConsistency

open FileSystem Walk.Event

namespace Renaming

/-- The paths and the new name of a rename are not too long. -/
structure WithinLimits (root : String) (r : Renaming) : Prop where
  source : (Path.join root r.source).utf8ByteSize < pathLimit
  target : (Path.join root r.target).utf8ByteSize < pathLimit
  names : ∀ name ∈ namesOf r.target, name.utf8ByteSize ≤ nameLimit

def takenFailure (root : String) (r : Renaming) : Failure :=
  .fix (Path.join root r.source) ("destination `" ++ r.target ++ "` already exists")

def goneFailure (root : String) (r : Renaming) : Failure :=
  .fix (Path.join root r.source) "source no longer exists"

/-- The two refusals of a rename never read the same. -/
theorem taken_ne_gone (root : String) (r : Renaming) :
    (takenFailure root r).message ≠ (goneFailure root r).message := by
  intro h
  have hreason := (String.append_right_inj _).1 h
  have hfirst := congrArg (fun reason => reason.toList.head?) hreason
  -- The reasons differ in their first letter.
  have htaken : "destination `".toList = 'd' :: "estination `".toList := by decide
  have hgone : "source no longer exists".toList = 's' :: "ource no longer exists".toList := by decide
  simp only [String.toList_append, htaken, hgone, List.cons_append, List.head?_cons] at hfirst
  exact absurd hfirst (by decide)

section

variable {rules : NamingRules} {before fs : FileSystem} {root : Location} {project : Node}
  {made : List String} {c : Correction}

/-- At its turn a rename is made if its new name is free, and refused otherwise. -/
theorem run_at_turn (hroot : IsRoot before root project)
    (hfs : Relabelled before root project (newName rules project made) fs)
    (hc : c.Ready rules project made) (hlimits : c.toRenaming.WithinLimits (pathOf root)) :
    ∃ node, fs.tree.get? (root ++ c.place) = some node ∧
      perform fs (pathOf root) c.toRenaming
        = if (fs.tree.get? (root ++ c.wanted)).isSome
          then .error (takenFailure (pathOf root) c.toRenaming)
          else .ok (fs.move ⟨root ++ c.place, root ++ c.wanted⟩ node) := by
  have hwell := hroot.project_wellFormed
  have hold := hc.justified.plain_place hwell c.old (by simp [Correction.place])
  have hnew := hc.justified.plain_wanted hwell c.new (by simp [Correction.wanted])
  have hshort : c.new.utf8ByteSize ≤ nameLimit := by
    apply hlimits.names
    rw [Correction.toRenaming, namesOf_pathText (hc.justified.plain_wanted hwell)]
    simp [Correction.wanted]
  have hsource := straight hroot hfs hc hold.1
  have htarget := straight hroot hfs hc hnew
  have hfits : Fits (root ++ c.above ++ [c.old]) := by
    have hsize := hlimits.source
    rwa [join_source hroot hc.justified, Correction.place, ← List.append_assoc] at hsize
  have hfits' : Fits (root ++ c.above ++ [c.new]) := by
    have hsize := hlimits.target
    rwa [join_target hroot hc.justified, Correction.wanted, ← List.append_assoc] at hsize
  have hthere : (fs.tree.get? (root ++ c.above ++ [c.old])).isSome := by
    rw [List.append_assoc, ← Correction.place, ← Node.isSome_shapeAt, shapeAt_place hfs hc,
      Node.isSome_shapeAt]
    exact hc.justified.isSome_get?
  rcases Option.isSome_iff_exists.1 hthere with ⟨node, hnode⟩
  have hlstat := hsource.lstat_isOk hfits hold.2
  have hlstat' := htarget.lstat_isOk hfits' hshort
  rw [hthere] at hlstat
  refine ⟨node, by rw [Correction.place, ← List.append_assoc, hnode], ?_⟩
  simp only [perform_eq, takenFailure, join_source hroot hc.justified, join_target hroot hc.justified,
    Correction.place, Correction.wanted, ← List.append_assoc, hlstat, hlstat']
  -- The look-up of the target decides between the refusal and the rename.
  cases hother : fs.tree.get? (root ++ c.above ++ [c.new]) with
  | some other => simp
  | none =>
      have hrename := rename_straight hsource htarget hfits hfits' hold.2 hshort hnode hother
      simp only [hrename, mapError_ok, Option.isSome_none, Bool.not_true, Bool.false_eq_true,
        if_false]

end

section

variable {fs : FileSystem} {settings : Settings} {path : String} {s : Snapshot} {root : Location}
  {project : Node}

/-- With the renames selected, the records begin with those of the plan. -/
theorem getElem?_apply (fs : FileSystem) (s : Snapshot) (standards : Standards)
    (scaffold format : Bool) (formatter : Formatter) (issues : List Issue)
    {before after : List Renaming} {r : Renaming} (hplan : plan s issues = before ++ r :: after) :
    (Fix.apply fs s standards { rename := true, scaffold, format } formatter
        issues).2[before.length]?
      = some (fix s.root (Fix.runAll (fix s.root) fs before).1 r).2 := by
  have hlength := Fix.length_runAll (fix s.root) fs before
  simp only [Fix.apply, if_true, hplan, Fix.runAll_append, Fix.runAll, List.append_assoc]
  rw [List.getElem?_append_right (by omega), hlength, Nat.sub_self]
  rfl

/-- When the turn of a rename of the plan comes, the ones before have changed no name on its way. -/
theorem ready_at_turn (hroot : IsRoot fs root project) (hdesc : s.Describes root project)
    (standards : Standards) {before after : List Renaming} {r : Renaming}
    (hplan : plan s (Rules.evaluate s standards) = before ++ r :: after) :
    ∃ c made, c.toRenaming = r ∧ Correction.Ready c standards.naming project made ∧
      Relabelled fs root project (newName standards.naming project made)
        (Fix.runAll (fix s.root) fs before).1 := by
  have hwell := hroot.project_wellFormed
  rcases plan_eq_corrections standards hdesc hwell with ⟨corrections, hall, hjust, hpair⟩
  rw [hall] at hplan
  rcases List.map_eq_append_iff.1 hplan with ⟨earlier, others, rfl, rfl, hothers⟩
  rcases List.map_eq_cons_iff.1 hothers with ⟨c, later, rfl, rfl, rfl⟩
  have hsplit := List.pairwise_append.1 hpair
  have hearlier : ∀ c' ∈ earlier, c'.Justified standards.naming project :=
    fun c' hc' => hjust c' (List.mem_append_left _ hc')
  have hc : c.Justified standards.naming project := hjust c (by simp)
  have hturn := runAll_relabelled hroot hearlier hsplit.1 (by simp)
    (relabelled_refl hroot.get?_eq standards.naming)
  dsimp only at hturn
  rw [List.append_nil, ← hdesc.root_eq] at hturn
  refine ⟨c, _, rfl, ⟨hc, ?_⟩, hturn⟩
  -- A path on its way whose rename was made would be the path of an earlier correction.
  intro p hp hpre hmade
  rcases mem_of_mem_madeOf hmade with ⟨r, hr, hsource⟩
  rcases List.mem_map.1 hr with ⟨c', hc', rfl⟩
  exact fresh_of_pairwise hwell (hearlier c' hc') hc (hsplit.2.2 c' hc' c (by simp)) hp hpre
    hsource.symm

/--
Every rename that is planned for a project without links is still valid at its turn, if its names are
not too long.  Its entry is there, unchanged.  If its new name is free, the entry is moved to it;
otherwise the rename fails because the destination exists, and leaves the files as they are.  So no
rename fails because its entry has gone.
-/
theorem fix_at_turn (hfs : fs.tree.WellFormed)
    (hlocate : fs.locate true path = .ok (root, project)) (hlinks : project.LinkFree)
    (hs : Analysis.analyze fs settings path = .ok s) {before after : List Renaming} {r : Renaming}
    (hplan : plan s (Rules.evaluate s settings.standards) = before ++ r :: after)
    (hlimits : r.WithinLimits s.root) (scaffold format : Bool) (formatter : Formatter) :
    let turn := (Fix.runAll (fix s.root) fs before).1
    let records := (Fix.apply fs s settings.standards { rename := true, scaffold, format } formatter
      (Rules.evaluate s settings.standards)).2
    records[before.length]? = some (fix s.root turn r).2 ∧
      ∃ source target node, Path.join s.root r.source = pathOf source ∧
        Path.join s.root r.target = pathOf target ∧ source.dropLast = target.dropLast ∧
        turn.tree.get? source = some node ∧ fs.tree.shapeAt source = some node.shape ∧
        fix s.root turn r
          = (if (turn.tree.get? target).isNone
            then (turn.move ⟨source, target⟩ node, r.record .applied)
            else (turn, r.record (.failed (takenFailure s.root r).message))) ∧
        (fix s.root turn r).2.outcome ≠ .failed (goneFailure s.root r).message := by
  intro turn records
  have hroot : IsRoot fs root project := ⟨hfs, Analysis.get?_of_locate hlocate⟩
  have hdesc : s.Describes root project := Analysis.describes_of_analyze hfs hlocate (.inl hlinks) hs
  refine ⟨getElem?_apply fs s _ scaffold format formatter _ hplan, ?_⟩
  rcases ready_at_turn hroot hdesc settings.standards hplan with ⟨c, made, rfl, hready, hturn⟩
  have hjust := hready.justified
  rw [hdesc.root_eq] at hlimits
  rcases run_at_turn hroot hturn hready hlimits with ⟨node, hnode, hrun⟩
  -- The entry is where the analysis found it.
  have hshape : fs.tree.shapeAt (root ++ c.place) = some node.shape := by
    have hplace := shapeAt_place hturn hready
    rw [Node.shapeAt_of_get? hnode] at hplace
    rw [Node.shapeAt_append, hroot.get?_eq]
    exact hplace.symm
  rw [← hdesc.root_eq] at hrun
  refine ⟨root ++ c.place, root ++ c.wanted, node, ?_, ?_, ?_, hnode, hshape, ?_⟩
  · rw [hdesc.root_eq, join_source hroot hjust]
  · rw [hdesc.root_eq, join_target hroot hjust]
  · simp [Correction.place, Correction.wanted, ← List.append_assoc]
  · cases hother : turn.tree.get? (root ++ c.wanted) with
    | some other =>
        have herror : perform turn s.root c.toRenaming
            = .error (takenFailure s.root c.toRenaming) := by
          rw [hrun, hother]
          rfl
        rw [fix_of_error herror]
        refine ⟨rfl, ?_⟩
        intro hgone
        exact taken_ne_gone s.root c.toRenaming (by simpa [record] using hgone)
    | none =>
        have hok : perform turn s.root c.toRenaming
            = .ok (turn.move ⟨root ++ c.place, root ++ c.wanted⟩ node) := by
          rw [hrun, hother]
          rfl
        rw [fix_of_ok hok]
        exact ⟨rfl, by simp [record]⟩

end

/-! ## The sample -/

theorem plan_sample :
    plan sampleSnapshot (Rules.evaluate sampleSnapshot sampleSettings.standards)
      = [⟨"Widgets/MyFile.ts", "Widgets/my-file.ts"⟩, ⟨"Widgets", "widgets"⟩] := by
  have hasked : (Rules.evaluate sampleSnapshot sampleSettings.standards).filterMap ofIssue?
      = [⟨"Widgets", "widgets"⟩, ⟨"Widgets/MyFile.ts", "Widgets/my-file.ts"⟩] := by
    rw [asked_eq]
    decide +kernel
  have hdirectory : concernsDirectory sampleSnapshot ⟨"Widgets", "widgets"⟩ = true := by
    decide +kernel
  have hfile : concernsDirectory sampleSnapshot ⟨"Widgets/MyFile.ts", "Widgets/my-file.ts"⟩
      = false := by
    decide +kernel
  simp [plan, hasked, hdirectory, hfile]

theorem fix_at_turn_sample :
    let turn := (Fix.runAll (fix sampleSnapshot.root) sample
      [⟨"Widgets/MyFile.ts", "Widgets/my-file.ts"⟩]).1
    ∃ source target node,
      Path.join sampleSnapshot.root "Widgets" = pathOf source ∧
        Path.join sampleSnapshot.root "widgets" = pathOf target ∧
        turn.tree.get? source = some node ∧
        fix sampleSnapshot.root turn ⟨"Widgets", "widgets"⟩
          = (if (turn.tree.get? target).isNone
            then (turn.move ⟨source, target⟩ node, record ⟨"Widgets", "widgets"⟩ .applied)
            else (turn, record ⟨"Widgets", "widgets"⟩
              (.failed (takenFailure sampleSnapshot.root ⟨"Widgets", "widgets"⟩).message))) := by
  have hlimits : WithinLimits sampleSnapshot.root ⟨"Widgets", "widgets"⟩ :=
    ⟨by decide +kernel, by decide +kernel, by decide +kernel⟩
  have hplan : plan sampleSnapshot (Rules.evaluate sampleSnapshot sampleSettings.standards)
      = [⟨"Widgets/MyFile.ts", "Widgets/my-file.ts"⟩] ++ ⟨"Widgets", "widgets"⟩ :: [] :=
    plan_sample
  rcases fix_at_turn wellFormed_sample rfl linkFree_sampleProject analyze_sample hplan hlimits false
    false (fun fs _ => (fs, .ok 0)) with
    ⟨_, source, target, node, hsource, htarget, _, hnode, _, hfix, _⟩
  exact ⟨source, target, node, hsource, htarget, hnode, hfix⟩

end Renaming
end ProjectConsistency
