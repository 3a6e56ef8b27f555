import ProjectConsistency.Proofs.FileSystem.Making

/-!
# Revealed — a path leads to a file once directories are made

Before a file is written, the directories above its path are made.  This file defines:

* `FileSystem.prepared` — the files once the directories above a path are made;
* `FileSystem.Revealed` — a path that leads nowhere leads to a file once they are made;
* `FileSystem.DoublesBack` — a path goes through a name at which nothing is, and up again.

Only directories are made (`shapeAt_or_directory`), and below a new one there is no file, so a way that
goes through one leads to a file only if it leads up again (`doublesBack_of_revealed`).  A write replaces
the content of the file that its path leads to, and no other (`write_of_locate`, `cases_of_write`).
-/

namespace ProjectConsistency
namespace FileSystem

open Node (shapeAt_of_get? shapeAt_eq_directory_iff shapeAt_eq_file_iff)

variable {fs fs' : FileSystem} {path : String} {at' : Location} {content old : ByteArray}

/-! ## Writes through a path -/

/-- A path to a file has no slash at its end. -/
theorem asksDirectory_of_leads_file {tree : Node} {links : Nat} {d : Location}
    (h : Leads tree true links d (stepsOf path) (.found at' (.file content))) :
    asksDirectory path = false := by
  rw [Bool.eq_false_iff]
  intro hslash
  rw [stepsOf, if_pos hslash] at h
  -- The slash is one more dot, which asks for a directory where the file is.
  obtain ⟨_, _, _, _, _, hlast⟩ := h.split (by simp)
  have hdir := directory_of_follow_cons (follow_of_leads hlast)
  cases leads_of_follow ((follow_dot hdir).symm.trans (follow_of_leads hlast)) with
  | here hfile => cases hdir.symm.trans (shapeAt_of_get? hfile)

/-- Neither has a link on the way to a file. -/
theorem endsInSlash_of_leads_file {links : Nat} (fuel : Nat)
    (h : Leads fs.tree true links (fs.start path) (stepsOf path) (.found at' (.file content))) :
    fs.endsInSlash fuel path = false := by
  -- Each link at the end is a path to the file, in the directory of the link.
  induction fuel generalizing fs path links with
  | zero => rfl
  | succ fuel ih =>
      rw [endsInSlash]
      split
      · rename_i directory name slash hparentOf
        have hparent := parent_of_parentOf hparentOf
        have hslash := asksDirectory_of_leads_file h
        rw [hparent.slash_eq, hslash, if_neg Bool.false_ne_true]
        split
        · rename_i target htarget
          rw [stepsOf, hslash, hparent.names, if_neg Bool.false_ne_true, List.append_nil] at h
          -- The way to the file goes through the directory of the link.
          obtain ⟨d, node, left, _, hfirst, hlast⟩ := h.split (by simp)
          obtain ⟨entries, hway⟩ := hparent.leads
          obtain ⟨rfl, rfl⟩ : d = directory ∧ node = .directory entries := by
            simpa using hfirst.target_unique hway
          cases hlast with
          | dot _ _ => exact absurd rfl hparent.ne_dot
          | up _ _ => exact absurd rfl hparent.ne_dots
          | jump _ _ hlink next =>
              obtain rfl : target = _ := by simpa using htarget.symm.trans hlink
              rw [List.append_nil] at next
              exact ih next
          | step _ hnode hreal _ => exact absurd (Option.some.inj (hnode.symm.trans htarget)) (hreal target)
        · rfl
      · rfl

/-- A file that a path leads to can be written. -/
theorem write_of_locate (h : fs.locate true path = .ok (at', .file old)) (content : ByteArray) :
    fs.write path content = .ok (fs.put at' (.file content)) := by
  have hslash := endsInSlash_of_leads_file linkLimit (leads_of_locate h)
  obtain ⟨target, hresolve, hfound⟩ := ok_of_bind h
  cases target with
  | free _ _ => cases hfound
  | found _ _ =>
      cases hfound
      simp [write, hslash, hresolve, bind, Except.bind, pure, Except.pure]

/-- A write replaces the file that its path leads to, or makes one where nothing is. -/
theorem cases_of_write (h : fs.write path content = .ok fs') :
    (∃ at' old, fs.locate true path = .ok (at', .file old) ∧ fs' = fs.put at' (.file content)) ∨
      ∃ place, fs.Free place ∧ fs' = fs.put place (.file content) := by
  obtain ⟨_, h⟩ := ok_of_guard h
  obtain ⟨target, hresolve, h⟩ := ok_of_bind h
  cases target with
  | found at' node =>
      cases node with
      | file old =>
          cases h
          refine .inl ⟨at', old, ?_, rfl⟩
          simp [locate, hresolve, bind, Except.bind, pure, Except.pure]
      | directory _ => cases h
      | link _ => cases h
  | free directory name =>
      cases h
      obtain ⟨⟨⟩, _, hfollow⟩ := ok_of_bind hresolve
      obtain ⟨hdir, hfree⟩ := (leads_of_follow hfollow).get?_of_free
      exact .inr ⟨_, ⟨directory, name, rfl, hdir, hfree⟩, rfl⟩

/-- A file keeps its content when something is set elsewhere, and not in place of a directory. -/
theorem get?_put_of_ne {place : Location} (hfile : fs.tree.get? at' = some (.file content))
    (hplace : fs.tree.shapeAt place ≠ some .directory) (hne : place ≠ at') (node : Node) :
    (fs.put place node).tree.get? at' = some (.file content) := by
  rw [← shapeAt_eq_file_iff] at hfile ⊢
  refine (Node.shapeAt_put_of_not_above node fs.tree ?_).trans hfile
  rintro ⟨below, rfl⟩
  refine hplace (Node.shapeAt_directory_of_append ?_ hfile)
  rintro rfl
  exact hne (List.append_nil place).symm

/-- Where a file is, something else can be put, unless it is the top. -/
theorem get?_put_file (hfile : fs.tree.get? at' = some (.file content))
    (htop : fs.tree.shapeAt [] = some .directory) (node : Node) :
    (fs.put at' node).tree.get? at' = some node := by
  rcases List.eq_nil_or_concat at' with rfl | ⟨parent, name, rfl⟩
  · cases htop.symm.trans (shapeAt_of_get? hfile)
  · rw [List.concat_eq_append] at hfile ⊢
    have hdir := Node.shapeAt_directory_of_append (by simp) (shapeAt_of_get? hfile)
    obtain ⟨entries, hentries⟩ := shapeAt_eq_directory_iff.1 hdir
    exact Node.get?_put node name hentries

/-! ## What is there after the making -/

/-- The file system once the directories above a path are made. -/
def prepared (fs : FileSystem) (path : String) : FileSystem × Except OsError Unit :=
  match Path.parent? path with
  | some parent => fs.makeDirectories parent
  | none => (fs, .ok ())

/-- What making a directory keeps is kept when the directories above a file are made. -/
theorem prepared_keeps {motive : FileSystem → Prop} (h : motive fs)
    (keep : ∀ fs fs' p, motive fs → fs.makeDirectory p = .ok fs' → motive fs') :
    motive (fs.prepared path).1 := by
  rw [prepared]
  split
  · exact makeDirectories_keeps h fun fs fs' p _ => keep fs fs' p
  · exact h

/-- Making the directories above a file only adds something. -/
theorem grown_prepared (fs : FileSystem) (path : String) : Grown fs (fs.prepared path).1 :=
  prepared_keeps (motive := Grown fs) (.refl fs)
    fun _ _ _ hgrown hmade => hgrown.trans (grown_of_makeDirectory hmade)

/-- Above a path that has a place, no directory has to be made. -/
theorem prepared_of_placeOf? {place : Location} (hplace : fs.placeOf? path = some place) :
    (fs.prepared path).1 = fs := by
  rw [prepared]
  split
  · rename_i parent hparent
    obtain ⟨_, _, _, habove, _⟩ := parent_of_placeOf? hplace
    exact (habove.there hparent).nothingToMake.makeDirectories_eq
  · rfl

/-- What is there was there before, or is a directory. -/
theorem shapeAt_or_directory {x : Shape} (h : (fs.prepared path).1.tree.shapeAt at' = some x) :
    fs.tree.shapeAt at' = some x ∨ x = .directory := by
  refine prepared_keeps (motive := fun now => ∀ at' x, now.tree.shapeAt at' = some x →
    fs.tree.shapeAt at' = some x ∨ x = .directory) (fun _ _ hx => .inl hx) ?_ at' x h
  intro now made p hnow hmade at' x hx
  obtain ⟨place, hstep, entries, hway⟩ := reaches_of_makeDirectory hmade
  rcases hstep.eq_image_or_made hx with ⟨_, hold, rfl⟩ | ⟨node, heffect⟩
  · exact hnow _ _ hold
  · obtain ⟨rfl, _⟩ := Effect.made.inj heffect
    exact .inr (Option.some.inj (hx.symm.trans (shapeAt_of_get? hway.get?_of_found)))

/-- If anything is made, then a directory above the path whose place was free. -/
theorem exists_vacant_of_prepared (h : (fs.prepared path).1 ≠ fs) :
    ∃ above directory name slash, Over above path ∧ Vacant fs above directory name slash := by
  rw [prepared] at h
  cases hparent : Path.parent? path with
  | none =>
      rw [hparent] at h
      exact absurd rfl h
  | some parent =>
      rw [hparent] at h
      have hnot : ¬ NothingToMake fs parent := fun hnothing => h hnothing.makeDirectories_eq
      simp only [NothingToMake, Classical.not_imp, Classical.not_forall, ne_eq, Classical.not_not] at hnot
      obtain ⟨_, above, habove, _, hmade⟩ := hnot
      obtain ⟨directory, name, slash, hvacant, _⟩ := makeDirectory_eq_ok_iff.1 hmade
      have hover := over_of_parent? hparent
      refine ⟨above, directory, name, slash, ?_, hvacant⟩
      rcases over_of_mem_ancestors habove with rfl | hhigher
      · exact hover
      · exact hhigher.trans hover

/-! ## Ways through new directories -/

/-- A path that leads nowhere leads to a file once the directories above it are made. -/
structure Revealed (fs : FileSystem) (path : String) (at' : Location) : Prop where
  nowhere : fs.exists? path = false
  made : (fs.prepared path).2 = .ok ()
  leads : ∃ content, (fs.prepared path).1.locate true path = .ok (at', .file content)

/-- A path leads to a directory, goes on to a name at which nothing is, and later leads up. -/
def DoublesBack (fs : FileSystem) (path : String) : Prop :=
  ∃ before name after directory entries, namesOf path = before ++ name :: after ∧
    Leads fs.tree true linkLimit (fs.start path) before (.found directory (.directory entries)) ∧
    EntryName name ∧ fs.tree.get? (directory ++ [name]) = none ∧ ".." ∈ after

/-- The top is a directory, if a path doubles back. -/
theorem DoublesBack.shapeAt_nil (h : DoublesBack fs path) :
    fs.tree.shapeAt [] = some .directory := by
  obtain ⟨_, _, _, directory, _, _, hway, _⟩ := h
  have hdir := shapeAt_of_get? hway.get?_of_found
  cases directory with
  | nil => exact hdir
  | cons name rest => exact Node.shapeAt_directory_of_append (List.cons_ne_nil name rest) hdir

/-- Where nothing was, a way that does not lead up leads to no file. -/
theorem not_file_of_below_free {last : Bool} {links : Nat} {names : List String}
    (hfree : fs.tree.get? at' = none) (hup : ".." ∉ names) {d : Location}
    (h : Leads (fs.prepared path).1.tree last links at' names (.found d (.file content))) : False := by
  generalize htarget : Target.found d (.file content) = t at h
  induction h with
  | here hnode =>
      cases htarget
      rcases shapeAt_or_directory (shapeAt_of_get? hnode) with hold | hdir
      · simp [Node.shapeAt, hfree] at hold
      · cases hdir
  | dot _ _ ih => exact ih hfree (fun hmem => hup (List.mem_cons_of_mem _ hmem)) htarget
  | up _ _ _ => exact hup List.mem_cons_self
  | free _ _ _ => cases htarget
  | link _ _ _ => cases htarget
  | jump _ _ hlink _ _ =>
      -- Links are as they were, and here was nothing.
      have hold := (grown_prepared fs path).links _ _ (shapeAt_of_get? hlink)
      simp [Node.shapeAt_append, hfree] at hold
  | step _ _ _ _ ih =>
      refine ih ?_ (fun hmem => hup (List.mem_cons_of_mem _ hmem)) htarget
      simp [Node.get?_append, hfree]

/-- A path to a file that is not there yet has to lead through a new directory, and up again. -/
theorem doublesBack_of_revealed (h : Revealed fs path at') : DoublesBack fs path := by
  obtain ⟨content, hlocate⟩ := h.leads
  have hnew : (fs.prepared path).1 ≠ fs := by
    intro hsame
    have hexists : fs.exists? path = true := by
      rw [hsame] at hlocate
      simp [exists?, stat, hlocate, Except.map, Except.isOk, Except.toBool]
    exact Bool.false_ne_true (h.nowhere.symm.trans hexists)
  obtain ⟨above, directory, name, slash, hover, hvacant⟩ := exists_vacant_of_prepared hnew
  have hparent := parent_of_parentOf hvacant.parent
  obtain ⟨entries, hway⟩ := hparent.leads
  obtain ⟨first, rest, hnames⟩ := hover.names
  rw [hparent.names, List.append_assoc, List.singleton_append] at hnames
  rw [hover.start_eq] at hway
  refine ⟨_, name, first :: rest, directory, entries, hnames, hway, hvacant.entryName, hvacant.free, ?_⟩
  refine Classical.byContradiction fun hup => ?_
  have hgrown := grown_prepared fs path
  have hfile := leads_namesOf hlocate
  rw [hgrown.start_eq, hnames] at hfile
  -- The way goes on in the directory in which the name was free.
  obtain ⟨d, node, left, _, hfirst, hlast⟩ := hfile.split (by simp)
  obtain ⟨_, hway'⟩ := hgrown.leads_directory hway
  obtain ⟨rfl, _⟩ := Target.found.inj (hfirst.target_unique hway')
  cases hlast with
  | dot _ _ => exact hparent.ne_dot rfl
  | up _ _ => exact hparent.ne_dots rfl
  | jump _ _ hlink _ =>
      have hold := hgrown.links _ _ (shapeAt_of_get? hlink)
      simp [Node.shapeAt, hvacant.free] at hold
  | step _ _ _ next => exact not_file_of_below_free hvacant.free hup next

end FileSystem
end ProjectConsistency
