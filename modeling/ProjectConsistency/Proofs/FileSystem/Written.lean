import ProjectConsistency.Proofs.FileSystem.Locations
import ProjectConsistency.Proofs.Fix.Upkeep
import ProjectConsistency.Proofs.Walk.Root

/-!
# Written — a file is written in a directory that is there

A write replaces the content of a file, or makes one where there was nothing.  This file defines:

* `FileSystem.Written` — a file with a content is at a place, and everything else is as it was.

Unless there is a link at its place, a write that succeeds is one of these (`written_of_write`).  It
changes neither directories nor links (`Written.shapeAt_iff`), so the paths of directories lead where
they did (`Written.locate_directory`), and in the directory of its place one entry is set
(`Written.get?_directory`).
-/

namespace ProjectConsistency

namespace Node

/-- A change of one entry is seen in the directory that holds the entry. -/
theorem get?_alter_parent (change : Option Node → Option Node) (name : String) {parent : Location}
    {tree : Node} {entries : List (String × Node)}
    (h : tree.get? parent = some (directory entries)) :
    (tree.alter change (parent ++ [name])).get? parent
      = some (directory (setEntry name entries (change (Assoc.find? name entries)))) := by
  induction parent generalizing tree with
  | nil =>
      obtain rfl : tree = directory entries := by simpa [get?] using h
      rfl
  | cons first rest ih =>
      cases tree with
      | file _ => simp [get?] at h
      | link _ => simp [get?] at h
      | directory above =>
          simp only [get?] at h
          rcases Option.bind_eq_some_iff.1 h with ⟨child, hchild, hrest⟩
          rw [List.cons_append, alter_cons change first (by simp) hchild]
          simpa [get?, Assoc.find?_put] using ih hrest

end Node

namespace FileSystem

open Node (shapeAt_of_get? shapeAt_eq_directory_iff)

variable {fs fs' : FileSystem} {path name : String} {directory : Location}
  {old : Option ByteArray} {content : ByteArray}

/-- A file with a content is at a place, where there was a file or nothing; the rest is as it was. -/
structure Written (fs : FileSystem) (directory : Location) (name : String) (old : Option ByteArray)
    (content : ByteArray) (fs' : FileSystem) : Prop where
  there : fs.tree.shapeAt directory = some .directory
  canHold : Node.CanHold name
  old_eq : fs.tree.get? (directory ++ [name]) = old.map Node.file
  eq_put : fs' = fs.put (directory ++ [name]) (.file content)

/-! ## Writes -/

theorem parent_of_placeOf?_append (h : fs.placeOf? path = some (directory ++ [name])) :
    ∃ slash, fs.parentOf path = .ok (directory, .name name slash) := by
  rw [placeOf?] at h
  split at h
  · rename_i directory' name' slash hparent
    obtain ⟨rfl, rfl⟩ : directory' = directory ∧ name' = name := by simpa using h
    exact ⟨slash, hparent⟩
  · cases h

/-- A path that can be written to has no slash at its end. -/
theorem asksDirectory_of_write (hplace : fs.placeOf? path = some (directory ++ [name]))
    (h : fs.write path content = .ok fs') : asksDirectory path = false := by
  obtain ⟨hslash, _⟩ := ok_of_guard h
  obtain ⟨slash, hparent⟩ := parent_of_placeOf?_append hplace
  rw [← (parent_of_parentOf hparent).slash_eq, Bool.eq_false_iff]
  rintro rfl
  exact hslash (by simp [linkLimit, endsInSlash, hparent])

/-- Where a path has a place, the path names the entry there, unless the entry is a link. -/
theorem resolve_of_placeOf? (hplace : fs.placeOf? path = some (directory ++ [name]))
    (hname : EntryName name) (hslash : asksDirectory path = false)
    (hlink : ∀ target, fs.tree.get? (directory ++ [name]) ≠ some (.link target)) :
    fs.resolve true path = .ok (match fs.tree.get? (directory ++ [name]) with
      | some node => .found (directory ++ [name]) node
      | none => .free directory name) := by
  obtain ⟨slash, hparentOf⟩ := parent_of_placeOf?_append hplace
  have hparent := parent_of_parentOf hparentOf
  rcases hparent.leads with ⟨entries, hway⟩
  have hresolve : ∀ t, Leads fs.tree true 0 directory [name] t → fs.resolve true path = .ok t := by
    intro t hlast
    have hall := hway.append (by simp) hlast
    rw [← hparent.names] at hall
    simpa [resolve, hparent.checked, hslash, bind, Except.bind] using follow_of_leads hall
  cases hnode : fs.tree.get? (directory ++ [name]) with
  | some node =>
      exact hresolve _ (.step hname hnode (fun target h => hlink target (h ▸ hnode)) (.here hnode))
  | none => exact hresolve _ (.free hparent.shapeAt hname hnode)

/-- Where there is no link, a write changes the content at its own place. -/
theorem written_of_write (hplace : fs.placeOf? path = some (directory ++ [name]))
    (hname : Node.CanHold name)
    (hlink : ∀ target, fs.tree.get? (directory ++ [name]) ≠ some (.link target))
    (h : fs.write path content = .ok fs') : ∃ old, Written fs directory name old content fs' := by
  have hslash := asksDirectory_of_write hplace h
  have hresolve := resolve_of_placeOf? hplace (hname.plain.entryName hname.short) hslash hlink
  obtain ⟨slash, hparentOf⟩ := parent_of_placeOf?_append hplace
  have hthere := (parent_of_parentOf hparentOf).shapeAt
  obtain ⟨_, h⟩ := ok_of_guard h
  rcases ok_of_bind h with ⟨target, htarget, h⟩
  rw [hresolve] at htarget
  cases hnode : fs.tree.get? (directory ++ [name]) with
  | none =>
      rw [hnode] at htarget
      cases htarget
      cases h
      exact ⟨none, hthere, hname, hnode, rfl⟩
  | some node =>
      rw [hnode] at htarget
      cases htarget
      cases node with
      | file before =>
          cases h
          exact ⟨some before, hthere, hname, hnode, rfl⟩
      | directory _ => cases h
      | link target => exact absurd hnode (hlink target)

/-! ## What a write keeps -/

namespace Written

variable (h : Written fs directory name old content fs')

include h

theorem current_eq : fs'.current = fs.current := by
  rw [h.eq_put]
  rfl

theorem tree_eq : fs'.tree = Node.put (.file content) (directory ++ [name]) fs.tree := by
  rw [h.eq_put]
  rfl

/-- A tree is well-formed after a file was written. -/
theorem wellFormed (hfs : fs.tree.WellFormed) : fs'.tree.WellFormed := by
  rw [h.tree_eq]
  exact hfs.put h.canHold (.file content)

/-- At the place and below it there was no directory and no link, and there is none afterwards. -/
theorem shapeAt_iff {x : Shape} (hx : ∀ c, x ≠ .file c) (at' : Location) :
    fs'.tree.shapeAt at' = some x ↔ fs.tree.shapeAt at' = some x := by
  rw [h.tree_eq]
  by_cases habove : directory ++ [name] <+: at'
  · rcases habove with ⟨below, rfl⟩
    rw [Node.shapeAt_put_append _ name h.there, Node.shapeAt_append, h.old_eq]
    have hfile : ∀ c, (Node.file c).shapeAt below ≠ some x := by
      intro c hshape
      cases below with
      | nil => exact hx c (Option.some.inj hshape).symm
      | cons _ _ => cases hshape
    cases old with
    | none => simp [hfile]
    | some before => simp [hfile]
  · rw [Node.shapeAt_put_of_not_above _ _ habove]

/-- Writing a file makes no directory and removes none. -/
theorem directory_iff (at' : Location) :
    fs'.tree.shapeAt at' = some .directory ↔ fs.tree.shapeAt at' = some .directory :=
  h.shapeAt_iff (by simp) at'

/-- Writing a file leaves all links. -/
theorem get?_link {at' : Location} {target : String}
    (hlink : fs.tree.get? at' = some (.link target)) : fs'.tree.get? at' = some (.link target) := by
  have hshape := (h.shapeAt_iff (x := .link target) (by simp) at').2 (shapeAt_of_get? hlink)
  exact Node.shapeAt_eq_link_iff.1 hshape

theorem get?_directory {entries : List (String × Node)}
    (hentries : fs.tree.get? directory = some (.directory entries)) :
    fs'.tree.get? directory = some (.directory (Assoc.put name (.file content) entries)) := by
  rw [h.tree_eq]
  exact Node.get?_alter_parent _ name hentries

/-- A way to a directory leads there still. -/
theorem leads {last : Bool} {links : Nat} {at' : Location} {names : List String} {d : Location}
    {entries : List (String × Node)}
    (hway : Leads fs.tree last links at' names (.found d (.directory entries))) :
    ∃ entries', Leads fs'.tree last links at' names (.found d (.directory entries')) := by
  generalize htarget : Target.found d (.directory entries) = found at hway
  induction hway with
  | here hnode =>
      cases htarget
      rcases shapeAt_eq_directory_iff.1 ((h.directory_iff _).2 (shapeAt_of_get? hnode)) with
        ⟨entries', hentries'⟩
      exact ⟨entries', .here hentries'⟩
  | dot hdir _ ih =>
      rcases ih htarget with ⟨entries', hway'⟩
      exact ⟨entries', .dot ((h.directory_iff _).2 hdir) hway'⟩
  | up hdir _ ih =>
      rcases ih htarget with ⟨entries', hway'⟩
      exact ⟨entries', .up ((h.directory_iff _).2 hdir) hway'⟩
  | free _ _ _ => cases htarget
  | link _ _ _ => cases htarget
  | jump hgoes hname hlink _ ih =>
      rcases ih htarget with ⟨entries', hway'⟩
      exact ⟨entries', .jump hgoes hname (h.get?_link hlink) hway'⟩
  | @step _ at' entry node rest _ hname hnode hreal next ih =>
      rcases ih htarget with ⟨entries', hway'⟩
      -- The way goes on to a directory, so what it steps to is one.
      have hdir : fs.tree.shapeAt (at' ++ [entry]) = some .directory := by
        cases hrest : rest with
        | nil =>
            rw [hrest] at next
            cases next with
            | here hnode' =>
                cases htarget
                exact shapeAt_of_get? hnode'
        | cons _ _ =>
            rw [hrest] at next
            exact directory_of_follow_cons (follow_of_leads next)
      rcases shapeAt_eq_directory_iff.1 ((h.directory_iff _).2 hdir) with ⟨inside, hinside⟩
      exact ⟨entries', .step hname hinside (by simp) hway'⟩

/-- A path that led to a directory leads to it still. -/
theorem locate_directory {last : Bool} {path : String} {at' : Location}
    {entries : List (String × Node)} (hlocate : fs.locate last path = .ok (at', .directory entries)) :
    ∃ entries', fs'.locate last path = .ok (at', .directory entries') := by
  rcases h.leads (leads_of_locate hlocate) with ⟨entries', hway⟩
  rcases ok_of_bind hlocate with ⟨_, hresolve, _⟩
  rcases ok_of_bind hresolve with ⟨⟨⟩, hcheck, _⟩
  have hstart : fs'.start path = fs.start path := by simp [start, h.current_eq]
  have hresolve' : fs'.resolve last path = .ok (.found at' (.directory entries')) := by
    simp only [resolve, hcheck, bind, Except.bind, hstart]
    exact follow_of_leads hway
  exact ⟨entries', by simp [locate, hresolve', bind, Except.bind, pure, Except.pure]⟩

/-- There are as many directories as before. -/
theorem directoryCount_sorted (hfs : fs.tree.WellFormed) :
    fs'.tree.sorted.directoryCount = fs.tree.sorted.directoryCount := by
  have hperm : fs'.tree.directories.Perm fs.tree.directories :=
    (List.perm_ext_iff_of_nodup (h.wellFormed hfs).nodup_directories hfs.nodup_directories).2
      fun at' => by
        rw [(h.wellFormed hfs).mem_directories_iff, hfs.mem_directories_iff, h.directory_iff]
  rw [← Node.length_directories, ← Node.length_directories,
    (Node.directories_sorted _).length_eq, (Node.directories_sorted _).length_eq, hperm.length_eq]

end Written

end FileSystem
end ProjectConsistency
