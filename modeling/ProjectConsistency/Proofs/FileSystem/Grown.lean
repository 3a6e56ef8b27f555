import ProjectConsistency.Proofs.FileSystem.Inside
import ProjectConsistency.Proofs.Walk.Root

/-!
# Grown — a file system to which only new entries were added

Making files and directories adds entries and changes nothing else.  This file defines:

* `FileSystem.Grown` — everything is where it was, and no link is new.

A way that ends at a node still ends there (`Grown.leads`), so whatever a path led to it leads to
afterwards (`Grown.locate`).
-/

namespace ProjectConsistency
namespace FileSystem

open Node (shapeAt_of_get? shapeAt_eq_link_iff)

/-- Everything is where it was, as it was; no link is new; and the current directory is the same. -/
structure Grown (fs fs' : FileSystem) : Prop where
  kept : ∀ at' x, fs.tree.shapeAt at' = some x → fs'.tree.shapeAt at' = some x
  links : ∀ at' target, fs'.tree.shapeAt at' = some (.link target) →
    fs.tree.shapeAt at' = some (.link target)
  current : fs'.current = fs.current

/-! ## What growing keeps -/

namespace Grown

variable {fs fs' fs'' : FileSystem}

theorem refl (fs : FileSystem) : Grown fs fs :=
  ⟨fun _ _ h => h, fun _ _ h => h, rfl⟩

theorem trans (h : Grown fs fs') (h' : Grown fs' fs'') : Grown fs fs'' :=
  ⟨fun at' x hx => h'.kept at' x (h.kept at' x hx),
    fun at' target hlink => h.links at' target (h'.links at' target hlink),
    h'.current.trans h.current⟩

/-- Making something at a free place lets a file system grow. -/
theorem of_step {place : Location} {node : Node} (h : Step fs (.made place node) fs') :
    Grown fs fs' := by
  refine ⟨fun at' x hx => h.shapeAt_image hx, ?_, ?_⟩
  · intro at' target hlink
    rcases h.link_of_link hlink with ⟨old, hold, rfl⟩
    exact hold
  · cases h with
    | made _ _ => rfl

theorem directory (h : Grown fs fs') {at' : Location}
    (hdir : fs.tree.shapeAt at' = some .directory) : fs'.tree.shapeAt at' = some .directory :=
  h.kept _ _ hdir

theorem get?_link (h : Grown fs fs') {at' : Location} {target : String}
    (hlink : fs.tree.get? at' = some (.link target)) : fs'.tree.get? at' = some (.link target) :=
  shapeAt_eq_link_iff.1 (h.kept at' _ (shapeAt_of_get? hlink))

/-- A link that is there afterwards was there before. -/
theorem get?_link_before (h : Grown fs fs') {at' : Location} {target : String}
    (hlink : fs'.tree.get? at' = some (.link target)) : fs.tree.get? at' = some (.link target) :=
  shapeAt_eq_link_iff.1 (h.links at' target (shapeAt_of_get? hlink))

/-- A way that ends at a node still ends there, and the node is of the same shape. -/
theorem leads (h : Grown fs fs') {last : Bool} {links : Nat} {at' : Location}
    {names : List String} {d : Location} {node : Node}
    (hway : Leads fs.tree last links at' names (.found d node)) :
    ∃ node', Leads fs'.tree last links at' names (.found d node') ∧ node'.shape = node.shape := by
  generalize htarget : Target.found d node = found at hway
  -- Every step of the way is still possible: directories and links are kept.
  induction hway with
  | here hnode =>
      cases htarget
      rcases Option.map_eq_some_iff.1 (h.kept _ _ (shapeAt_of_get? hnode)) with
        ⟨node', hnode', hshape⟩
      exact ⟨node', .here hnode', hshape⟩
  | dot hdir _ ih =>
      rcases ih htarget with ⟨node', hway', hshape⟩
      exact ⟨node', .dot (h.directory hdir) hway', hshape⟩
  | up hdir _ ih =>
      rcases ih htarget with ⟨node', hway', hshape⟩
      exact ⟨node', .up (h.directory hdir) hway', hshape⟩
  | free _ _ _ => cases htarget
  | link hlast hname hlink =>
      cases htarget
      exact ⟨_, .link hlast hname (h.get?_link hlink), rfl⟩
  | jump hgoes hname hlink _ ih =>
      rcases ih htarget with ⟨node', hway', hshape⟩
      exact ⟨node', .jump hgoes hname (h.get?_link hlink) hway', hshape⟩
  | @step _ at' name child _ _ hname hnode hreal _ ih =>
      rcases ih htarget with ⟨node', hway', hshape⟩
      rcases Option.map_eq_some_iff.1 (h.kept _ _ (shapeAt_of_get? hnode)) with
        ⟨child', hchild', hsame⟩
      refine ⟨node', .step hname hchild' ?_ hway', hshape⟩
      rintro target rfl
      cases child with
      | link found => exact hreal found rfl
      | file _ => cases hsame
      | directory _ => cases hsame

/-- A way to a directory leads to the same directory afterwards. -/
theorem leads_directory (h : Grown fs fs') {last : Bool} {links : Nat} {at' : Location}
    {names : List String} {d : Location} {entries : List (String × Node)}
    (hway : Leads fs.tree last links at' names (.found d (.directory entries))) :
    ∃ entries', Leads fs'.tree last links at' names (.found d (.directory entries')) := by
  obtain ⟨node, hway', hshape⟩ := h.leads hway
  cases node with
  | file _ => cases hshape
  | link _ => cases hshape
  | directory entries' => exact ⟨entries', hway'⟩

/-- A path leads from the same directory as before. -/
theorem start_eq (h : Grown fs fs') (path : String) : fs'.start path = fs.start path := by
  simp [start, h.current]

/-- The last name of a path is in the same directory as before. -/
theorem parent (h : Grown fs fs') {path : String} {directory : Location} {name : String}
    {slash : Bool} (hparent : Parent fs path directory name slash) :
    Parent fs' path directory name slash := by
  obtain ⟨entries, hway⟩ := hparent.leads
  obtain ⟨entries', hway'⟩ := h.leads_directory hway
  exact { hparent with leads := ⟨entries', by rwa [h.start_eq]⟩ }

/-- What a path led to, it leads to afterwards. -/
theorem locate (h : Grown fs fs') {last : Bool} {path : String} {at' : Location} {node : Node}
    (hlocate : fs.locate last path = .ok (at', node)) :
    ∃ node', fs'.locate last path = .ok (at', node') ∧ node'.shape = node.shape := by
  rcases h.leads (leads_of_locate hlocate) with ⟨node', hway, hshape⟩
  rcases ok_of_bind hlocate with ⟨_, hresolve, _⟩
  rcases ok_of_bind hresolve with ⟨⟨⟩, hcheck, _⟩
  have hresolve' : fs'.resolve last path = .ok (.found at' node') := by
    simp only [resolve, hcheck, bind, Except.bind, h.start_eq]
    exact follow_of_leads hway
  exact ⟨node', by simp [FileSystem.locate, hresolve', bind, Except.bind, pure, Except.pure],
    hshape⟩

/-- A path that led to a file leads to the same file. -/
theorem stat_of_isFile (h : Grown fs fs') {path : String} (hfile : fs.isFile path = true) :
    fs'.stat path = fs.stat path := by
  rcases locate_of_isFile hfile with ⟨at', content, hlocate⟩
  rcases h.locate hlocate with ⟨node, hlocate', hshape⟩
  -- The shape of a file tells its content.
  obtain rfl : node = .file content := by
    cases node with
    | file _ => simpa [Node.shape] using hshape
    | link _ => cases hshape
    | directory _ => cases hshape
  simp [stat, hlocate, hlocate']

theorem isDirectory (h : Grown fs fs') {path : String} (hdir : fs.isDirectory path = true) :
    fs'.isDirectory path = true := by
  rcases locate_of_isDirectory hdir with ⟨at', entries, hlocate⟩
  rcases h.locate hlocate with ⟨node, hlocate', hshape⟩
  have hnode : node.isDirectory = true := by
    rw [Node.isDirectory_eq_shape, hshape]
    rfl
  simp [FileSystem.isDirectory, stat, hlocate', Except.map, hnode]

end Grown

/-! ## What makes it grow -/

section

variable {fs fs' : FileSystem} {path : String}

theorem grown_of_makeDirectory (h : fs.makeDirectory path = .ok fs') : Grown fs fs' := by
  obtain ⟨_, _, hstep⟩ := step_of_makeDirectory h
  exact .of_step hstep

theorem grown_of_newFile {content : ByteArray} (h : fs.newFile path content = .ok fs') :
    Grown fs fs' := by
  obtain ⟨_, _, hstep⟩ := step_of_newFile h
  exact .of_step hstep

end

end FileSystem
end ProjectConsistency
