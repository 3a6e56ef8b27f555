import ProjectConsistency.Proofs.FileSystem.Making

/-!
# Lasting — what cannot be made stays so

A path that comes upon no link, and on which nothing is left to make, leads nowhere new when other
things are added: the first name that is missing would have to be added first, and that is what could
not be made.  (A link may lead to nothing, and to a directory once that is added.)  This file defines:

* `FileSystem.onward` — where names lead if none of them is that of a link;
* `FileSystem.Clear` — taken name by name, a path comes upon no link;
* `FileSystem.Extended` — more was added, and the current directory is there.

Names that come upon no link lead onward and nowhere else (`Leads.eq_onward`).  So directories that
could not be made before (`NothingToMake.extended`) cannot be made afterwards, nor can a file be in
a place that it did not have (`Vacant.of_extended`).
-/

namespace ProjectConsistency
namespace FileSystem

open Node (shapeAt_of_get? shapeAt_eq_directory_iff)

variable {fs fs' fs'' : FileSystem} {path : String}

/-! ## Paths that come upon no link -/

/-- Where names lead from a directory if none of them is that of a link. -/
def onward : Location → List String → Location
  | at', [] => at'
  | at', name :: rest =>
      if name = "." then onward at' rest
      else if name = ".." then onward at'.dropLast rest
      else onward (at' ++ [name]) rest

/-- Taken name by name, the path comes upon no link. -/
def Clear (fs : FileSystem) (path : String) : Prop :=
  ∀ front, front <+: namesOf path → ∀ target,
    fs.tree.get? (onward (fs.start path) front) ≠ some (.link target)

section

variable {at' d : Location} {name : String} {names rest : List String}

theorem onward_entry (h : EntryName name) (rest : List String) :
    onward at' (name :: rest) = onward (at' ++ [name]) rest := by
  simp [onward, h.ne_dot, h.ne_dots]

theorem onward_append (at' : Location) (names rest : List String) :
    onward at' (names ++ rest) = onward (onward at' names) rest := by
  induction names generalizing at' with
  | nil => rfl
  | cons name names ih =>
      simp only [List.cons_append, onward, ih]
      split
      · rfl
      · split <;> rfl

/-- Names that come upon no link lead onward. -/
theorem Leads.eq_onward {tree : Node} {last : Bool} {links : Nat} {node : Node}
    (h : Leads tree last links at' names (.found d node))
    (hclear : ∀ front, front <+: names → ∀ target,
      tree.get? (onward at' front) ≠ some (.link target)) : d = onward at' names := by
  generalize ht : Target.found d node = t at h
  induction h with
  | here => cases ht; rfl
  | dot _ _ ih =>
      refine (ih (fun front hfront target => ?_) ht).trans (by simp [onward])
      simpa [onward] using hclear ("." :: front) ((List.prefix_cons_inj _).2 hfront) target
  | up _ _ ih =>
      refine (ih (fun front hfront target => ?_) ht).trans (by simp [onward])
      simpa [onward] using hclear (".." :: front) ((List.prefix_cons_inj _).2 hfront) target
  | free => cases ht
  | @link _ _ name target _ hname hlink =>
      have hfirst := hclear [name] (List.prefix_refl _) target
      rw [onward_entry hname] at hfirst
      exact absurd hlink hfirst
  | @jump _ _ name target rest _ _ hname hlink =>
      have hfirst := hclear [name] (List.prefix_append [name] rest) target
      rw [onward_entry hname] at hfirst
      exact absurd hlink hfirst
  | step hname _ _ _ ih =>
      refine (ih (fun front hfront target => ?_) ht).trans (onward_entry hname _).symm
      simpa [onward_entry hname] using hclear (_ :: front) ((List.prefix_cons_inj _).2 hfront) target

end

namespace Clear

/-- In a tree without links every path comes upon none. -/
theorem of_linkFree (h : fs.tree.LinkFree) (path : String) : fs.Clear path :=
  fun _ _ target => h _ target

/-- A path that comes upon no link does so when more is added. -/
theorem grown (h : fs.Clear path) (hgrown : Grown fs fs') : fs'.Clear path := by
  intro front hfront target hlink
  rw [hgrown.start_eq] at hlink
  exact h front hfront target (hgrown.get?_link_before hlink)

/-- The path above one that comes upon no link comes upon none. -/
theorem of_parent? {parent : String} (h : fs.Clear path) (hparent : Path.parent? path = some parent) :
    fs.Clear parent := by
  obtain ⟨dots, name, more, _, _, hnames, _⟩ := names_of_parent? hparent
  intro front hfront target
  rw [fs.start_of_parent? hparent]
  refine h front (hfront.trans ⟨dots ++ name :: more, ?_⟩) target
  rw [hnames, List.append_assoc]

/-- No path above one that comes upon no link comes upon one. -/
theorem of_mem_ancestors {above : String} (h : fs.Clear path) (habove : above ∈ ancestors path) :
    fs.Clear above := by
  induction path using parent_induction with
  | none path hparent =>
      obtain rfl : above = path := by simpa [ancestors_of_none hparent] using habove
      exact h
  | some path parent hparent ih =>
      rw [ancestors_of_parent? hparent] at habove
      rcases List.mem_cons.1 habove with rfl | habove
      · exact h
      · exact ih (h.of_parent? hparent) habove

/-- In the directory to which its first names lead, the next one is not that of a link. -/
theorem not_link (h : fs.Clear path) {last : Bool} {links : Nat} {front rest : List String}
    {name : String} {d : Location} {node : Node} (hnames : namesOf path = front ++ name :: rest)
    (hway : Leads fs.tree last links (fs.start path) front (.found d node)) (hname : EntryName name)
    (target : String) : fs.tree.get? (d ++ [name]) ≠ some (.link target) := by
  obtain rfl : d = onward (fs.start path) front :=
    hway.eq_onward fun above habove => h above (habove.trans ⟨name :: rest, hnames.symm⟩)
  have hplace := h (front ++ [name]) ⟨rest, by simp [hnames]⟩ target
  rwa [onward_append, onward_entry hname] at hplace

end Clear

/-! ## Names of trimmed paths -/

/-- A trimmed path ends in the name that the path above it does not have. -/
theorem names_of_trimmed {parent : String} (h : Path.parent? path = some parent)
    (htrim : Trimmed path) :
    ∃ dots name, Dots dots ∧ namesOf path = namesOf parent ++ (dots ++ [name]) ∧
      Trimmed parent := by
  obtain ⟨dots, name, more, hdots, hmore, hnames, hparent⟩ := names_of_parent? h
  rcases List.eq_nil_or_concat more with rfl | ⟨front, last, rfl⟩
  · exact ⟨dots, name, hdots, by simpa using hnames, hparent⟩
  · -- A dot behind the name would be the only name.
    obtain rfl : last = "." := hmore last (by simp)
    have hnone := htrim (namesOf parent ++ dots ++ name :: front) (by simpa using hnames)
    simp at hnone

/-- A path with a last name that is no dot is trimmed. -/
theorem Parent.trimmed {directory : Location} {name : String} {slash : Bool}
    (h : Parent fs path directory name slash) : Trimmed path := by
  intro above habove
  have hlast := congrArg List.getLast? (h.names.symm.trans habove)
  exact absurd (by simpa using hlast) h.ne_dot

/-! ## Dots on the way -/

namespace Leads

variable {tree : Node} {last : Bool} {links : Nat} {d : Location} {dots more : List String}
  {t : Target}

/-- Single dots before the names change nothing. -/
theorem after_dots (hdots : Dots dots) (hdir : tree.shapeAt d = some .directory)
    (h : Leads tree last links d more t) : Leads tree last links d (dots ++ more) t := by
  induction dots with
  | nil => exact h
  | cons dot dots ih =>
      obtain ⟨rfl, hrest⟩ := List.forall_mem_cons.1 hdots
      exact .dot hdir (ih hrest)

/-- Without the single dots before them the names lead to the same. -/
theorem of_after_dots (hdots : Dots dots) (h : Leads tree last links d (dots ++ more) t) :
    Leads tree last links d more t := by
  induction dots with
  | nil => exact h
  | cons dot dots ih =>
      obtain ⟨rfl, hrest⟩ := List.forall_mem_cons.1 hdots
      refine ih hrest ?_
      have hfollow := follow_of_leads h
      rw [List.cons_append, follow_dot (directory_of_follow_cons hfollow)] at hfollow
      exact leads_of_follow hfollow

/-- Single dots after a directory change nothing. -/
theorem append_dots {at' : Location} {names : List String} {node : Node}
    (hdots : Dots dots) (hdir : tree.shapeAt d = some .directory)
    (h : Leads tree true links at' names (.found d node)) :
    Leads tree true links at' (names ++ dots) (.found d node) := by
  by_cases hnone : dots = []
  · rwa [hnone, List.append_nil]
  · have hhere : Leads tree true 0 d (dots ++ []) (.found d node) :=
      .after_dots hdots hdir (.here h.get?_of_found)
    rw [List.append_nil] at hhere
    exact h.append hnone hhere

/-- A name that is not that of a link leads to a place by itself. -/
theorem single {name : String} {place : Location} {node : Node}
    (h : Leads tree last links d [name] (.found place node))
    (hnot : EntryName name → ∀ target, tree.get? (d ++ [name]) ≠ some (.link target)) :
    (name = "." ∧ place = d) ∨ (name = ".." ∧ place = d.dropLast) ∨
      (EntryName name ∧ place = d ++ [name]) := by
  cases h with
  | dot _ next =>
      cases next
      exact .inl ⟨rfl, rfl⟩
  | up _ next =>
      cases next
      exact .inr (.inl ⟨rfl, rfl⟩)
  | link _ hname hlink => exact absurd hlink (hnot hname _)
  | jump _ hname hlink _ => exact absurd hlink (hnot hname _)
  | step hname _ _ next =>
      cases next
      exact .inr (.inr ⟨hname, rfl⟩)

end Leads

/-! ## Adding more -/

/-- More was added, and the current directory was there. -/
structure Extended (fs fs' : FileSystem) : Prop extends Grown fs fs' where
  there : fs.tree.shapeAt fs.current = some .directory

theorem NothingToMake.of_mem_ancestors {above : String} (h : NothingToMake fs path)
    (hcheck : checkPath path = .ok ()) (habove : above ∈ ancestors path) :
    NothingToMake fs above :=
  fun _ higher hhigher => h hcheck higher (mem_ancestors_trans habove hhigher)

namespace Extended

/-- More can be added later. -/
theorem next (h : Extended fs fs') (hgrown : Grown fs' fs'') : Extended fs' fs'' where
  toGrown := hgrown
  there := by
    rw [h.current]
    exact h.kept _ _ h.there

/-- Where a path begins there is a directory. -/
theorem start_directory (h : Extended fs fs') (path : String) :
    fs.tree.shapeAt (fs.start path) = some .directory := by
  rw [start]
  split
  · by_cases htop : fs.current = []
    · exact htop ▸ h.there
    · exact Node.shapeAt_directory_of_append (a := []) htop h.there
  · exact h.there

/-- Where a name leads to a directory, it led there before, unless it was free. -/
theorem leads_single (h : Extended fs fs') {d place : Location} {name : String} {links : Nat}
    {entries : List (String × Node)} (hdir : fs.tree.shapeAt d = some .directory)
    (hway : Leads fs'.tree true links d [name] (.found place (.directory entries)))
    (htaken : EntryName name → fs.tree.get? (d ++ [name]) ≠ none)
    (hnot : EntryName name → ∀ target, fs.tree.get? (d ++ [name]) ≠ some (.link target)) :
    ∃ inside, Leads fs.tree true 0 d [name] (.found place (.directory inside)) := by
  have hlater : EntryName name → ∀ target, fs'.tree.get? (d ++ [name]) ≠ some (.link target) :=
    fun hname target hlink => hnot hname target (h.toGrown.get?_link_before hlink)
  rcases hway.single hlater with ⟨rfl, rfl⟩ | ⟨rfl, rfl⟩ | ⟨hname, rfl⟩
  · obtain ⟨inside, hinside⟩ := shapeAt_eq_directory_iff.1 hdir
    exact ⟨inside, .dot hdir (.here hinside)⟩
  · have hup : fs.tree.shapeAt d.dropLast = some .directory := by
      rcases List.eq_nil_or_concat d with rfl | ⟨above, last, rfl⟩
      · exact hdir
      · rw [List.concat_eq_append] at hdir ⊢
        rw [List.dropLast_concat]
        exact Node.shapeAt_directory_of_append (by simp) hdir
    obtain ⟨inside, hinside⟩ := shapeAt_eq_directory_iff.1 hup
    exact ⟨inside, .up hdir (.here hinside)⟩
  · obtain ⟨node, hnode⟩ := Option.ne_none_iff_exists'.1 (htaken hname)
    -- What was there is of the same shape now.
    have hshape := h.kept _ _ (shapeAt_of_get? hnode)
    rw [shapeAt_of_get? hway.get?_of_found] at hshape
    cases node with
    | file _ => cases hshape
    | link _ => cases hshape
    | directory inside => exact ⟨inside, .step hname hnode (by simp) (.here hnode)⟩

/-- If a path led where it leads, it led there also with dots behind it. -/
theorem leads_dots (h : Extended fs fs') {dots more : List String} {place : Location}
    {entries : List (String × Node)} (hdots : Dots dots)
    (hpath : ∀ d, Reaches fs' path d → Reaches fs path d)
    (hway : Leads fs'.tree true linkLimit (fs.start path) (namesOf path ++ (dots ++ more))
      (.found place (.directory entries))) :
    ∃ d inside left, Leads fs.tree true linkLimit (fs.start path) (namesOf path ++ dots)
        (.found d (.directory inside)) ∧
      Leads fs'.tree true left d more (.found place (.directory entries)) := by
  obtain ⟨d, inside', hfirst⟩ := hway.directory_of_append
  obtain ⟨left, _, hrest⟩ := hfirst.of_append hway
  obtain ⟨inside, hbefore⟩ := hpath d ⟨inside', by rwa [h.toGrown.start_eq]⟩
  exact ⟨d, inside, left, hbefore.append_dots hdots (shapeAt_of_get? hbefore.get?_of_found),
    hrest.of_after_dots hdots⟩

/-- Where no directory of a path can be made, the path leads to no other directory later. -/
theorem reaches (h : Extended fs fs') {place : Location} (hnothing : NothingToMake fs path)
    (hcheck : path = "" ∨ checkPath path = .ok ()) (htrim : Trimmed path) (hclear : fs.Clear path)
    (hreaches : Reaches fs' path place) : Reaches fs path place := by
  -- From one path to the next: a name more leads on only to what is there.
  induction path using parent_induction generalizing place with
  | none path hparent =>
      obtain ⟨entries, hway⟩ := hreaches
      have hdots := dots_of_parent? hparent
      have hdir := h.start_directory path
      obtain ⟨inside, hinside⟩ := shapeAt_eq_directory_iff.1 hdir
      rw [h.toGrown.start_eq, ← List.append_nil (namesOf path)] at hway
      have hhere : Leads fs'.tree true linkLimit (fs.start path) [] _ := hway.of_after_dots hdots
      cases hhere
      have hsame : Leads fs.tree true linkLimit (fs.start path) ([] ++ namesOf path) _ :=
        .append_dots hdots hdir (.here hinside)
      exact ⟨inside, hsame⟩
  | some path parent hparent ih =>
      obtain ⟨dots, name, hdots, hnames, htrim'⟩ := names_of_trimmed hparent htrim
      have hpath : path ≠ "" := by
        rintro rfl
        cases hparent
      have hchecked := hcheck.resolve_left hpath
      have habove := parent_mem_ancestors hparent
      have hstart := fs.start_of_parent? hparent
      obtain ⟨entries, hway⟩ := hreaches
      rw [h.toGrown.start_eq, ← hstart, hnames] at hway
      obtain ⟨d, inside, left, hupper, hlast⟩ := h.leads_dots hdots
        (fun _ => ih (hnothing.of_mem_ancestors hchecked habove)
          (checkPath_of_mem_ancestors hchecked habove) htrim' (hclear.of_parent? hparent)) hway
      have hdir := shapeAt_of_get? hupper.get?_of_found
      -- Were the name free, the directory of the path could have been made there.
      have htaken : EntryName name → fs.tree.get? (d ++ [name]) ≠ none := by
        intro hname hfree
        have hparent : Parent fs path d name (asksDirectory path) :=
          .of_leads hchecked (by rw [hnames, List.append_assoc]) (hstart ▸ hupper) hname.ne_dot
            hname.ne_dots
        have hvacant : Vacant fs path d name (asksDirectory path) :=
          ⟨hparent.parentOf_eq, hname.short, hfree⟩
        exact hnothing hchecked path (self_mem_ancestors path) _
          (makeDirectory_eq_ok_iff.2 ⟨_, _, _, hvacant, rfl⟩)
      have hnot : EntryName name → ∀ target, fs.tree.get? (d ++ [name]) ≠ some (.link target) :=
        hclear.not_link (by rw [hnames, List.append_assoc]) (hstart ▸ hupper)
      obtain ⟨inside', hmore⟩ := h.leads_single hdir hlast htaken hnot
      refine ⟨inside', ?_⟩
      rw [← hstart, hnames, ← List.append_assoc]
      exact hupper.append (by simp) hmore

/-- A place that is free now, on a path of which nothing above could be made, was free before. -/
theorem vacant (h : Extended fs fs') (hclear : fs.Clear path) {directory : Location} {name : String}
    {slash : Bool}
    (hnothing : ∀ parent, Path.parent? path = some parent → NothingToMake fs parent)
    (hvacant : Vacant fs' path directory name slash) : Vacant fs path directory name slash := by
  have hparent := parent_of_parentOf hvacant.parent
  obtain rfl := hparent.slash_eq
  -- What was there before would still be there.
  have hfree : fs.tree.get? (directory ++ [name]) = none := by
    cases hnode : fs.tree.get? (directory ++ [name]) with
    | none => rfl
    | some node =>
        have hlater := h.kept _ _ (shapeAt_of_get? hnode)
        simp [Node.shapeAt, hvacant.free] at hlater
  obtain ⟨entries, hway⟩ := hparent.leads
  cases habove : Path.parent? path with
  | none =>
      -- The last name would be a dot.
      refine absurd (dots_of_parent? habove name ?_) hparent.ne_dot
      rw [hparent.names]
      simp
  | some above =>
      obtain ⟨dots, last, hdots, hnames, htrim⟩ := names_of_trimmed habove hparent.trimmed
      rw [← List.append_assoc] at hnames
      obtain ⟨hupper, hlast⟩ := List.append_inj' (hnames.symm.trans hparent.names) rfl
      obtain rfl : last = name := by simpa using hlast
      have hstart := fs.start_of_parent? habove
      rw [← hupper, h.toGrown.start_eq, ← hstart, ← List.append_nil (namesOf above ++ dots),
        List.append_assoc] at hway
      obtain ⟨d, inside, left, hbefore, hhere⟩ := h.leads_dots hdots
        (fun _ => h.reaches (hnothing above habove)
          (checkPath_of_mem_ancestors hparent.checked (parent_mem_ancestors habove)) htrim
          (hclear.of_parent? habove)) hway
      cases hhere
      exact ⟨(Parent.of_leads hparent.checked hnames (hstart ▸ hbefore) hparent.ne_dot
        hparent.ne_dots).parentOf_eq, hvacant.short, hfree⟩

/-- A directory that can be made where none above it could be made could be made before. -/
theorem makeDirectory (h : Extended fs fs') (hclear : fs.Clear path)
    (hnothing : ∀ parent, Path.parent? path = some parent → NothingToMake fs parent)
    (hmade : fs'.makeDirectory path = .ok fs'') : ∃ made, fs.makeDirectory path = .ok made := by
  obtain ⟨_, _, _, hvacant, _⟩ := makeDirectory_eq_ok_iff.1 hmade
  exact ⟨_, makeDirectory_eq_ok_iff.2 ⟨_, _, _, h.vacant hclear hnothing hvacant, rfl⟩⟩

/-- A file that can be made where no directory above it could be made could be made before. -/
theorem newFile (h : Extended fs fs') (hclear : fs.Clear path)
    (hnothing : ∀ parent, Path.parent? path = some parent → NothingToMake fs parent)
    {content : ByteArray} (hmade : fs'.newFile path content = .ok fs'') :
    ∃ made, fs.newFile path content = .ok made := by
  obtain ⟨_, _, hvacant, _⟩ := newFile_eq_ok_iff.1 hmade
  exact ⟨_, newFile_eq_ok_iff.2 ⟨_, _, h.vacant hclear hnothing hvacant, rfl⟩⟩

end Extended

/-- Directories that could not be made cannot be made after other things were added. -/
theorem NothingToMake.extended (hnothing : NothingToMake fs path) (h : Extended fs fs')
    (hclear : fs.Clear path) : NothingToMake fs' path := by
  intro hcheck above habove fs'' hmade
  have hupper : ∀ parent, Path.parent? above = some parent → NothingToMake fs parent :=
    fun parent hparent => hnothing.of_mem_ancestors hcheck
      (mem_ancestors_trans habove (parent_mem_ancestors hparent))
  obtain ⟨made, hbefore⟩ := h.makeDirectory (hclear.of_mem_ancestors habove) hupper hmade
  exact hnothing hcheck above habove made hbefore

end FileSystem
end ProjectConsistency
