import ProjectConsistency.Proofs.FileSystem.Guard
import ProjectConsistency.Proofs.Path.Above

/-!
# Inside — changes that stay inside a root

Links and dots can lead out of a directory.  This file defines:

* `FileSystem.staysBelow` — names that lead up at first only, and not too far;
* `FileSystem.keepsInside` — the target of a link, or another path, that does not leave a root;
* `FileSystem.Fenced` — all links in a root keep inside it;
* `FileSystem.OnWay` — where one can be, with names still to follow, without having left a root;
* `FileSystem.Downward` — a path from the top that leads to a root, or into it;
* `FileSystem.Kept` — a root is there and fenced, and outside of it nothing has changed.

Names that are on their way into a fenced root lead into it (`Leads.inside`).  A change within one
directory inside the root keeps the root (`Kept.step`), since it neither makes links nor brings them
closer to the root, and so do the operations at downward paths (`Kept.makeDirectory`,
`Kept.newFile`, `Kept.rename`).
-/

namespace ProjectConsistency

/-- The location at which a path ends. -/
def Target.place : Target → Location
  | .found at' _ => at'
  | .free directory name => directory ++ [name]

namespace FileSystem

open Node

/-! ## Names that do not lead out -/

/--
From a directory that lies `depth` names below another one, the names lead nowhere above that one,
whatever they lead through: they lead up at first, and not any more after a name that is looked up.
-/
def staysBelow : Nat → List String → Bool
  | _, [] => true
  | depth, name :: rest =>
      if name = "." then staysBelow depth rest
      else if name = ".." then 0 < depth && staysBelow (depth - 1) rest
      else !rest.contains ".."

/-- A path from a directory that lies `depth` names below a root does not leave the root. -/
def keepsInside (root : Location) (depth : Nat) (path : String) : Bool :=
  if fromTop path then root.isPrefixOf (namesOf path) && !(namesOf path).contains ".."
  else staysBelow depth (namesOf path)

def Fenced (tree : Node) (root : Location) : Prop :=
  ∀ below name target, tree.shapeAt (root ++ below ++ [name]) = some (.link target) →
    keepsInside root below.length target = true

section

variable {depth : Nat} {name : String} {names rest more : List String}

/-- Names that never lead up stay below. -/
theorem staysBelow_of_not_mem (h : ".." ∉ names) : staysBelow depth names = true := by
  induction names with
  | nil => rfl
  | cons name rest ih =>
      have hcons : ".." ≠ name ∧ ".." ∉ rest := by simpa using h
      by_cases hdot : name = "."
      · simpa [staysBelow, hdot] using ih hcons.2
      · simpa [staysBelow, hdot, Ne.symm hcons.1] using hcons.2

/-- After a name that is looked up, nothing leads up any more. -/
theorem not_mem_of_staysBelow (hname : EntryName name)
    (h : staysBelow depth (name :: rest) = true) : ".." ∉ rest := by
  simpa [staysBelow, hname.ne_dot, hname.ne_dots] using h

/-- A step up is taken only from below the root. -/
theorem up_of_staysBelow (h : staysBelow depth (".." :: rest) = true) :
    0 < depth ∧ staysBelow (depth - 1) rest = true := by
  simpa [staysBelow] using h

theorem staysBelow_append (h : staysBelow depth names = true) (hmore : ".." ∉ more) :
    staysBelow depth (names ++ more) = true := by
  induction names generalizing depth with
  | nil => exact staysBelow_of_not_mem hmore
  | cons name rest ih =>
      -- The cases of the definition: a dot, two dots, and a name after which there is no way up.
      by_cases hdot : name = "."
      · simpa [staysBelow, hdot] using ih (by simpa [staysBelow, hdot] using h)
      · by_cases hdots : name = ".."
        · obtain ⟨hpos, hrest⟩ := up_of_staysBelow (hdots ▸ h)
          simpa [staysBelow, hdots] using ⟨hpos, ih hrest⟩
        · have hrest : ".." ∉ rest := by simpa [staysBelow, hdot, hdots] using h
          simp [staysBelow, hdot, hdots, hrest, hmore]

theorem not_mem_of_staysBelow_zero (h : staysBelow 0 names = true) : ".." ∉ names := by
  induction names with
  | nil => simp
  | cons name rest ih =>
      by_cases hdot : name = "."
      · simpa [hdot] using ih (by simpa [staysBelow, hdot] using h)
      · by_cases hdots : name = ".."
        · simp [staysBelow, hdots] at h
        · have hrest : ".." ∉ rest := by simpa [staysBelow, hdot, hdots] using h
          simp [Ne.symm hdots, hrest]

end

/-! ## The way into a root -/

/-- One is inside a root and does not leave it, or the names lead down into it first. -/
def OnWay (root at' : Location) (names : List String) : Prop :=
  (∃ below, at' = root ++ below ∧ staysBelow below.length names = true) ∨
    ∃ name down more, root = at' ++ name :: down ∧ names = name :: (down ++ more) ∧ ".." ∉ more

section

variable {tree : Node} {root at' : Location} {names : List String}

theorem OnWay.toward {down more : List String} (hroot : root = at' ++ down) (hmore : ".." ∉ more) :
    OnWay root at' (down ++ more) := by
  cases down with
  | nil => exact .inl ⟨[], by simpa using hroot.symm, staysBelow_of_not_mem hmore⟩
  | cons name down => exact .inr ⟨name, down, more, hroot, rfl, hmore⟩

/-- A link that keeps inside a root is on its way into it, and so are the names after it. -/
theorem OnWay.jump {below : Location} {target : String} {rest : List String}
    (hkeeps : keepsInside root below.length target = true) (hrest : ".." ∉ rest) :
    OnWay root (linkStart (root ++ below) target) (stepsOf target ++ rest) := by
  -- The dot for a slash at the end of the target leads nowhere.
  have hslash : ".." ∉ (if asksDirectory target then ["."] else []) ++ rest := by
    by_cases hasks : asksDirectory target = true <;> simp [hasks, hrest]
  rw [stepsOf, List.append_assoc]
  -- A target from the top leads down to the root first; another one starts inside of it.
  by_cases htop : fromTop target = true
  · have hparts : root <+: namesOf target ∧ ".." ∉ namesOf target := by
      simpa [keepsInside, htop] using hkeeps
    rcases hparts with ⟨⟨more, hmore⟩, hdots⟩
    rw [linkStart, if_pos htop, ← hmore, List.append_assoc]
    refine .toward rfl ?_
    intro hmem
    rcases List.mem_append.1 hmem with hmem | hmem
    · exact hdots (hmore ▸ List.mem_append_right _ hmem)
    · exact hslash hmem
  · have hstays : staysBelow below.length (namesOf target) = true := by
      simpa [keepsInside, htop] using hkeeps
    rw [linkStart, if_neg htop]
    exact .inl ⟨below, rfl, staysBelow_append hstays hslash⟩

/-- What is above a directory is one. -/
theorem directory_of_above {a : Location} (hthere : tree.shapeAt root = some .directory)
    (h : a <+: root) : tree.shapeAt a = some .directory := by
  rcases h with ⟨rest, rfl⟩
  by_cases hrest : rest = []
  · simpa [hrest] using hthere
  · exact shapeAt_directory_of_append hrest hthere

/-- Names that are on their way into a fenced root lead into it. -/
theorem Leads.inside (hnames : ∀ name ∈ root, EntryName name)
    (hthere : tree.shapeAt root = some .directory) (hfence : Fenced tree root) {last : Bool}
    {links : Nat} {t : Target} (h : Leads tree last links at' names t)
    (hway : OnWay root at' names) : root <+: t.place := by
  -- By induction on the way: each step leads from being on the way to being on the way.  The root has
  -- neither dots nor links in it, so above it there are only steps straight down.
  induction h with
  | here hnode =>
      rcases hway with ⟨below, rfl, _⟩ | ⟨_, _, _, _, hnil, _⟩
      · exact List.prefix_append _ _
      · cases hnil
  | dot hdir _ ih =>
      rcases hway with ⟨below, rfl, hstays⟩ | ⟨name, down, more, hroot, hcons, _⟩
      · exact ih (.inl ⟨below, rfl, by simpa [staysBelow] using hstays⟩)
      · obtain ⟨rfl, _⟩ := List.cons.inj hcons
        exact absurd rfl (hnames "." (by simp [hroot])).ne_dot
  | up hdir _ ih =>
      rcases hway with ⟨below, rfl, hstays⟩ | ⟨name, down, more, hroot, hcons, _⟩
      · obtain ⟨hpos, hrest⟩ := up_of_staysBelow hstays
        have hne : below ≠ [] := List.length_pos_iff.1 hpos
        refine ih (.inl ⟨below.dropLast, List.dropLast_append_of_ne_nil hne, ?_⟩)
        rwa [List.length_dropLast]
      · obtain ⟨rfl, _⟩ := List.cons.inj hcons
        exact absurd rfl (hnames ".." (by simp [hroot])).ne_dots
  | free _ _ _ =>
      rcases hway with ⟨below, rfl, _⟩ | ⟨name, down, more, hroot, hcons, _⟩
      · exact ⟨below ++ [_], (List.append_assoc _ _ _).symm⟩
      · obtain ⟨rfl, hnil⟩ := List.cons.inj hcons
        obtain ⟨rfl, _⟩ := List.append_eq_nil_iff.1 hnil.symm
        exact ⟨[], by simp [hroot, Target.place]⟩
  | link _ _ _ =>
      rcases hway with ⟨below, rfl, _⟩ | ⟨name, down, more, hroot, hcons, _⟩
      · exact ⟨below ++ [_], (List.append_assoc _ _ _).symm⟩
      · obtain ⟨rfl, hnil⟩ := List.cons.inj hcons
        obtain ⟨rfl, _⟩ := List.append_eq_nil_iff.1 hnil.symm
        exact ⟨[], by simp [hroot, Target.place]⟩
  | @jump _ at' name target _ _ _ hname hlink _ ih =>
      rcases hway with ⟨below, rfl, hstays⟩ | ⟨first, down, more, hroot, hcons, _⟩
      · -- The link lies as deep in the root as the fence says, wherever the names came from.
        have hkeeps := hfence below name target (shapeAt_of_get? hlink)
        exact ih (.jump hkeeps (not_mem_of_staysBelow hname hstays))
      · -- On the way down to the root there are directories only.
        obtain ⟨rfl, _⟩ := List.cons.inj hcons
        have hpre : at' ++ [name] <+: root := ⟨down, by simp [hroot]⟩
        have hdir := directory_of_above hthere hpre
        rw [shapeAt_of_get? hlink] at hdir
        cases hdir
  | step hname _ _ _ ih =>
      rcases hway with ⟨below, rfl, hstays⟩ | ⟨name, down, more, hroot, hcons, hmore⟩
      · refine ih (.inl ⟨below ++ [_], List.append_assoc _ _ _, ?_⟩)
        exact staysBelow_of_not_mem (not_mem_of_staysBelow hname hstays)
      · obtain ⟨rfl, rfl⟩ := List.cons.inj hcons
        exact ih (.toward (by rw [hroot, List.append_assoc]; rfl) hmore)

end

/-! ## Changes inside a root -/

/-- The change is made in one directory inside a root. -/
inductive Effect.Within (root : Location) : Effect → Prop where
  | moved {directory : Location} {old new : String} (hinside : root <+: directory) :
      Within root (.moved ⟨directory ++ [old], directory ++ [new]⟩)
  | made {directory : Location} {name : String} {node : Node} (hinside : root <+: directory) :
      Within root (.made (directory ++ [name]) node)

/-- A root is there and fenced, and outside of it there is what was there before. -/
structure Kept (root : Location) (before fs : FileSystem) : Prop where
  there : fs.tree.shapeAt root = some .directory
  fenced : Fenced fs.tree root
  outside : ∀ at', ¬ root <+: at' → fs.tree.shapeAt at' = before.tree.shapeAt at'

section

variable {root : Location} {before fs fs' : FileSystem} {e : Effect}

/-- An entry inside the root is above nothing outside of it. -/
theorem not_above_of_inside {directory at' : Location} (hinside : root <+: directory)
    (h : ¬ root <+: at') (name : String) : ¬ directory ++ [name] <+: at' :=
  fun hpre => h ((hinside.trans (List.prefix_append _ _)).trans hpre)

/-- Inside a root, entries change places at one depth only. -/
theorem Effect.Within.image (h : e.Within root) (at' : Location) :
    (e.image at').length = at'.length ∧ (root <+: e.image at' → root <+: at') := by
  cases h with
  | made _ => exact ⟨rfl, id⟩
  | @moved directory old new hinside =>
      by_cases hsource : directory ++ [old] <+: at'
      · rcases hsource with ⟨below, rfl⟩
        rw [Effect.image, apply_append ⟨directory ++ [old], directory ++ [new]⟩ below]
        refine ⟨by simp, fun _ => ?_⟩
        exact (hinside.trans (List.prefix_append _ _)).trans (List.prefix_append _ _)
      · rw [Effect.image, apply_eq_self hsource]
        exact ⟨rfl, id⟩

/-- A change inside the root leaves the root where it is. -/
theorem Effect.Within.image_root (h : e.Within root) : e.image root = root := by
  cases h with
  | made _ => rfl
  | @moved directory old new hinside =>
      apply apply_eq_self
      -- An entry of a directory inside the root lies deeper than the root.
      intro hsource
      have hlength := (hinside.trans (List.prefix_append directory [old])).length_le
      have hback := hsource.length_le
      have hshorter := hinside.length_le
      simp only [List.length_append, List.length_singleton] at hlength hback
      omega

/-- No change makes a link. -/
theorem Step.link_of_link (h : Step fs e fs') {at' : Location} {target : String}
    (hlink : fs'.tree.shapeAt at' = some (.link target)) :
    ∃ old, fs.tree.shapeAt old = some (.link target) ∧ e.image old = at' := by
  rcases h.eq_image_or_made hlink with hold | ⟨node, rfl⟩
  · exact hold
  · cases h with
    | made hfree hnew =>
        rcases hfree with ⟨directory, name, rfl, hdir, _⟩
        have hnode : node.shape = .link target := by
          have hput := shapeAt_put_append node name hdir []
          rw [List.append_nil] at hput
          have hsome : some node.shape = some (.link target) := hput.symm.trans hlink
          simpa using hsome
        cases hnew <;> cases hnode

/-- What one change inside a root keeps. -/
theorem Kept.step (h : Kept root before fs) (hwithin : e.Within root) (hstep : Step fs e fs') :
    Kept root before fs' := by
  refine ⟨?_, ?_, ?_⟩
  · have hthere := hstep.shapeAt_image h.there
    rwa [hwithin.image_root] at hthere
  · intro below name target hlink
    rcases hstep.link_of_link hlink with ⟨old, hold, himage⟩
    obtain ⟨hlength, hinside⟩ := hwithin.image old
    rw [himage] at hlength hinside
    rcases hinside (by simp [List.append_assoc]) with ⟨rest, rfl⟩
    have hcount : rest.length = below.length + 1 := by
      simp only [List.length_append, List.length_singleton] at hlength
      omega
    have hne : rest ≠ [] := List.length_pos_iff.1 (by omega)
    -- The link was as deep in the root as it is now.
    have hsame : rest.dropLast.length = below.length := by
      rw [List.length_dropLast, hcount, Nat.add_sub_cancel]
    rw [← hsame]
    apply h.fenced rest.dropLast (rest.getLast hne) target
    rw [List.append_assoc, List.dropLast_concat_getLast]
    exact hold
  · intro at' hat
    rw [← h.outside at' hat]
    cases hwithin with
    | moved hinside =>
        exact hstep.shapeAt_of_not_above (not_above_of_inside hinside hat _)
          (not_above_of_inside hinside hat _)
    | made hinside =>
        cases hstep with
        | made _ _ =>
            exact shapeAt_put_of_not_above _ _ (not_above_of_inside hinside hat _)

end

/-! ## Operations at downward paths -/

/-- A path from the top that leads down to a root, or through it and not up again. -/
structure Downward (root : Location) (path : String) : Prop where
  top : fromTop path = true
  names : ∃ rest, namesOf path <+: root ++ rest ∧ ".." ∉ rest

/-- A path above one that leads down leads down. -/
theorem Downward.of_isAbove {root : Location} {path above : String} (h : Downward root path)
    (habove : IsAbove above path) : Downward root above := by
  rcases h.names with ⟨rest, hpre, hdots⟩
  exact ⟨habove.fromTop h.top, rest, habove.names.trans hpre, hdots⟩

section

variable {root : Location} {before fs fs' : FileSystem} (hnames : ∀ name ∈ root, EntryName name)

include hnames

/-- The names before the last one of a path into a root lead into it. -/
theorem Parent.inside {path : String} {directory : Location} {name : String} {slash : Bool}
    (h : Parent fs path directory name slash) (hkept : Kept root before fs)
    (htop : fromTop path = true) {rest : List String} (hrest : namesOf path = root ++ rest)
    (hne : rest ≠ []) (hdots : ".." ∉ rest) : root <+: directory := by
  rcases h.leads with ⟨entries, hleads⟩
  have hstart : fs.start path = [] := by simp [start, htop]
  rw [hstart, hrest, List.dropLast_append_of_ne_nil hne] at hleads
  refine hleads.inside hnames hkept.there hkept.fenced (.toward rfl ?_)
  exact fun hmem => hdots (List.dropLast_subset _ hmem)

/-- A path that leads down to a root puts its entry where there is something. -/
theorem Parent.eq_namesOf {path : String} {directory : Location} {name : String} {slash : Bool}
    (h : Parent fs path directory name slash) (hkept : Kept root before fs)
    (htop : fromTop path = true) (hpre : namesOf path <+: root) :
    directory ++ [name] = namesOf path := by
  rcases h.leads with ⟨entries, hleads⟩
  have hstart : fs.start path = [] := by simp [start, htop]
  rw [hstart] at hleads
  have habove : (namesOf path).dropLast <+: root := (List.dropLast_prefix _).trans hpre
  have hdir := directory_of_above hkept.there habove
  rcases shapeAt_eq_directory_iff.1 hdir with ⟨found, hfound⟩
  have hstraight : Leads fs.tree true linkLimit [] ((namesOf path).dropLast ++ [])
      (.found ([] ++ (namesOf path).dropLast) (.directory found)) :=
    Leads.descend (fun n hn => hnames n (habove.subset hn)) (by simpa using hdir)
      (.here (by simpa using hfound))
  rw [List.append_nil, List.nil_append] at hstraight
  -- The names lead straight down the root, and they lead to one directory only.
  have hsame := (follow_of_leads hleads).symm.trans (follow_of_leads hstraight)
  obtain ⟨hdirectory, _⟩ : directory = (namesOf path).dropLast ∧ entries = found := by
    simpa using hsame
  rw [hdirectory, ← h.names]

/-- The free place of a downward path is inside the root. -/
theorem Parent.inside_of_free {path : String} {directory : Location} {name : String} {slash : Bool}
    (h : Parent fs path directory name slash) (hkept : Kept root before fs)
    (hdown : Downward root path) (hfree : fs.Free (directory ++ [name])) : root <+: directory := by
  rcases hdown.names with ⟨rest, hpre, hdots⟩
  have taken : ¬ namesOf path <+: root := by
    intro habove
    have hplace := directory_of_above hkept.there habove
    rw [← h.eq_namesOf hnames hkept hdown.top habove] at hplace
    have hnone := hfree.get?_append []
    rw [List.append_nil, hplace] at hnone
    cases hnone
  -- The path ends above the root, where nothing is free, or leads through it.
  rcases List.prefix_or_prefix_of_prefix hpre (List.prefix_append root rest) with
    habove | ⟨more, hmore⟩
  · exact absurd habove taken
  · refine h.inside hnames hkept hdown.top hmore.symm ?_ ?_
    · rintro rfl
      exact taken (by simp [← hmore])
    · intro hmem
      rw [← hmore, List.prefix_append_right_inj] at hpre
      exact hdots (hpre.subset hmem)

/-- Something new on a downward path is made inside the root. -/
theorem Kept.made (h : Kept root before fs) {path : String} (hdown : Downward root path)
    {place : Location} {node : Node} (hplace : fs.placeOf? path = some place)
    (hstep : Step fs (.made place node) fs') : Kept root before fs' := by
  rcases parent_of_placeOf? hplace with ⟨directory, name, slash, hparent, rfl⟩
  have hfree : fs.Free (directory ++ [name]) := by
    cases hstep with
    | made hfree _ => exact hfree
  exact h.step (.made (hparent.inside_of_free hnames h hdown hfree)) hstep

theorem Kept.makeDirectory (h : Kept root before fs) {path : String} (hdown : Downward root path)
    (hmade : fs.makeDirectory path = .ok fs') : Kept root before fs' := by
  rcases step_of_makeDirectory hmade with ⟨place, hplace, hstep⟩
  exact h.made hnames hdown hplace hstep

theorem Kept.newFile (h : Kept root before fs) {path : String} {content : ByteArray}
    (hdown : Downward root path) (hmade : fs.newFile path content = .ok fs') :
    Kept root before fs' := by
  rcases step_of_newFile hmade with ⟨place, hplace, hstep⟩
  exact h.made hnames hdown hplace hstep

/-- A rename that changes only the last name of a path into a root stays in one directory. -/
theorem Kept.rename (h : Kept root before fs) {source target : String} {above : List String}
    {old new : String} (htop : fromTop source = true) (htop' : fromTop target = true)
    (hsource : namesOf source = root ++ (above ++ [old]))
    (htarget : namesOf target = root ++ (above ++ [new])) (hdots : ".." ∉ above ++ [old])
    (hrename : fs.rename source target = .ok fs') (hlstat : (fs.lstat target).isOk = false) :
    Kept root before fs' := by
  rcases step_of_rename hrename hlstat with ⟨m, hplace, hplace', hstep⟩
  rcases parent_of_placeOf? hplace with ⟨directory, name, slash, hparent, hm⟩
  rcases parent_of_placeOf? hplace' with ⟨directory', name', slash', hparent', hm'⟩
  have hinside := hparent.inside hnames h htop hsource (by simp) hdots
  -- The names before the last are the same, so they lead to the same directory.
  have hsame : directory' = directory := by
    rcases hparent.leads with ⟨entries, hleads⟩
    rcases hparent'.leads with ⟨entries', hleads'⟩
    have hbefore : (namesOf target).dropLast = (namesOf source).dropLast := by
      simp [hsource, htarget, ← List.append_assoc]
    have hstart : fs.start target = fs.start source := by simp [start, htop, htop']
    rw [hbefore, hstart] at hleads'
    have hfound := (follow_of_leads hleads').symm.trans (follow_of_leads hleads)
    obtain ⟨hdirectory, _⟩ : directory' = directory ∧ entries' = entries := by simpa using hfound
    exact hdirectory
  subst hsame
  obtain rfl : m = ⟨directory' ++ [name], directory' ++ [name']⟩ := by
    cases m
    simp_all
  exact h.step (.moved hinside) hstep

end

end FileSystem
end ProjectConsistency
