import ProjectConsistency.Proofs.FileSystem.Guard
import ProjectConsistency.Proofs.FileSystem.WellFormed
import ProjectConsistency.Proofs.Walk.Passage

/-!
# Root — where a walk begins

A walk begins at the directory to which the path of its root leads.  If the path leads nowhere, one
event says so and nothing else is reported (`walk_cases`); otherwise the walk is the run of its plan
(`walk_of_locate`), on the sorted entries of the root (`entries_ofRoot`), and paths lead on from
where the path of the root leads (`follow_ofRoot`).  What a path leads to is found by `lstat` as
well (`lstat_isOk_of_locate`), so a walk never fails behind a root that is there.
-/

namespace ProjectConsistency

namespace FileSystem

variable {fs : FileSystem} {path : String} {last : Bool} {at' : Location} {node : Node}

/-! ## Look-ups -/

theorem locate_of_isDirectory (h : fs.isDirectory path = true) :
    ∃ root entries, fs.locate true path = .ok (root, .directory entries) := by
  cases hlocate : fs.locate true path with
  | error e => simp [isDirectory, stat, hlocate, Except.map] at h
  | ok place =>
      obtain ⟨root, node⟩ := place
      cases node with
      | directory entries => exact ⟨root, entries, rfl⟩
      | file _ => simp [isDirectory, stat, hlocate, Except.map, Node.isDirectory] at h
      | link _ => simp [isDirectory, stat, hlocate, Except.map, Node.isDirectory] at h

theorem locate_of_isFile (h : fs.isFile path = true) :
    ∃ at' content, fs.locate true path = .ok (at', .file content) := by
  cases hlocate : fs.locate true path with
  | error e => simp [isFile, stat, hlocate, Except.map] at h
  | ok place =>
      obtain ⟨at', node⟩ := place
      cases node with
      | file content => exact ⟨at', content, rfl⟩
      | directory _ => simp [isFile, stat, hlocate, Except.map, Node.isFile] at h
      | link _ => simp [isFile, stat, hlocate, Except.map, Node.isFile] at h

/-- A path that is found leads to its location. -/
theorem leads_of_locate (h : fs.locate last path = .ok (at', node)) :
    Leads fs.tree last linkLimit (fs.start path) (stepsOf path) (.found at' node) := by
  rcases ok_of_bind h with ⟨target, hresolve, h⟩
  cases target with
  | free _ _ => cases h
  | found place found =>
      cases h
      rcases ok_of_bind hresolve with ⟨⟨⟩, _, hfollow⟩
      exact leads_of_follow hfollow

/-- A way that follows a link at its end can be gone without following it. -/
theorem Leads.unfollowed {tree : Node} {links : Nat} {names : List String} {d : Location}
    (h : Leads tree true links at' names (.found d node)) :
    ∃ d' found, Leads tree false links at' names (.found d' found) := by
  generalize htarget : Target.found d node = target at h
  induction h with
  | here hnode => exact ⟨_, _, .here hnode⟩
  | dot hdir _ ih =>
      rcases ih htarget with ⟨d', found, hway⟩
      exact ⟨d', found, .dot hdir hway⟩
  | up hdir _ ih =>
      rcases ih htarget with ⟨d', found, hway⟩
      exact ⟨d', found, .up hdir hway⟩
  | free _ _ _ => cases htarget
  | link hlast _ _ => cases hlast
  | @jump links a name target rest t _ hname hlink _ ih =>
      -- A link at the end is where the way ends now.
      by_cases hrest : rest = []
      · subst hrest
        exact ⟨_, _, .link rfl hname hlink⟩
      · rcases ih htarget with ⟨d', found, hway⟩
        exact ⟨d', found, .jump (.inl hrest) hname hlink hway⟩
  | step hname hnode hreal _ ih =>
      rcases ih htarget with ⟨d', found, hway⟩
      exact ⟨d', found, .step hname hnode hreal hway⟩

theorem lstat_isOk_of_locate (h : fs.locate true path = .ok (at', node)) :
    ∃ found, fs.lstat path = .ok found := by
  rcases (leads_of_locate h).unfollowed with ⟨d, found, hway⟩
  have hfollow : follow fs.tree false linkLimit (fs.start path) (stepsOf path)
      = .ok (.found d found) := follow_of_leads hway
  rcases ok_of_bind h with ⟨_, hresolve, _⟩
  rcases ok_of_bind hresolve with ⟨⟨⟩, hcheck, _⟩
  refine ⟨found, ?_⟩
  have hresolve' : fs.resolve false path = .ok (.found d found) := by
    simp only [resolve, hcheck, bind, Except.bind]
    exact hfollow
  simp [lstat, locate, hresolve', bind, Except.bind, pure, Except.pure, Except.map]

/-- A dot at the end makes no difference to where a way leads. -/
theorem Leads.of_dot {tree : Node} {links : Nat} {names : List String} {d : Location}
    (h : Leads tree true links at' (names ++ ["."]) (.found d node)) :
    Leads tree true links at' names (.found d node) := by
  -- The induction is on the longer way; its last step is the only one that is left out.
  generalize htarget : Target.found d node = target at h
  generalize hsteps : names ++ ["."] = steps at h
  induction h generalizing names with
  | here _ => simp at hsteps
  | @dot _ _ rest _ hdir next ih =>
      cases names with
      | nil =>
          obtain rfl : [] = rest := (List.cons.inj hsteps).2
          exact htarget ▸ next
      | cons name names =>
          obtain ⟨rfl, hrest⟩ := List.cons.inj hsteps
          exact .dot hdir (ih htarget hrest)
  | up hdir _ ih =>
      cases names with
      | nil => simp at hsteps
      | cons name names =>
          obtain ⟨rfl, hrest⟩ := List.cons.inj hsteps
          exact .up hdir (ih htarget hrest)
  | free _ _ _ => cases htarget
  | link hlast _ _ => cases hlast
  | jump _ hname hlink _ ih =>
      cases names with
      | nil => exact absurd (List.cons.inj hsteps).1.symm hname.ne_dot
      | cons name names =>
          obtain ⟨rfl, rfl⟩ := List.cons.inj hsteps
          exact .jump (.inr rfl) hname hlink (ih htarget (by simp))
  | step hname hnode hreal _ ih =>
      cases names with
      | nil => exact absurd (List.cons.inj hsteps).1.symm hname.ne_dot
      | cons name names =>
          obtain ⟨rfl, hrest⟩ := List.cons.inj hsteps
          exact .step hname hnode hreal (ih htarget hrest)

/-- The order of the entries makes no difference to where a way leads. -/
theorem Leads.sorted {tree : Node} (hwell : tree.WellFormed) {links : Nat} {names : List String}
    {d : Location} (h : Leads tree last links at' names (.found d node)) :
    Leads tree.sorted last links at' names (.found d node.sorted) := by
  generalize htarget : Target.found d node = target at h
  induction h with
  | here hnode =>
      cases htarget
      exact .here (by simp [hwell.get?_sorted, hnode])
  | dot hdir _ ih => exact .dot ((hwell.shapeAt_sorted _).trans hdir) (ih htarget)
  | up hdir _ ih => exact .up ((hwell.shapeAt_sorted _).trans hdir) (ih htarget)
  | free _ _ _ => cases htarget
  | link hlast hname hlink =>
      cases htarget
      exact .link hlast hname (by simp [hwell.get?_sorted, hlink, Node.sorted])
  | jump hgoes hname hlink _ ih =>
      exact .jump hgoes hname (by simp [hwell.get?_sorted, hlink, Node.sorted]) (ih htarget)
  | @step _ a name child _ _ hname hnode hreal _ ih =>
      have hsorted : tree.sorted.get? (a ++ [name]) = some child.sorted := by
        simp [hwell.get?_sorted, hnode]
      refine .step hname hsorted ?_ (ih htarget)
      intro target hlink
      cases child with
      | link t => exact hreal t rfl
      | file _ => simp [Node.sorted] at hlink
      | directory _ => simp [Node.sorted] at hlink

/-- A way in the sorted tree leads to the same place, where the node is not sorted. -/
theorem Leads.of_sorted {tree : Node} (hwell : tree.WellFormed) {links : Nat} {names : List String}
    {d : Location} {found : Node} (h : Leads tree.sorted last links at' names (.found d found)) :
    ∃ node, found = node.sorted ∧ Leads tree last links at' names (.found d node) := by
  -- Sorting moves no node and changes no link, so each step can be made in the tree itself.
  have hget : ∀ {a : Location} {x : Node}, tree.sorted.get? a = some x →
      ∃ node, tree.get? a = some node ∧ x = node.sorted := by
    intro a x hx
    rw [hwell.get?_sorted] at hx
    rcases Option.map_eq_some_iff.1 hx with ⟨node, hnode, rfl⟩
    exact ⟨node, hnode, rfl⟩
  have hdirectory : ∀ {a : Location}, tree.sorted.shapeAt a = some .directory →
      tree.shapeAt a = some .directory := fun h => (hwell.shapeAt_sorted _).symm.trans h
  have hlink : ∀ {a : Location} {target : String}, tree.sorted.get? a = some (.link target) →
      tree.get? a = some (.link target) := by
    intro a target hx
    rcases hget hx with ⟨node, hnode, heq⟩
    cases node with
    | link _ =>
        cases heq
        exact hnode
    | file _ => cases heq
    | directory _ => cases heq
  generalize htarget : Target.found d found = target at h
  induction h with
  | here hnode =>
      cases htarget
      rcases hget hnode with ⟨node, hthere, rfl⟩
      exact ⟨node, rfl, .here hthere⟩
  | dot hdir _ ih =>
      rcases ih htarget with ⟨node, heq, hway⟩
      exact ⟨node, heq, .dot (hdirectory hdir) hway⟩
  | up hdir _ ih =>
      rcases ih htarget with ⟨node, heq, hway⟩
      exact ⟨node, heq, .up (hdirectory hdir) hway⟩
  | free _ _ _ => cases htarget
  | link hlast hname hfound =>
      cases htarget
      exact ⟨.link _, rfl, .link hlast hname (hlink hfound)⟩
  | jump hgoes hname hfound _ ih =>
      rcases ih htarget with ⟨node, heq, hway⟩
      exact ⟨node, heq, .jump hgoes hname (hlink hfound) hway⟩
  | step hname hnode hreal _ ih =>
      rcases hget hnode with ⟨child, hchild, rfl⟩
      rcases ih htarget with ⟨node, heq, hway⟩
      refine ⟨node, heq, .step hname hchild ?_ hway⟩
      rintro target rfl
      exact hreal target rfl

end FileSystem

/-- What is located is at its location. -/
theorem Analysis.get?_of_locate {fs : FileSystem} {path : String} {last : Bool} {at' : Location}
    {node : Node} (h : fs.locate last path = .ok (at', node)) : fs.tree.get? at' = some node :=
  (FileSystem.leads_of_locate h).get?_of_found

/-! ## Beginnings -/

namespace Walk

variable {fs : FileSystem} {filter : NameFilter} {followLinks : Bool} {path : String}
  {root : Location} {node : Node}

/-- A walk of a root that is there is the run of its plan. -/
theorem walk_of_locate (h : fs.locate true path = .ok (root, node)) :
    walk fs filter followLinks path = (Plan.ofRoot fs filter followLinks path root).run.1 := by
  rcases FileSystem.lstat_isOk_of_locate h with ⟨found, hlstat⟩
  simp [walk, hlstat, h, bind, Except.bind]

/-- A walk reports that its root cannot be read, or runs. -/
theorem walk_cases (fs : FileSystem) (filter : NameFilter) (followLinks : Bool) (path : String) :
    (∃ reason, walk fs filter followLinks path = [.unreadable [] reason]) ∨
      ∃ root node, fs.locate true path = .ok (root, node) ∧
        walk fs filter followLinks path = (Plan.ofRoot fs filter followLinks path root).run.1 := by
  cases hlocate : fs.locate true path with
  | ok place => exact .inr ⟨place.1, place.2, rfl, walk_of_locate hlocate⟩
  | error reason =>
      cases hlstat : fs.lstat path with
      | ok _ => exact .inl ⟨reason, by simp [walk, hlstat, hlocate, bind, Except.bind]⟩
      | error reason' => exact .inl ⟨reason', by simp [walk, hlstat, bind, Except.bind]⟩

/-- The entries of the root, in order. -/
theorem entries_ofRoot (hfs : fs.tree.WellFormed) (h : fs.locate true path = .ok (root, node)) :
    (Plan.ofRoot fs filter followLinks path root).entries = node.sorted.entries := by
  have hroot : fs.tree.get? root = some node := (FileSystem.leads_of_locate h).get?_of_found
  have hsorted : (Plan.ofRoot fs filter followLinks path root).tree.get? root
      = some node.sorted := by
    simp [Plan.ofRoot, hfs.get?_sorted, hroot]
  simp only [Plan.entries]
  rw [show (Plan.ofRoot fs filter followLinks path root).root = root from rfl, hsorted]
  rfl

/-- Without more names, the path of the root leads to the root. -/
theorem follow_ofRoot (hfs : fs.tree.WellFormed) (h : fs.locate true path = .ok (root, node)) :
    (Plan.ofRoot fs filter followLinks path root).follow [] = .ok (.found root node.sorted) := by
  have hway := FileSystem.leads_of_locate h
  have hnames : FileSystem.Leads fs.tree true FileSystem.linkLimit (fs.start path)
      (FileSystem.namesOf path) (.found root node) := by
    unfold FileSystem.stepsOf at hway
    split at hway
    · exact hway.of_dot
    · simpa using hway
  simpa [Plan.follow, Plan.ofRoot] using FileSystem.follow_of_leads (hnames.sorted hfs)

/-- If the entries of all directories are in order, a walk goes through them as they are. -/
theorem walk_of_sorted (hsorted : fs.tree.sorted = fs.tree)
    (h : fs.locate true path = .ok (root, node)) :
    walk fs filter followLinks path
      = (enter ⟨fs.tree, root, fs.start path, FileSystem.namesOf path, filter, followLinks⟩
          fs.tree.directoryCount ⟨root, [], []⟩ node.entries []).1 := by
  have hroot : fs.tree.get? root = some node := (FileSystem.leads_of_locate h).get?_of_found
  simp [walk_of_locate h, Plan.run, Plan.entries, Plan.ofRoot, hsorted, hroot]

theorem wellFormed_entries {tree : Node} (h : tree.WellFormed) :
    (Node.directory tree.entries).WellFormed := by
  cases h with
  | file _ => exact .nil
  | link _ => exact .nil
  | directory nodup plain short below => exact .directory nodup plain short below

end Walk
end ProjectConsistency
