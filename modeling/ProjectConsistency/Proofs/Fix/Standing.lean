import ProjectConsistency.Proofs.FileSystem.Grown
import ProjectConsistency.Proofs.FileSystem.Straight
import ProjectConsistency.Proofs.Fix.Attempts
import ProjectConsistency.Proofs.Fix.Upkeep

/-!
# Standing — what creations have put there is there at the end

A creation that is recorded as applied has put a node at its path, and the creations after it only
add more.  This file defines:

* `FileSystem.Stands` — names lead to a directory, and a node of a shape stands in it under one more;
* `FileSystem.pathsBelow` — the paths of the directories that lead down from one directory;
* `Creation.Makes` — the shape of what a creation puts there.

If a directory is made with all that are missing above it, then the first that is made is empty, so
that all below it are made as well (`stands_of_makeAll`); none of them was found in its place
(`stands_of_makeFrom`).  By the run of all creations, `Creation.stands_of_applied` follows.
-/

namespace ProjectConsistency

namespace FileSystem

open Node (shapeAt_of_get? shapeAt_eq_directory_iff)

/-- Names lead from the top to a directory, and a node of a shape stands in it under one more name. -/
structure Stands (fs : FileSystem) (above : List String) (name : String) (directory : Location)
    (x : Shape) : Prop where
  leads : ∃ entries, Leads fs.tree true linkLimit [] above (.found directory (.directory entries))
  there : fs.tree.shapeAt (directory ++ [name]) = some x

/-- The paths of the directories that lead down from a directory, the longest last. -/
def pathsBelow (base : Location) : List String → List String
  | [] => []
  | name :: rest => pathOf (base ++ [name]) :: pathsBelow (base ++ [name]) rest

variable {fs fs' : FileSystem} {above : List String} {name : String} {directory : Location}

/-- What stands before a step still stands after one that only adds. -/
theorem Grown.stands {x : Shape} (h : Grown fs fs') (hstands : Stands fs above name directory x) :
    Stands fs' above name directory x := by
  rcases hstands.leads with ⟨entries, hway⟩
  rcases h.leads hway with ⟨node, hway', hshape⟩
  cases node with
  | file _ => cases hshape
  | link _ => cases hshape
  | directory entries' => exact ⟨⟨entries', hway'⟩, h.kept _ _ hstands.there⟩

/-! ## Making one directory -/

section

variable (hplain : ∀ n ∈ above ++ [name], PlainName n)

include hplain

/-- The directory in which the last name of a location stands. -/
theorem above_of_placeOf? {place : Location}
    (h : fs.placeOf? (pathOf (above ++ [name])) = some place) :
    ∃ directory entries, place = directory ++ [name] ∧
      Leads fs.tree true linkLimit [] above (.found directory (.directory entries)) := by
  rcases parent_of_placeOf? h with ⟨directory, last, slash, hparent, rfl⟩
  have hnames := hparent.names
  rcases hparent.leads with ⟨entries, hway⟩
  rw [namesOf_pathOf hplain, List.dropLast_concat] at hnames hway
  obtain rfl : name = last := by simpa using hnames
  exact ⟨directory, entries, rfl, by simpa [Straight.start_eq] using hway⟩

/-- What is made at the path of a location stands there. -/
theorem stands_of_step {place : Location} {node : Node}
    (hplace : fs.placeOf? (pathOf (above ++ [name])) = some place)
    (hstep : Step fs (.made place node) fs') :
    ∃ directory, Stands fs' above name directory node.shape ∧
      fs'.tree.get? (directory ++ [name]) = some node := by
  rcases above_of_placeOf? hplain hplace with ⟨directory, entries, rfl, hway⟩
  have hmade : fs'.tree.get? (directory ++ [name]) = some node := by
    cases hstep with
    | made _ _ => exact Node.get?_put node name hway.get?_of_found
  rcases (Grown.of_step hstep).leads hway with ⟨found, hway', hshape⟩
  cases found with
  | file _ => cases hshape
  | link _ => cases hshape
  | directory entries' => exact ⟨directory, ⟨⟨entries', hway'⟩, shapeAt_of_get? hmade⟩, hmade⟩

/-- In a directory that is there, making fails if the name is taken, or if something is too long. -/
theorem error_of_makeDirectory {entries : List (String × Node)} {e : OsError}
    (hway : Leads fs.tree true linkLimit [] above (.found directory (.directory entries)))
    (h : fs.makeDirectory (pathOf (above ++ [name])) = .error e) :
    e = .nameTooLong ∨ (e = .exists ∧ (fs.tree.get? (directory ++ [name])).isSome) := by
  have hname : PlainName name := hplain name (by simp)
  -- The way to the parent is known, so only the length of the path can stop it.
  have hparent : fs.parentOf (pathOf (above ++ [name]))
      = if pathLimit ≤ (pathOf (above ++ [name])).utf8ByteSize then .error .nameTooLong
        else .ok (directory, .name name false) := by
    rw [parentOf, checkPath_pathOf_eq hplain]
    split
    · rfl
    · simp [Straight.start_eq, namesOf_pathOf hplain, follow_of_leads hway, hname.ne_dot,
        hname.ne_dots, asksDirectory_pathOf hplain, bind, Except.bind, pure, Except.pure]
  rw [makeDirectory, hparent] at h
  by_cases hlong : pathLimit ≤ (pathOf (above ++ [name])).utf8ByteSize
  · simp only [hlong, if_true, bind, Except.bind, Except.error.injEq] at h
    exact .inl h.symm
  · by_cases hshort : nameLimit < name.utf8ByteSize
    · simp only [hlong, if_false, freeName, checkName, hshort, if_true, bind, Except.bind,
        Except.error.injEq] at h
      exact .inl h.symm
    · cases hnode : fs.tree.get? (directory ++ [name]) with
      | none =>
          simp [hlong, freeName, checkName, hshort, hnode, bind, Except.bind, pure,
            Except.pure] at h
      | some node =>
          simp only [hlong, if_false, freeName, checkName, hshort, hnode, Option.isSome_some,
            if_true, bind, Except.bind, throw, throwThe, MonadExceptOf.throw,
            Except.error.injEq] at h
          exact .inr ⟨h.symm, rfl⟩

end

/-- The top is always there. -/
theorem makeDirectory_top : fs.makeDirectory (pathOf []) ≠ .ok fs' := by
  intro h
  rcases step_of_makeDirectory h with ⟨place, hplace, _⟩
  rcases parent_of_placeOf? hplace with ⟨_, name, _, hparent, _⟩
  have hnames := hparent.names
  rw [namesOf_pathOf (by simp)] at hnames
  simp at hnames

/-- A plain path to a directory is resolved without leaving the tree. -/
theorem leads_of_isDirectory {at' : Location} (hplain : ∀ n ∈ at', PlainName n)
    (h : fs.isDirectory (pathOf at') = true) :
    ∃ directory entries,
      Leads fs.tree true linkLimit [] at' (.found directory (.directory entries)) := by
  cases hlocate : fs.locate true (pathOf at') with
  | error e => simp [isDirectory, stat, hlocate, Except.map] at h
  | ok place =>
      obtain ⟨directory, node⟩ := place
      have hway := leads_of_locate hlocate
      rw [stepsOf, asksDirectory_pathOf hplain, namesOf_pathOf hplain, Straight.start_eq] at hway
      have hnode : node.isDirectory = true := by
        simpa [isDirectory, stat, hlocate, Except.map] using h
      cases node with
      | file _ => cases hnode
      | link _ => cases hnode
      | directory entries => exact ⟨directory, entries, by simpa using hway⟩

/-! ## Making all directories that are missing -/

/-- Names that stand in a directory lead on to what is there. -/
theorem Stands.leads_on {entries : List (String × Node)} (hfs : fs.tree.WellFormed)
    (hstands : Stands fs above name directory .directory)
    (hnode : fs.tree.get? (directory ++ [name]) = some (.directory entries)) :
    Leads fs.tree true linkLimit [] (above ++ [name])
      (.found (directory ++ [name]) (.directory entries)) := by
  rcases hstands.leads with ⟨_, hway⟩
  obtain ⟨hname, hshort⟩ := hfs.names_of_get? hnode name (by simp)
  exact hway.append (by simp) (.step (hname.entryName hshort) hnode (by simp) (.here hnode))

/-- Below an empty directory every directory is made, so the last one stands. -/
theorem stands_of_makeAll (hfs : fs.tree.WellFormed) {base : Location} {rest : List String}
    (hplain : ∀ n ∈ base ++ rest, PlainName n) (hlast : base ++ rest = above ++ [name])
    (hempty : Leads fs.tree true linkLimit [] base (.found directory (.directory [])))
    (hrest : rest ≠ []) (h : makeAll fs (pathsBelow base rest) = (fs', .ok ())) :
    ∃ d, Stands fs' above name d .directory := by
  induction rest generalizing fs base directory with
  | nil => exact absurd rfl hrest
  | cons first rest ih =>
      have hfirst : ∀ n ∈ base ++ [first], PlainName n := fun n hn =>
        hplain n (by rw [List.append_cons]; exact List.mem_append_left _ hn)
      rw [pathsBelow, makeAll] at h
      cases hmade : fs.makeDirectory (pathOf (base ++ [first])) with
      | error e =>
          -- Nothing is in the directory, so no name in it is taken.
          rcases error_of_makeDirectory hfirst hempty hmade with rfl | ⟨_, htaken⟩
          · simp [hmade] at h
          · have hfree : fs.tree.get? (directory ++ [first]) = none := by
              rw [Node.get?_append, hempty.get?_of_found]
              rfl
            simp [hfree] at htaken
      | ok made =>
          rw [hmade] at h
          rcases step_of_makeDirectory hmade with ⟨place, hplace, hstep⟩
          rcases stands_of_step hfirst hplace hstep with ⟨d, hstands, hnode⟩
          by_cases hend : rest = []
          · subst hend
            obtain ⟨rfl, hname⟩ := List.append_inj' hlast rfl
            obtain rfl : first = name := by simpa using hname
            cases h
            exact ⟨d, hstands⟩
          · have hfs' := wellFormed_makeDirectory hfs hmade
            exact ih hfs' (by simpa using hplain) (by simpa using hlast)
              (hstands.leads_on hfs' hnode) hend h

/-- What has no directory to lie in is not made without it. -/
theorem makeAll_of_notFound {path : String} {rest : List String}
    (h : fs.makeDirectory path = .error .notFound) :
    makeAll fs (path :: rest) ≠ (fs', .ok ()) := by
  simp [makeAll, h]

section

variable (hfs : fs.tree.WellFormed) (hnew : fs.isDirectory (pathOf (above ++ [name])) = false)

include hfs hnew

/--
One path on the way up: a directory is made there and all below it, or it has no directory to lie in.
The names of `rest` lead down from it, and the first below it has no directory to lie in.
-/
theorem stands_or_missing {base : Location} {rest others : List String}
    (hplain : ∀ n ∈ base ++ rest, PlainName n) (hlast : base ++ rest = above ++ [name])
    (hmissing : ∀ first below, rest = first :: below →
      fs.makeDirectory (pathOf (base ++ [first])) = .error .notFound)
    (h : makeFrom fs (pathsBelow base rest) (pathOf base :: others) = (fs', .ok ())) :
    (∃ d, Stands fs' above name d .directory) ∨
      (fs.makeDirectory (pathOf base) = .error .notFound ∧
        makeFrom fs (pathOf base :: pathsBelow base rest) others = (fs', .ok ())) := by
  have hempty : (pathOf base).isEmpty = false := by simp [pathOf]
  rw [makeFrom, hempty] at h
  cases hmade : fs.makeDirectory (pathOf base) with
  | ok made =>
      left
      have hne : base ≠ [] := by
        rintro rfl
        exact makeDirectory_top hmade
      obtain ⟨front, last, rfl⟩ : ∃ front last, base = front ++ [last] :=
        ⟨_, _, (List.dropLast_concat_getLast hne).symm⟩
      have hbase : ∀ n ∈ front ++ [last], PlainName n := fun n hn =>
        hplain n (List.mem_append_left _ hn)
      rcases step_of_makeDirectory hmade with ⟨place, hplace, hstep⟩
      rcases stands_of_step hbase hplace hstep with ⟨d, hstands, hnode⟩
      simp only [hmade, Bool.false_eq_true, if_false] at h
      by_cases hend : rest = []
      · subst hend
        obtain ⟨rfl, hname⟩ := List.append_inj' ((List.append_nil _).symm.trans hlast) rfl
        obtain rfl : last = name := by simpa using hname
        cases h
        exact ⟨d, hstands⟩
      · have hfs' := wellFormed_makeDirectory hfs hmade
        exact stands_of_makeAll hfs' hplain hlast (hstands.leads_on hfs' hnode) hend h
  | error e =>
      by_cases hup : e = .notFound
      · subst hup
        exact .inr ⟨rfl, by simpa [hmade] using h⟩
      · -- The directory was there: then nothing below it is missing, or it is the last one itself.
        by_cases hthere : (e = .exists && fs.isDirectory (pathOf base)) = true
        · have hdir : fs.isDirectory (pathOf base) = true := by
            simp only [Bool.and_eq_true] at hthere
            exact hthere.2
          cases rest with
          | nil =>
              rw [List.append_nil] at hlast
              rw [hlast, hnew] at hdir
              cases hdir
          | cons first below =>
              have hbase : ∀ n ∈ base, PlainName n := fun n hn =>
                hplain n (List.mem_append_left _ hn)
              have hfirst : ∀ n ∈ base ++ [first], PlainName n := fun n hn =>
                hplain n (by rw [List.append_cons]; exact List.mem_append_left _ hn)
              rcases leads_of_isDirectory hbase hdir with ⟨d, entries, hway⟩
              rcases error_of_makeDirectory hfirst hway (hmissing first below rfl) with
                hlong | ⟨htaken, _⟩
              · cases hlong
              · cases htaken
        · simp [hmade, hup, hthere] at h

/-- If a directory that was not there is made with all that are missing above it, it stands. -/
theorem stands_of_makeFrom {fuel : Nat} {base : Location} {rest : List String}
    (hplain : ∀ n ∈ base ++ rest, PlainName n) (hlast : base ++ rest = above ++ [name])
    (hmissing : ∀ first below, rest = first :: below →
      fs.makeDirectory (pathOf (base ++ [first])) = .error .notFound)
    (h : makeFrom fs (pathsBelow base rest) (ancestorsFrom fuel (pathOf base)) = (fs', .ok ())) :
    ∃ d, Stands fs' above name d .directory := by
  -- With nothing above it that could be made, the first path that is missing stays so.
  have none : ∀ {base : Location} {rest : List String}, (∀ n ∈ base ++ rest, PlainName n) →
      base ++ rest = above ++ [name] → (∀ first below, rest = first :: below →
        fs.makeDirectory (pathOf (base ++ [first])) = .error .notFound) →
      makeFrom fs (pathsBelow base rest) [pathOf base] = (fs', .ok ()) →
      ∃ d, Stands fs' above name d .directory := by
    intro base rest hplain hlast hmissing h
    rcases stands_or_missing hfs hnew hplain hlast hmissing h with hstands | ⟨hup, h⟩
    · exact hstands
    · exact absurd h (makeAll_of_notFound hup)
  induction fuel generalizing base rest with
  | zero => exact none hplain hlast hmissing h
  | succ fuel ih =>
      by_cases htop : base = []
      · subst htop
        exact none hplain hlast hmissing h
      · obtain ⟨front, last, rfl⟩ : ∃ front last, base = front ++ [last] :=
          ⟨_, _, (List.dropLast_concat_getLast htop).symm⟩
        have hbase : ∀ n ∈ front ++ [last], PlainName n := fun n hn =>
          hplain n (List.mem_append_left _ hn)
        rw [ancestorsFrom, parent?_pathOf hbase] at h
        rcases stands_or_missing hfs hnew hplain hlast hmissing h with hstands | ⟨hup, h⟩
        · exact hstands
        · have hbelow : ∀ n ∈ front ++ last :: rest, PlainName n := by simpa using hplain
          refine ih hbelow (by simpa using hlast) ?_ h
          intro first below heq
          obtain ⟨rfl, _⟩ := List.cons.inj heq
          exact hup

/-- Once the directories of a path are made, one stands at its end. -/
theorem stands_of_makeDirectories (hplain : ∀ n ∈ above ++ [name], PlainName n)
    (h : fs.makeDirectories (pathOf (above ++ [name])) = (fs', .ok ())) :
    ∃ d, Stands fs' above name d .directory := by
  have hall : ∀ n ∈ above ++ [name] ++ [], PlainName n := by simpa using hplain
  exact stands_of_makeFrom hfs hnew hall (List.append_nil _) (by simp) h

end

end FileSystem

/-! ## Creations -/

open FileSystem Walk.Event

namespace Creation

inductive Makes : Creation → Shape → Prop where
  | file (path : String) (content : ByteArray) : Makes (.file path) (.file content)
  | directory (path : String) : Makes (.directory path) .directory

variable {fs fs' : FileSystem} {project : String} {standards : Standards}

/-- Carrying out one creation takes nothing away. -/
theorem grown_fix (root project : String) (standards : Standards) (fs : FileSystem) (c : Creation) :
    Grown fs (fix root project standards fs c).1 := by
  apply fix_keeps (motive := Grown fs) (.refl fs)
  · intro _ _ _ _ hgrown hmade
    exact hgrown.trans (grown_of_makeDirectory hmade)
  · intro _ _ _ _ _ hgrown hmade
    exact hgrown.trans (grown_of_newFile hmade)

theorem grown_runAll (root project : String) (standards : Standards) (fs : FileSystem)
    (plan : List Creation) :
    Grown fs (Fix.runAll (fix root project standards) fs plan).1 :=
  Fix.runAll_keeps (motive := Grown fs) (.refl fs)
    fun _ c _ hgrown => hgrown.trans (grown_fix root project standards _ c)

section

variable {above : List String} {name : String} (hplain : ∀ n ∈ above ++ [name], PlainName n)

include hplain

/-- An applied file stands at its path, with its content. -/
theorem stands_of_createFile {content : String}
    (h : createFile fs (pathOf (above ++ [name])) content = (fs', .ok .applied)) :
    ∃ d, Stands fs' above name d (.file content.toUTF8) := by
  have hends := fileEnds_createFile fs (pathOf (above ++ [name])) content
  rw [h] at hends
  -- It is applied only if the whole content is in the file.
  cases hends with
  | whole _ hmade =>
      obtain ⟨place, hplace, hstep⟩ := step_of_newFile hmade
      obtain ⟨d, hstands, _⟩ := stands_of_step hplain hplace hstep
      exact ⟨d, hstands⟩
  | refused _ hresult => exact absurd rfl hresult

/-- An applied directory stands at its path. -/
theorem stands_of_createDirectory (hfs : fs.tree.WellFormed)
    (h : createDirectory fs (pathOf (above ++ [name])) = (fs', .ok .applied)) :
    ∃ d, Stands fs' above name d .directory := by
  by_cases hthere : fs.isDirectory (pathOf (above ++ [name])) = true
  · simp [createDirectory, hthere, alreadyThere] at h
  · cases hmade : fs.makeDirectories (pathOf (above ++ [name])) with
    | mk made result =>
        cases result with
        | error e => simp [createDirectory, hthere, hmade] at h
        | ok _ =>
            obtain rfl : made = fs' := by simpa [createDirectory, hthere, hmade] using h
            exact stands_of_makeDirectories hfs (by simpa using hthere) hplain hmade

end

section

variable {root : Location} {above : List String} {name : String}
  (hroot : ∀ n ∈ root, PlainName n) (hplain : ∀ n ∈ above ++ [name], PlainName n)

include hroot hplain

/-- What a creation that is applied makes stands at its path, below the root. -/
theorem stands_of_fix (hfs : fs.tree.WellFormed) {c : Creation}
    (hpath : c.path = pathText (above ++ [name]))
    (h : (fix (pathOf root) project standards fs c).2.outcome = .applied) :
    ∃ d x, Stands (fix (pathOf root) project standards fs c).1 (root ++ above) name d x ∧
      c.Makes x := by
  have hboth : ∀ n ∈ root ++ above ++ [name], PlainName n := by
    intro n hn
    rw [List.append_assoc] at hn
    exact (List.mem_append.1 hn).elim (hroot n) (hplain n)
  have hjoin : Path.join (pathOf root) c.path = pathOf (root ++ above ++ [name]) := by
    rw [hpath, join_pathOf hroot (by simp) hplain, List.append_assoc]
  -- An applied creation has run without an error.
  obtain ⟨made, hrun⟩ : ∃ made, run (pathOf root) project standards fs c = (made, .ok .applied) := by
    cases hrun : run (pathOf root) project standards fs c with
    | mk made result =>
        cases result with
        | ok outcome =>
            obtain rfl : outcome = .applied := by simpa [fix, hrun] using h
            exact ⟨made, rfl⟩
        | error e => simp [fix, hrun] at h
  rw [fix_fst, hrun]
  cases c with
  | file path =>
      rw [run, show Path.join (pathOf root) path = _ from hjoin] at hrun
      rcases stands_of_createFile hboth hrun with ⟨d, hstands⟩
      exact ⟨d, _, hstands, .file path _⟩
  | directory path =>
      rw [run, show Path.join (pathOf root) path = _ from hjoin] at hrun
      rcases stands_of_createDirectory hboth hfs hrun with ⟨d, hstands⟩
      exact ⟨d, _, hstands, .directory path⟩

end

end Creation

/-- A record is that of one of the fixes, made where the fixes before it have left off. -/
theorem Fix.exists_of_mem_runAll {α : Type} {fix : FileSystem → α → FileSystem × FixRecord}
    {fs : FileSystem} {xs : List α} {record : FixRecord} (h : record ∈ (runAll fix fs xs).2) :
    ∃ before x after, xs = before ++ x :: after ∧
      record = (fix (runAll fix fs before).1 x).2 := by
  induction xs generalizing fs with
  | nil => simp [runAll] at h
  | cons first rest ih =>
      have hrecords : record = (fix fs first).2 ∨ record ∈ (runAll fix (fix fs first).1 rest).2 := by
        simpa [runAll] using h
      rcases hrecords with rfl | hlater
      · exact ⟨[], first, rest, rfl, rfl⟩
      · rcases ih hlater with ⟨before, x, after, rfl, rfl⟩
        exact ⟨first :: before, x, after, rfl, rfl⟩

namespace Creation

/-- A creation is known by its kind and its path. -/
theorem eq_of_kind {c c' : Creation} (hkind : c.kind = c'.kind) (hpath : c.path = c'.path) :
    c = c' := by
  cases c <;> cases c' <;> simp_all [kind, path]

/--
What a creation makes that is recorded as applied stands at the end, at its path below the root.
-/
theorem stands_of_applied {fs : FileSystem} (hfs : fs.tree.WellFormed) {root : Location}
    (hroot : ∀ n ∈ root, PlainName n) {project : String} {standards : Standards}
    {plan : List Creation} {c : Creation} {above : List String} {name : String}
    (hplain : ∀ n ∈ above ++ [name], PlainName n) (hpath : c.path = pathText (above ++ [name]))
    (h : ⟨c.kind, c.path, .applied⟩
      ∈ (Fix.runAll (fix (pathOf root) project standards) fs plan).2) :
    ∃ d x, Stands (Fix.runAll (fix (pathOf root) project standards) fs plan).1 (root ++ above)
      name d x ∧ c.Makes x := by
  rcases Fix.exists_of_mem_runAll h with ⟨before, made, after, rfl, hrecord⟩
  obtain rfl : c = made := eq_of_kind (congrArg FixRecord.kind hrecord)
    (congrArg FixRecord.target hrecord)
  have hmid : (Fix.runAll (fix (pathOf root) project standards) fs before).1.tree.WellFormed :=
    Fix.runAll_keeps (motive := fun fs => fs.tree.WellFormed) hfs
      fun _ c _ hkept => wellFormed_fix hkept c
  rcases stands_of_fix hroot hplain hmid hpath (congrArg FixRecord.outcome hrecord).symm with
    ⟨d, x, hstands, hmakes⟩
  -- The creations after it only add more.
  refine ⟨d, x, ?_, hmakes⟩
  rw [Fix.runAll_append]
  exact (grown_runAll (pathOf root) project standards _ after).stands hstands

end Creation
end ProjectConsistency
