import ProjectConsistency.Proofs.FileSystem.Grown
import ProjectConsistency.Proofs.FileSystem.Joined
import ProjectConsistency.Proofs.Path.Ancestors

/-!
# Making — what is there after directories were made

To make a directory and those above it, the longest path is tried first.  As long as a directory is
missing above, the path above is tried; from the first one that is made or is there, the longer ones
are made in turn.  This file defines:

* `FileSystem.Vacant` — nothing is at the place of a path, and something can be made there;
* `FileSystem.Reaches` — the names of a path lead to a directory;
* `FileSystem.MadeAll` — how directories are left that were to be made one above the other;
* `FileSystem.NothingToMake` — neither a directory nor one of those above it can be made.

However the making ends, nothing is left to make (`nothingToMake_makeDirectories`): a directory that
cannot be made keeps the ones below it from being made, and above one that is there all are there.
It has succeeded if the directory is there then (`makeDirectories_ok_iff`).  It has added empty
directories at free places and nothing else (`run_makeDirectories`), and where nothing can be made it
changes nothing (`NothingToMake.makeDirectories_eq`).
-/

namespace ProjectConsistency
namespace FileSystem

open Node (shapeAt_of_get? shapeAt_eq_directory_iff)

variable {fs fs' : FileSystem} {path above : String}

/-! ## What can be made -/

/-- The last name of a path is free in the directory before it, and not too long. -/
structure Vacant (fs : FileSystem) (path : String) (directory : Location) (name : String)
    (slash : Bool) : Prop where
  parent : fs.parentOf path = .ok (directory, .name name slash)
  short : name.utf8ByteSize ≤ nameLimit
  free : fs.tree.get? (directory ++ [name]) = none

theorem freeName_eq_ok_iff {directory place : Location} {name : String} :
    fs.freeName directory name = .ok place ↔
      name.utf8ByteSize ≤ nameLimit ∧ fs.tree.get? (directory ++ [name]) = none ∧
        place = directory ++ [name] := by
  refine ⟨fun h => ?_, fun ⟨hshort, hfree, hplace⟩ => ?_⟩
  · obtain ⟨⟨⟩, hname, _⟩ := ok_of_bind h
    obtain ⟨rfl, hfree⟩ := freeName_cases h
    exact ⟨short_of_checkName hname, hfree, rfl⟩
  · simp [freeName, checkName, Nat.not_lt.2 hshort, hfree, hplace, bind, Except.bind, pure,
      Except.pure]

/-- A directory can be made just where the path is vacant. -/
theorem makeDirectory_eq_ok_iff :
    fs.makeDirectory path = .ok fs' ↔ ∃ directory name slash,
      Vacant fs path directory name slash ∧ fs' = fs.put (directory ++ [name]) (.directory []) := by
  refine ⟨fun h => ?_, fun ⟨directory, name, slash, hvacant, heq⟩ => ?_⟩
  · rcases ok_of_bind h with ⟨⟨directory, last⟩, hparent, h⟩
    cases last with
    | special => cases h
    | name name slash =>
        rcases ok_of_bind h with ⟨place, hplace, h⟩
        obtain ⟨hshort, hfree, rfl⟩ := freeName_eq_ok_iff.1 hplace
        cases h
        exact ⟨directory, name, slash, ⟨hparent, hshort, hfree⟩, rfl⟩
  · have hplace := freeName_eq_ok_iff.2 ⟨hvacant.short, hvacant.free, rfl⟩
    simp [makeDirectory, hvacant.parent, hplace, heq, bind, Except.bind, pure, Except.pure]

/-- A file can be made just where the path is vacant and has no slash at its end. -/
theorem newFile_eq_ok_iff {content : ByteArray} :
    fs.newFile path content = .ok fs' ↔ ∃ directory name,
      Vacant fs path directory name false ∧ fs' = fs.put (directory ++ [name]) (.file content) := by
  refine ⟨fun h => ?_, fun ⟨directory, name, hvacant, heq⟩ => ?_⟩
  · obtain ⟨directory, name, place, hparent, hplace, rfl⟩ := newFile_cases h
    obtain ⟨hshort, hfree, rfl⟩ := freeName_eq_ok_iff.1 hplace
    exact ⟨directory, name, ⟨hparent, hshort, hfree⟩, rfl⟩
  · have hplace := freeName_eq_ok_iff.2 ⟨hvacant.short, hvacant.free, rfl⟩
    have hcreated : fs.createNew path = .ok
        (fs.put (directory ++ [name]) (.file ByteArray.empty), directory ++ [name]) := by
      simp [createNew, hvacant.parent, hplace, bind, Except.bind, pure, Except.pure]
    rw [newFile_of_createNew hcreated, heq, put_put]

section

variable {directory : Location} {name : String} {slash : Bool}

theorem Vacant.entryName (h : Vacant fs path directory name slash) : EntryName name :=
  have hparent := parent_of_parentOf h.parent
  ⟨hparent.ne_dot, hparent.ne_dots, h.short⟩

/-- Nothing is found on a way that goes through a free name. -/
theorem Vacant.parentOf_below (h : Vacant fs above directory name slash) (hover : Over above path)
    (hcheck : checkPath path = .ok ()) : fs.parentOf path = .error .notFound := by
  have hparent := parent_of_parentOf h.parent
  obtain ⟨entries, hway⟩ := hparent.leads
  obtain ⟨first, rest, hnames⟩ := hover.names
  have hupper : (namesOf path).dropLast
      = (namesOf above).dropLast ++ name :: (first :: rest).dropLast := by
    rw [hnames, List.dropLast_append_of_ne_nil (by simp), hparent.names]
    simp
  -- The way leads to the directory in which the name is free, and stops at that name.
  obtain ⟨left, _, hfollow⟩ := hway.follow_append true
  have hstop : follow fs.tree true linkLimit (fs.start path) (namesOf path).dropLast
      = if (first :: rest).dropLast.isEmpty then .ok (.free directory name)
        else .error .notFound := by
    rw [← hover.start_eq, hupper, hfollow _ (by simp), follow_entry hparent.shapeAt h.entryName, h.free]
  rw [parentOf, hcheck]
  simp only [bind, Except.bind]
  rw [hstop]
  cases (first :: rest).dropLast.isEmpty <;> rfl

end

/-- Below a directory that can be made, but is not yet, none can be made. -/
theorem makeDirectory_below (h : fs.makeDirectory above = .ok fs') (hover : Over above path)
    (hcheck : checkPath path = .ok ()) : fs.makeDirectory path = .error .notFound := by
  obtain ⟨_, _, _, hvacant, _⟩ := makeDirectory_eq_ok_iff.1 h
  rw [makeDirectory, hvacant.parentOf_below hover hcheck]
  rfl

/-! ## Paths that lead to directories -/

def Reaches (fs : FileSystem) (path : String) (directory : Location) : Prop :=
  ∃ entries, Leads fs.tree true linkLimit (fs.start path) (namesOf path)
    (.found directory (.directory entries))

/-- A path is one of a directory just if its names lead to one and it is not too long. -/
theorem isDirectory_iff_reaches :
    fs.isDirectory path = true ↔ checkPath path = .ok () ∧ ∃ d, Reaches fs path d := by
  refine ⟨fun h => ?_, fun ⟨hcheck, d, entries, hway⟩ => ?_⟩
  · obtain ⟨d, entries, hlocate⟩ := locate_of_isDirectory h
    exact ⟨checkPath_of_locate hlocate, d, entries, leads_namesOf hlocate⟩
  · have hnode := hway.get?_of_found
    -- A slash at the end asks for a directory, and that is what the names lead to.
    have hsteps : Leads fs.tree true linkLimit (fs.start path) (stepsOf path)
        (.found d (.directory entries)) := by
      cases hslash : asksDirectory path with
      | true =>
          rw [stepsOf, if_pos hslash]
          exact hway.append (by simp) (.dot (shapeAt_of_get? hnode) (.here hnode))
      | false => simpa [stepsOf, hslash] using hway
    have hresolve : fs.resolve true path = .ok (.found d (.directory entries)) := by
      rw [resolve, hcheck]
      exact follow_of_leads hsteps
    simp [isDirectory, stat, locate, hresolve, bind, Except.bind, pure, Except.pure, Except.map,
      Node.isDirectory]

/-- A path that leads to a directory leads to the same one when more is added. -/
theorem Grown.reaches (h : Grown fs fs') {d : Location} (hreaches : Reaches fs path d) :
    Reaches fs' path d := by
  obtain ⟨entries, hway⟩ := hreaches
  obtain ⟨entries', hway'⟩ := h.leads_directory hway
  exact ⟨entries', by rwa [h.start_eq]⟩

/-- If a path leads on to a directory, it leads to one. -/
theorem isDirectory_of_append (hcheck : checkPath path = .ok ()) {more : List String} {d : Location}
    {entries : List (String × Node)}
    (hway : Leads fs.tree true linkLimit (fs.start path) (namesOf path ++ more)
      (.found d (.directory entries))) : fs.isDirectory path = true := by
  obtain ⟨d', inside, hfirst⟩ := hway.directory_of_append
  exact isDirectory_iff_reaches.2 ⟨hcheck, d', inside, hfirst⟩

/-- Above a directory that is there, all directories are there. -/
theorem Over.isDirectory (hover : Over above path) (hcheck : checkPath above = .ok ())
    (h : fs.isDirectory path = true) : fs.isDirectory above = true := by
  obtain ⟨_, d, entries, hway⟩ := isDirectory_iff_reaches.1 h
  obtain ⟨name, more, hnames⟩ := hover.names
  rw [hnames, ← hover.start_eq] at hway
  exact isDirectory_of_append hcheck hway

/-- Above a path whose last name is in a directory, all directories are there. -/
theorem Over.isDirectory_of_parent (hover : Over above path) (hcheck : checkPath above = .ok ())
    {directory : Location} {name : String} {slash : Bool}
    (h : Parent fs path directory name slash) : fs.isDirectory above = true := by
  obtain ⟨entries, hway⟩ := h.leads
  obtain ⟨_, _, hnames⟩ := hover.names
  rw [hnames, List.dropLast_append_of_ne_nil (by simp), ← hover.start_eq] at hway
  exact isDirectory_of_append hcheck hway

/-- The path of a directory that was made leads to it. -/
theorem reaches_of_makeDirectory (h : fs.makeDirectory path = .ok fs') :
    ∃ place, Step fs (.made place (.directory [])) fs' ∧ Reaches fs' path place := by
  obtain ⟨place, hplace, hstep⟩ := step_of_makeDirectory h
  obtain ⟨directory, name, slash, hvacant, rfl⟩ := makeDirectory_eq_ok_iff.1 h
  obtain rfl : directory ++ [name] = place := by simpa [placeOf?, hvacant.parent] using hplace
  have hparent := parent_of_parentOf hvacant.parent
  obtain ⟨inside, hinside⟩ := shapeAt_eq_directory_iff.1 hparent.shapeAt
  have hmade := Node.get?_put (.directory []) name hinside
  -- The way to the directory is as it was, and the last name is what was made.
  obtain ⟨entries, hway⟩ := ((Grown.of_step hstep).parent hparent).leads
  refine ⟨_, hstep, [], ?_⟩
  rw [hparent.names]
  exact hway.append (by simp) (.step hvacant.entryName hmade (by simp) (.here hmade))

theorem isDirectory_of_makeDirectory (h : fs.makeDirectory path = .ok fs') :
    fs'.isDirectory path = true := by
  obtain ⟨_, _, _, hvacant, _⟩ := makeDirectory_eq_ok_iff.1 h
  obtain ⟨place, _, hreaches⟩ := reaches_of_makeDirectory h
  exact isDirectory_iff_reaches.2 ⟨(parent_of_parentOf hvacant.parent).checked, place, hreaches⟩

/-- The last part of a path that leads to a directory is special, or a name that is found in the
directory before it. -/
theorem parentOf_of_leads (hcheck : checkPath path = .ok ()) {d : Location}
    {entries : List (String × Node)}
    (hway : Leads fs.tree true linkLimit (fs.start path) (namesOf path)
      (.found d (.directory entries))) :
    (∃ above, fs.parentOf path = .ok (above, .special)) ∨
      ∃ above last slash, EntryName last ∧ fs.parentOf path = .ok (above, .name last slash) ∧
        (fs.tree.get? (above ++ [last])).isSome := by
  rcases List.eq_nil_or_concat (namesOf path) with hnil | ⟨names, last, hnames⟩
  · -- The path names the top or the current directory.
    rw [hnil] at hway
    have hfollow := follow_of_leads hway
    exact .inl ⟨d, by simp [parentOf, hcheck, hnil, hfollow, bind, Except.bind, pure, Except.pure]⟩
  · rw [List.concat_eq_append] at hnames
    rw [hnames] at hway
    rcases hway.split (by simp) with ⟨above, node, left, _, hfirst, hlast⟩
    have hdir : fs.tree.shapeAt above = some .directory :=
      directory_of_follow_cons (follow_of_leads hlast)
    rcases shapeAt_eq_directory_iff.1 hdir with ⟨inside, hinside⟩
    obtain rfl : node = .directory inside := by
      simpa using hfirst.get?_of_found.symm.trans hinside
    have hfollow := follow_of_leads hfirst
    rcases name_cases_of_follow_cons (follow_of_leads hlast) with rfl | rfl | hentry
    · exact .inl ⟨above, by
        simp [parentOf, hcheck, hnames, hfollow, bind, Except.bind, pure, Except.pure]⟩
    · exact .inl ⟨above, by
        simp [parentOf, hcheck, hnames, hfollow, bind, Except.bind, pure, Except.pure]⟩
    · refine .inr ⟨above, last, asksDirectory path, hentry, ?_, ?_⟩
      · exact (Parent.of_leads hcheck hnames hfirst hentry.ne_dot hentry.ne_dots).parentOf_eq
      · cases hnode : fs.tree.get? (above ++ [last]) with
        | some _ => rfl
        | none =>
            have hfree : Leads fs.tree true left above [last] (.free above last) :=
              .free hdir hentry hnode
            cases (follow_of_leads hlast).symm.trans (follow_of_leads hfree)

/-- A directory that is there cannot be made again. -/
theorem makeDirectory_of_isDirectory (h : fs.isDirectory path = true) :
    fs.makeDirectory path = .error .exists := by
  obtain ⟨hcheck, d, entries, hway⟩ := isDirectory_iff_reaches.1 h
  rcases parentOf_of_leads hcheck hway with ⟨above, hparent⟩ |
    ⟨above, last, slash, hname, hparent, hsome⟩
  · simp [makeDirectory, hparent, bind, Except.bind, throw, throwThe, MonadExceptOf.throw]
  · simp [makeDirectory, hparent, freeName, checkName, Nat.not_lt.2 hname.short, hsome, bind,
      Except.bind, throw, throwThe, MonadExceptOf.throw]

/-! ## One above the other -/

/-- The path is the empty one or a directory. -/
def There (fs : FileSystem) (path : String) : Prop :=
  path = "" ∨ fs.isDirectory path = true

/-- No directory can be made any more, and all of them are there if there was no error. -/
structure MadeAll (paths : List String) (result : FileSystem × Except OsError Unit) : Prop where
  nothing : ∀ path ∈ paths, ∀ fs', result.1.makeDirectory path ≠ .ok fs'
  ok_iff : result.2 = .ok () ↔ ∀ path ∈ paths, There result.1 path

theorem not_over_empty : ¬ Over above "" := by
  rintro ⟨⟨name, more, hnames⟩, _⟩
  have hempty : namesOf "" = [] := rfl
  simp [hempty] at hnames

/-- Above a directory that is there, all are there. -/
theorem There.of_over (h : There fs path) (hover : Over above path)
    (hcheck : above = "" ∨ checkPath above = .ok ()) : There fs above := by
  rcases h with rfl | hdir
  · exact absurd hover not_over_empty
  · exact hcheck.imp_right fun hchecked => hover.isDirectory hchecked hdir

theorem Grown.there (hgrown : Grown fs fs') (h : There fs path) : There fs' path :=
  h.imp_right hgrown.isDirectory

/-- A directory that is there cannot be made. -/
theorem There.makeDirectory_ne (h : There fs path) : fs.makeDirectory path ≠ .ok fs' := by
  rcases h with rfl | hthere
  · intro hmade
    cases hmade
  · rw [makeDirectory_of_isDirectory hthere]
    intro hmade
    cases hmade

/-- An error that ends the making of directories is not about one that is there. -/
theorem not_there_of_error {e : OsError} (hcheck : checkPath path = .ok ())
    (h : fs.makeDirectory path = .error e)
    (hend : (e = .exists && fs.isDirectory path) ≠ true) : ¬ There fs path := by
  rintro (rfl | hdir)
  · cases hcheck
  · obtain rfl : e = .exists := Except.error.inj (h.symm.trans (makeDirectory_of_isDirectory hdir))
    simp [hdir] at hend

/-- Directories that are there can be added. -/
theorem MadeAll.append_there {paths more : List String}
    {result : FileSystem × Except OsError Unit} (h : MadeAll paths result)
    (hmore : ∀ path ∈ more, There result.1 path) : MadeAll (more ++ paths) result := by
  refine ⟨?_, ?_⟩
  · intro path hpath fs'
    rcases List.mem_append.1 hpath with hpath | hpath
    · exact (hmore path hpath).makeDirectory_ne
    · exact h.nothing path hpath fs'
  · rw [h.ok_iff, List.forall_mem_append]
    exact ⟨fun hall => ⟨hmore, hall⟩, fun hall => hall.2⟩

theorem MadeAll.cons_there {paths : List String} {result : FileSystem × Except OsError Unit}
    (h : MadeAll paths result) (hpath : There result.1 path) : MadeAll (path :: paths) result := by
  have hall : MadeAll ([path] ++ paths) result := h.append_there (by simpa using hpath)
  exact hall

/-- The making ends with an error where none of the directories can be made and one is not there. -/
theorem MadeAll.stopped {paths : List String} {e : OsError} (hpath : path ∈ paths)
    (hnot : ¬ There fs path)
    (hnothing : ∀ path ∈ paths, ∀ fs', fs.makeDirectory path ≠ .ok fs') :
    MadeAll paths (fs, .error e) :=
  ⟨hnothing, by simp, fun hall => absurd (hall path hpath) hnot⟩

theorem grown_makeAll (fs : FileSystem) (paths : List String) : Grown fs (makeAll fs paths).1 :=
  makeAll_keeps (motive := Grown fs) (.refl fs)
    fun _ _ _ _ hgrown hmade => hgrown.trans (grown_of_makeDirectory hmade)

/-- Directories are made in turn, each above the ones after it. -/
theorem madeAll_makeAll (fs : FileSystem) {paths : List String} (hpairs : paths.Pairwise Over)
    (hcheck : ∀ path ∈ paths, checkPath path = .ok ()) : MadeAll paths (makeAll fs paths) := by
  induction paths generalizing fs with
  | nil => exact ⟨by simp, by simp [makeAll]⟩
  | cons path rest ih =>
      obtain ⟨hover, hpairs⟩ := List.pairwise_cons.1 hpairs
      obtain ⟨hpath, hcheck⟩ := List.forall_mem_cons.1 hcheck
      -- The rest is made where the first one is there.
      have goesOn : ∀ fs, fs.isDirectory path = true → MadeAll (path :: rest) (makeAll fs rest) :=
        fun fs hthere => (ih fs hpairs hcheck).cons_there
          (.inr ((grown_makeAll fs rest).isDirectory hthere))
      rw [makeAll]
      cases hmade : fs.makeDirectory path with
      | ok made => exact goesOn made (isDirectory_of_makeDirectory hmade)
      | error e =>
          by_cases hthere : (e = .exists && fs.isDirectory path) = true
          · simp only [hthere, if_true]
            exact goesOn fs (by simpa using (Bool.and_eq_true_iff.1 hthere).2)
          · have hnot := not_there_of_error hpath hmade hthere
            simp only [hthere, Bool.false_eq_true, if_false]
            refine .stopped (by simp) hnot ?_
            intro other hother fs' hok
            rcases List.mem_cons.1 hother with rfl | hother
            · cases hmade.symm.trans hok
            · -- Above what can be made the first one would be there.
              obtain ⟨_, _, _, hvacant, _⟩ := makeDirectory_eq_ok_iff.1 hok
              have hparent := parent_of_parentOf hvacant.parent
              exact hnot (.inr ((hover other hother).isDirectory_of_parent hpath hparent))

/--
The first directory that can be made is looked for, and the missing ones are made below it.  `above`
are the paths that have not been tried yet, longest first, and `missing` those that have, shortest
first.
-/
theorem madeAll_makeFrom (fs : FileSystem) {missing above : List String}
    (hpairs : (above.reverse ++ missing).Pairwise Over)
    (hcheck : ∀ path ∈ missing, checkPath path = .ok ())
    (hcheck' : ∀ path ∈ above, path = "" ∨ checkPath path = .ok ())
    (hmissing : ∀ path ∈ missing, fs.makeDirectory path = .error .notFound) :
    MadeAll (above.reverse ++ missing) (makeFrom fs missing above) := by
  induction above generalizing missing with
  | nil => exact madeAll_makeAll fs hpairs hcheck
  | cons path above ih =>
      obtain ⟨hpath, hcheck'⟩ := List.forall_mem_cons.1 hcheck'
      have hshift : (path :: above).reverse ++ missing = above.reverse ++ path :: missing := by simp
      rw [hshift] at hpairs ⊢
      obtain ⟨_, htail, hover⟩ := List.pairwise_append.1 hpairs
      have hpairs' := (List.pairwise_cons.1 htail).2
      have habove : ∀ other ∈ above, Over other path := fun other hother =>
        hover other (by simpa using hother) path (by simp)
      -- From a directory that is there the missing ones are made, and those above are there too.
      have goesOn : ∀ fs, There fs path →
          MadeAll (above.reverse ++ path :: missing) (makeAll fs missing) := by
        intro fs hthere
        have hpath := (grown_makeAll fs missing).there hthere
        refine MadeAll.append_there ?_ ?_
        · exact (madeAll_makeAll fs hpairs' hcheck).cons_there hpath
        · intro other hother
          have hother : other ∈ above := by simpa using hother
          exact hpath.of_over (habove other hother) (hcheck' other hother)
      rw [makeFrom]
      by_cases hempty : path = ""
      · simpa [hempty] using goesOn fs (.inl hempty)
      · have hchecked := hpath.resolve_left hempty
        have hne : path.isEmpty = false := by simpa using hempty
        simp only [hne, Bool.false_eq_true, if_false]
        cases hmade : fs.makeDirectory path with
        | ok made => exact goesOn made (.inr (isDirectory_of_makeDirectory hmade))
        | error e =>
            by_cases hnone : e = .notFound
            · -- A directory above is missing, so it is tried before this one.
              subst hnone
              simp only [if_true]
              exact ih hpairs (List.forall_mem_cons.2 ⟨hchecked, hcheck⟩) hcheck'
                (List.forall_mem_cons.2 ⟨hmade, hmissing⟩)
            · by_cases hthere : (e = .exists && fs.isDirectory path) = true
              · simp only [hnone, hthere, if_true, if_false]
                exact goesOn fs (.inr (by simpa using (Bool.and_eq_true_iff.1 hthere).2))
              · have hnot := not_there_of_error hchecked hmade hthere
                simp only [hnone, hthere, Bool.false_eq_true, if_false]
                refine .stopped (by simp) hnot ?_
                intro other hother fs' hok
                rcases List.mem_append.1 hother with hother | hother
                · -- What can be made above it would be missing.
                  have hbelow := makeDirectory_below hok
                    (habove other (by simpa using hother)) hchecked
                  rw [hmade] at hbelow
                  exact hnone (Except.error.inj hbelow)
                · rcases List.mem_cons.1 hother with rfl | hother
                  · cases hmade.symm.trans hok
                  · cases (hmissing other hother).symm.trans hok

/-! ## All directories above -/

/-- Neither the directory nor one of those above it can be made. -/
def NothingToMake (fs : FileSystem) (path : String) : Prop :=
  checkPath path = .ok () →
    ∀ above ∈ ancestors path, ∀ fs', fs.makeDirectory above ≠ .ok fs'

/-- All directories above one that is there are there. -/
theorem There.of_mem_ancestors (h : There fs path) (hcheck : checkPath path = .ok ())
    (habove : above ∈ ancestors path) : There fs above := by
  rcases over_of_mem_ancestors habove with rfl | hover
  · exact h
  · exact h.of_over hover (checkPath_of_mem_ancestors hcheck habove)

/-- The directory above a path is there, if the last name of the path is in a directory. -/
theorem Parent.there {parent : String} {directory : Location} {name : String} {slash : Bool}
    (h : Parent fs path directory name slash) (hparent : Path.parent? path = some parent) :
    There fs parent :=
  (checkPath_of_mem_ancestors h.checked (parent_mem_ancestors hparent)).imp_right fun hchecked =>
    (over_of_parent? hparent).isDirectory_of_parent hchecked h

theorem There.nothingToMake (h : There fs path) : NothingToMake fs path :=
  fun hcheck _ habove _ => (h.of_mem_ancestors hcheck habove).makeDirectory_ne

/-- The directories above a path are left as they are to be left. -/
theorem madeAll_makeDirectories (fs : FileSystem) (hcheck : checkPath path = .ok ()) :
    MadeAll (ancestors path).reverse (fs.makeDirectories path) := by
  have hpairs := List.pairwise_reverse.2 (pairwise_ancestors path)
  have hall : MadeAll ((ancestors path).reverse ++ []) (makeFrom fs [] (ancestors path)) :=
    madeAll_makeFrom fs (by simpa using hpairs) (by simp)
      (fun above habove => checkPath_of_mem_ancestors hcheck habove) (by simp)
  rwa [List.append_nil] at hall

/-- However the making ends, no directory is left to be made. -/
theorem nothingToMake_makeDirectories (fs : FileSystem) (path : String) :
    NothingToMake (fs.makeDirectories path).1 path := fun hcheck above habove =>
  (madeAll_makeDirectories fs hcheck).nothing above (by simpa using habove)

theorem checkPath_ne_notFound (hpath : path ≠ "") : checkPath path ≠ .error .notFound := by
  by_cases hnul : Char.ofNat 0 ∈ path.toList
  · simp [checkPath, hnul]
  · by_cases hlong : pathLimit ≤ path.utf8ByteSize <;> simp [checkPath, hpath, hnul, hlong]

/-- For a path that is refused nothing is made. -/
theorem makeDirectories_of_refused {e : OsError} (hcheck : checkPath path = .error e)
    (hpath : path ≠ "") : fs.makeDirectories path = (fs, .error e) := by
  obtain ⟨above, hancestors⟩ := ancestors_eq_cons path
  have hmade : fs.makeDirectory path = .error e := by
    simp [makeDirectory, parentOf, hcheck, bind, Except.bind]
  have hnone : e ≠ .notFound := fun heq => checkPath_ne_notFound hpath (heq ▸ hcheck)
  have hnot : fs.isDirectory path = false := by
    rw [Bool.eq_false_iff]
    intro hdir
    cases hcheck.symm.trans (isDirectory_iff_reaches.1 hdir).1
  simp [makeDirectories, hancestors, makeFrom, hpath, hmade, hnone, hnot]

/-- For the empty path nothing has to be made. -/
theorem makeDirectories_empty : fs.makeDirectories "" = (fs, .ok ()) := by
  have hancestors : ancestors "" = [""] := rfl
  simp [makeDirectories, hancestors, makeFrom, makeAll]

/-- The making has succeeded if the directory is there now. -/
theorem makeDirectories_ok_iff :
    (fs.makeDirectories path).2 = .ok () ↔ There (fs.makeDirectories path).1 path := by
  by_cases hpath : path = ""
  · simp [hpath, makeDirectories_empty, There]
  · cases hcheck : checkPath path with
    | error e =>
        rw [makeDirectories_of_refused hcheck hpath, There, isDirectory_iff_reaches, hcheck]
        simp [hpath]
    | ok _ =>
        rw [(madeAll_makeDirectories fs hcheck).ok_iff]
        refine ⟨fun hall => hall path (by simpa using self_mem_ancestors path), ?_⟩
        intro hthere above habove
        exact hthere.of_mem_ancestors hcheck (by simpa using habove)

/-- Where nothing can be made, nothing is changed. -/
theorem NothingToMake.makeDirectories_eq (h : NothingToMake fs path) :
    (fs.makeDirectories path).1 = fs := by
  by_cases hpath : path = ""
  · rw [hpath, makeDirectories_empty]
  · cases hcheck : checkPath path with
    | error e => rw [makeDirectories_of_refused hcheck hpath]
    | ok _ =>
        refine makeDirectories_keeps (motive := fun now => now = fs) rfl ?_
        rintro now fs' above habove rfl hmade
        exact absurd hmade (h hcheck above habove fs')

/-- The files stay as they are just where nothing can be made. -/
theorem makeDirectories_eq_iff : (fs.makeDirectories path).1 = fs ↔ NothingToMake fs path :=
  ⟨fun heq => heq ▸ nothingToMake_makeDirectories fs path, NothingToMake.makeDirectories_eq⟩

/-- Directories are made at free places on the way, and nothing else is done. -/
theorem run_makeDirectories (fs : FileSystem) (path : String) :
    ∃ places : List Location,
      Run fs (places.map fun place => .made place (.directory [])) (fs.makeDirectories path).1 ∧
        ∀ place ∈ places, ∃ above ∈ ancestors path,
          Reaches (fs.makeDirectories path).1 above place := by
  refine makeDirectories_keeps (motive := fun now => ∃ places : List Location,
    Run fs (places.map fun place => .made place (.directory [])) now ∧
      ∀ place ∈ places, ∃ above ∈ ancestors path, Reaches now above place)
    ⟨[], .done fs, by simp⟩ ?_
  rintro now fs' above habove ⟨places, hrun, hplaces⟩ hmade
  obtain ⟨place, hstep, hreaches⟩ := reaches_of_makeDirectory hmade
  refine ⟨places ++ [place], by simpa using hrun.snoc hstep, ?_⟩
  -- What was made before is still reached by its path.
  intro other hother
  rcases List.mem_append.1 hother with hother | hother
  · obtain ⟨higher, hhigher, hway⟩ := hplaces other hother
    exact ⟨higher, hhigher, (Grown.of_step hstep).reaches hway⟩
  · obtain rfl : other = place := by simpa using hother
    exact ⟨above, habove, hreaches⟩

end FileSystem
end ProjectConsistency
