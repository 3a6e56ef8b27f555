import ProjectConsistency.Proofs.FileSystem.Effect
import ProjectConsistency.Proofs.FileSystem.Leads

/-!
# Guard — operations that succeed act at free places

Making a directory or a new file succeeds only at a free place.  A rename may replace something, but
not if the target was looked up before and nothing was there.  This file defines:

* `FileSystem.placeOf?` — the location at which a path puts a new entry;
* `FileSystem.newFile` — what a new file and all that is written to it come to;

and shows which effect each operation has when it succeeds (`step_of_rename`,
`step_of_makeDirectory`, `step_of_newFile`).  What every single making of a directory keeps,
`makeDirectories` keeps too (`makeDirectories_keeps`).
-/

namespace ProjectConsistency
namespace FileSystem

open Node (shapeAt_of_get?)

/-- Two computations in a row succeed one after the other. -/
theorem ok_of_bind {ε α β : Type} {x : Except ε α} {f : α → Except ε β} {b : β}
    (h : (x >>= f) = .ok b) : ∃ a, x = .ok a ∧ f a = .ok b := by
  cases x with
  | error e => cases h
  | ok a => exact ⟨a, rfl, h⟩

/-- Behind a guard that did not throw, its condition does not hold. -/
theorem ok_of_guard {ε α β : Type} {c : Prop} [Decidable c] {e : ε} {f : α → Except ε β}
    {x : Except ε β} {b : β} (h : (if c then (throw e : Except ε α) >>= f else x) = .ok b) :
    ¬ c ∧ x = .ok b := by
  by_cases hc : c
  · rw [if_pos hc] at h
    cases h
  · rw [if_neg hc] at h
    exact ⟨hc, h⟩

theorem mapError_ok {ε ε' α : Type} (f : ε → ε') (a : α) :
    (Except.ok a : Except ε α).mapError f = .ok a := rfl

theorem mapError_error {ε ε' α : Type} (f : ε → ε') (e : ε) :
    (Except.error e : Except ε α).mapError f = .error (f e) := rfl

variable {fs fs' : FileSystem}

/-- The location of a new entry at a path: its last name in the directory before it. -/
def placeOf? (fs : FileSystem) (path : String) : Option Location :=
  match fs.parentOf path with
  | .ok (directory, .name name _) => some (directory ++ [name])
  | _ => none

/-! ## The directory before the last name -/

/-- The last name of a path, and the directory to which the names before it lead. -/
structure Parent (fs : FileSystem) (path : String) (directory : Location) (name : String)
    (slash : Bool) : Prop where
  checked : checkPath path = .ok ()
  names : namesOf path = (namesOf path).dropLast ++ [name]
  leads : ∃ entries, Leads fs.tree true linkLimit (fs.start path) (namesOf path).dropLast
    (.found directory (.directory entries))
  ne_dot : name ≠ "."
  ne_dots : name ≠ ".."
  slash_eq : slash = asksDirectory path

/-- The directory that is found for a path is the one to which its names lead. -/
theorem parent_of_parentOf {path : String} {directory : Location} {name : String} {slash : Bool}
    (h : fs.parentOf path = .ok (directory, .name name slash)) :
    Parent fs path directory name slash := by
  rcases ok_of_bind h with ⟨⟨⟩, hcheck, h⟩
  rcases ok_of_bind h with ⟨target, hfollow, h⟩
  cases target with
  | free _ _ => cases h
  | found at' node =>
      cases node with
      | file _ => cases h
      | link _ => cases h
      | directory entries =>
          cases hlast : (namesOf path).getLast? with
          | none => simp [hlast, pure, Except.pure] at h
          | some last =>
              -- A path that ends in dots names no entry.
              by_cases hdots : last = "." ∨ last = ".."
              · simp [hlast, hdots, pure, Except.pure] at h
              · have hfound : at' = directory ∧ last = name ∧ asksDirectory path = slash := by
                  simpa [hlast, hdots, pure, Except.pure] using h
                obtain ⟨rfl, rfl, rfl⟩ := hfound
                have hnames : namesOf path = (namesOf path).dropLast ++ [last] := by
                  rcases List.getLast?_eq_some_iff.1 hlast with ⟨before, hbefore⟩
                  simp [hbefore]
                exact {
                  checked := hcheck
                  names := hnames
                  leads := ⟨entries, leads_of_follow hfollow⟩
                  ne_dot := fun e => hdots (.inl e)
                  ne_dots := fun e => hdots (.inr e)
                  slash_eq := rfl }

theorem Parent.of_leads {path : String} {directory : Location} {name : String}
    {names : List String} {entries : List (String × Node)} (hcheck : checkPath path = .ok ())
    (hnames : namesOf path = names ++ [name])
    (hway : Leads fs.tree true linkLimit (fs.start path) names
      (.found directory (.directory entries))) (hdot : name ≠ ".") (hdots : name ≠ "..") :
    Parent fs path directory name (asksDirectory path) where
  checked := hcheck
  names := by simp [hnames]
  leads := ⟨entries, by simpa [hnames] using hway⟩
  ne_dot := hdot
  ne_dots := hdots
  slash_eq := rfl

/-- The directory to which the names lead is the one that is found. -/
theorem Parent.parentOf_eq {path : String} {directory : Location} {name : String} {slash : Bool}
    (h : Parent fs path directory name slash) :
    fs.parentOf path = .ok (directory, .name name slash) := by
  obtain ⟨entries, hway⟩ := h.leads
  have hlast : (namesOf path).getLast? = some name := by
    rw [h.names]
    simp
  simp [parentOf, h.checked, follow_of_leads hway, hlast, h.ne_dot, h.ne_dots, h.slash_eq, bind,
    Except.bind, pure, Except.pure]

theorem parent_of_placeOf? {path : String} {place : Location} (h : fs.placeOf? path = some place) :
    ∃ directory name slash, Parent fs path directory name slash ∧ place = directory ++ [name] := by
  rw [placeOf?] at h
  split at h
  · rename_i directory name slash hparent
    cases h
    exact ⟨directory, name, slash, parent_of_parentOf hparent, rfl⟩
  · cases h

/-- What holds the last name of a path is a directory. -/
theorem Parent.shapeAt {path : String} {directory : Location} {name : String} {slash : Bool}
    (h : Parent fs path directory name slash) :
    fs.tree.shapeAt directory = some .directory := by
  rcases h.leads with ⟨entries, hleads⟩
  exact shapeAt_of_get? hleads.get?_of_found

/-- What is at the place of a path is found by looking the path up. -/
theorem Parent.lstat_isOk {path : String} {directory : Location} {name : String} {slash : Bool}
    (h : Parent fs path directory name slash) (hshort : name.utf8ByteSize ≤ nameLimit)
    {node : Node} (hnode : fs.tree.get? (directory ++ [name]) = some node)
    (hslash : slash = true → node.isDirectory = true) : (fs.lstat path).isOk = true := by
  have hname : EntryName name := ⟨h.ne_dot, h.ne_dots, hshort⟩
  rcases h.leads with ⟨entries, hleads⟩
  -- A slash at the end of the path is one more name to follow, which asks for a directory.
  have hlast : ∃ found, Leads fs.tree false 0 directory
      ([name] ++ if asksDirectory path then ["."] else []) (.found (directory ++ [name]) found) := by
    cases hasks : asksDirectory path with
    | false =>
        refine ⟨node, ?_⟩
        cases node with
        | link target => exact .link rfl hname hnode
        | file _ => exact .step hname hnode (by simp) (.here hnode)
        | directory _ => exact .step hname hnode (by simp) (.here hnode)
    | true =>
        have hdir := hslash (by rw [h.slash_eq, hasks])
        cases node with
        | file _ => simp [Node.isDirectory] at hdir
        | link _ => simp [Node.isDirectory] at hdir
        | directory _ =>
            exact ⟨_, .step hname hnode (by simp) (.dot (shapeAt_of_get? hnode) (.here hnode))⟩
  rcases hlast with ⟨found, hfound⟩
  -- The way to the directory and the last name are one way.
  have hall := hleads.append (by simp) hfound
  rw [← List.append_assoc, ← h.names] at hall
  have hresolve : fs.resolve false path = .ok (.found (directory ++ [name]) found) := by
    rw [resolve, h.checked]
    exact follow_of_leads hall
  simp [lstat, locate, hresolve, bind, Except.bind, pure, Except.pure, Except.map, Except.isOk,
    Except.toBool]

/-! ## Making -/

/-- A name that is given out is free. -/
theorem freeName_cases {directory place : Location} {name : String}
    (h : fs.freeName directory name = .ok place) :
    place = directory ++ [name] ∧ fs.tree.get? place = none := by
  rcases ok_of_bind h with ⟨⟨⟩, _, h⟩
  cases hnode : fs.tree.get? (directory ++ [name]) with
  | some node =>
      rw [hnode] at h
      cases h
  | none =>
      obtain rfl : directory ++ [name] = place := by
        simpa [hnode, pure, Except.pure] using h
      exact ⟨rfl, hnode⟩

/-- A directory is made at the place of its path, which was free. -/
theorem step_of_makeDirectory {path : String} (h : fs.makeDirectory path = .ok fs') :
    ∃ place, fs.placeOf? path = some place ∧ Step fs (.made place (.directory [])) fs' := by
  rcases ok_of_bind h with ⟨⟨directory, last⟩, hparent, h⟩
  cases last with
  | special => cases h
  | name name slash =>
      rcases ok_of_bind h with ⟨place, hplace, h⟩
      obtain ⟨rfl, hnone⟩ := freeName_cases hplace
      have hfree : fs.Free (directory ++ [name]) :=
        ⟨directory, name, rfl, (parent_of_parentOf hparent).shapeAt, hnone⟩
      cases h
      exact ⟨_, by simp [placeOf?, hparent], .made hfree .directory⟩

/-! ## New files -/

def newFile (fs : FileSystem) (path : String) (content : ByteArray) : Except OsError FileSystem :=
  (fs.createNew path).map fun (opened, place) => opened.put place (.file content)

/-- A new file is opened under a free name, with nothing in it. -/
theorem createNew_cases {path : String} {opened : FileSystem} {place : Location}
    (h : fs.createNew path = .ok (opened, place)) :
    ∃ directory name, fs.parentOf path = .ok (directory, .name name false) ∧
      fs.freeName directory name = .ok place ∧ opened = fs.put place (.file ByteArray.empty) := by
  rcases ok_of_bind h with ⟨⟨directory, last⟩, hparent, h⟩
  cases last with
  | special => cases h
  | name name slash =>
      cases slash with
      | true => cases h
      | false =>
          rcases ok_of_bind h with ⟨free, hplace, h⟩
          cases h
          exact ⟨directory, name, hparent, hplace, rfl⟩

/-- Of two nodes put at one place the second counts. -/
theorem put_put (fs : FileSystem) (place : Location) (node other : Node) :
    (fs.put place node).put place other = fs.put place other := by
  simp only [put, Node.put_put]

theorem newFile_cases {path : String} {content : ByteArray}
    (h : fs.newFile path content = .ok fs') :
    ∃ directory name place, fs.parentOf path = .ok (directory, .name name false) ∧
      fs.freeName directory name = .ok place ∧ fs' = fs.put place (.file content) := by
  cases hcreated : fs.createNew path with
  | error e => simp [newFile, hcreated, Except.map] at h
  | ok created =>
      obtain ⟨opened, place⟩ := created
      obtain ⟨directory, name, hparent, hplace, rfl⟩ := createNew_cases hcreated
      refine ⟨directory, name, place, hparent, hplace, ?_⟩
      simpa [newFile, hcreated, Except.map, put_put] using h.symm

/-- A file that was opened and written in full is one that was made with its content. -/
theorem newFile_of_createNew {path : String} {opened : FileSystem} {place : Location}
    (h : fs.createNew path = .ok (opened, place)) (content : ByteArray) :
    fs.newFile path content = .ok (opened.put place (.file content)) := by
  rw [newFile, h]
  rfl

/-- A write takes all of the content, or fails and leaves the beginning of it. -/
theorem writeNew_cases (fs : FileSystem) (place : Location) (content : ByteArray) :
    fs.writeNew place content = (fs.put place (.file content), .ok ()) ∨
      ∃ taken reason, taken < content.size ∧
        fs.writeNew place content
          = (fs.put place (.file (content.extract 0 taken)), .error reason) := by
  cases hfault : fs.fault? place with
  | none => simp [writeNew, hfault]
  | some fault =>
      by_cases hall : content.size ≤ fault.taken
      · simp [writeNew, hfault, hall]
      · exact .inr ⟨fault.taken, fault.reason, by omega, by simp [writeNew, hfault, hall]⟩

/-- A new file that is written to is a new file with what it keeps of the content. -/
theorem newFile_of_writeNew {path : String} {opened : FileSystem} {place : Location}
    (h : fs.createNew path = .ok (opened, place)) (content : ByteArray) :
    ∃ bytes, fs.newFile path bytes = .ok (opened.writeNew place content).1 := by
  rcases writeNew_cases opened place content with hwrite | ⟨taken, reason, _, hwrite⟩
  · exact ⟨content, by rw [hwrite, newFile_of_createNew h]⟩
  · exact ⟨content.extract 0 taken, by rw [hwrite, newFile_of_createNew h]⟩

/-- A file is made at the place of its path, which was free. -/
theorem step_of_newFile {path : String} {content : ByteArray}
    (h : fs.newFile path content = .ok fs') :
    ∃ place, fs.placeOf? path = some place ∧ Step fs (.made place (.file content)) fs' := by
  obtain ⟨directory, name, place, hparent, hplace, rfl⟩ := newFile_cases h
  obtain ⟨rfl, hnone⟩ := freeName_cases hplace
  have hfree : fs.Free (directory ++ [name]) :=
    ⟨directory, name, rfl, (parent_of_parentOf hparent).shapeAt, hnone⟩
  exact ⟨_, by simp [placeOf?, hparent], .made hfree (.file content)⟩

/-! ## Directories and all above them -/

section

variable {motive : FileSystem → Prop}

/-- What each directory that is made keeps is kept by all of them. -/
theorem makeAll_keeps {paths : List String} (h : motive fs)
    (keep : ∀ fs fs' path, path ∈ paths → motive fs → fs.makeDirectory path = .ok fs' → motive fs') :
    motive (makeAll fs paths).1 := by
  induction paths generalizing fs with
  | nil => exact h
  | cons path rest ih =>
      have keepRest : ∀ fs fs' path, path ∈ rest → motive fs → fs.makeDirectory path = .ok fs' →
          motive fs' := fun fs fs' p hp => keep fs fs' p (List.mem_cons_of_mem _ hp)
      rw [makeAll]
      cases hmade : fs.makeDirectory path with
      | ok made => exact ih (keep fs made path (by simp) h hmade) keepRest
      | error e =>
          -- What is there already is passed over; any other error is the end.
          by_cases hthere : (e = .exists && fs.isDirectory path) = true
          · simpa [hthere] using ih h keepRest
          · simpa [hthere] using h

/-- What each directory that is made keeps is kept, from whichever one the making starts. -/
theorem makeFrom_keeps {missing above : List String} (h : motive fs)
    (keep : ∀ fs fs' path, path ∈ missing ++ above → motive fs → fs.makeDirectory path = .ok fs' →
      motive fs') : motive (makeFrom fs missing above).1 := by
  -- Up the ancestors: `missing` gathers those that had no directory to lie in.
  induction above generalizing missing with
  | nil => exact makeAll_keeps h (by simpa using keep)
  | cons path above ih =>
      have all : motive (makeAll fs missing).1 :=
        makeAll_keeps h fun fs fs' p hp => keep fs fs' p (List.mem_append_left _ hp)
      rw [makeFrom]
      by_cases hempty : path.isEmpty = true
      · simpa [hempty] using all
      · cases hmade : fs.makeDirectory path with
        | ok made =>
            have hkept := keep fs made path (by simp) h hmade
            simpa [hempty] using makeAll_keeps hkept
              fun fs fs' p hp => keep fs fs' p (List.mem_append_left _ hp)
        | error e =>
            by_cases hmissing : e = .notFound
            · have hup : motive (makeFrom fs (path :: missing) above).1 :=
                ih fun fs fs' p hp => keep fs fs' p (by grind)
              simpa [hempty, hmissing] using hup
            · by_cases hthere : (e = .exists && fs.isDirectory path) = true
              · simpa [hempty, hmissing, hthere] using all
              · simpa [hempty, hmissing, hthere] using h

/-- What the making of each single directory keeps, the making of all that are missing keeps. -/
theorem makeDirectories_keeps {path : String} (h : motive fs)
    (keep : ∀ fs fs' p, p ∈ ancestors path → motive fs → fs.makeDirectory p = .ok fs' →
      motive fs') : motive (fs.makeDirectories path).1 :=
  makeFrom_keeps h (by simpa using keep)

end

/-! ## Renaming -/

/-- A directory replaces nothing but a directory. -/
theorem isDirectory_of_checkReplaced {moved other : Node} (hmoved : moved.isDirectory = true)
    (h : checkReplaced moved (some other) = .ok ()) : other.isDirectory = true := by
  cases other with
  | file _ => simp [checkReplaced, hmoved] at h
  | link _ => simp [checkReplaced, hmoved] at h
  | directory _ => rfl

theorem short_of_checkName {name : String} (h : checkName name = .ok ()) :
    name.utf8ByteSize ≤ nameLimit := by
  by_cases hlong : nameLimit < name.utf8ByteSize
  · simp [checkName, hlong] at h
  · exact Nat.not_lt.1 hlong

/-- A rename that succeeds though nothing was found at its target moves to a free place. -/
theorem step_of_rename {source target : String} (h : fs.rename source target = .ok fs')
    (hlstat : (fs.lstat target).isOk = false) :
    ∃ m : Move, fs.placeOf? source = some m.source ∧ fs.placeOf? target = some m.target ∧
      Step fs (.moved m) fs' := by
  rcases ok_of_bind h with ⟨⟨above, sourceLast⟩, hsource, h⟩
  rcases ok_of_bind h with ⟨⟨directory, targetLast⟩, htarget, h⟩
  cases sourceLast with
  | special => cases h
  | name oldName oldSlash =>
  cases targetLast with
  | special => cases h
  | name newName newSlash =>
      rcases ok_of_bind h with ⟨⟨⟩, _, h⟩
      dsimp only at h
      cases hnode : fs.tree.get? (above ++ [oldName]) with
      | none =>
          rw [hnode] at h
          cases h
      | some node =>
          rw [hnode] at h
          rcases ok_of_bind h with ⟨⟨⟩, hshort, h⟩
          -- The checks of the operation in their order.  What is at the target matters to the last.
          obtain ⟨hkind, h⟩ := ok_of_guard h
          obtain ⟨hapart, h⟩ := ok_of_guard h
          obtain ⟨_, hmove⟩ := ok_of_guard h
          have hparent := parent_of_parentOf htarget
          cases hother : fs.tree.get? (directory ++ [newName]) with
          | some other =>
              -- Then the look-up before would have found `other`, also behind a slash.
              have hslash : newSlash = true → other.isDirectory = true := by
                rintro rfl
                have hmoved : node.isDirectory = true := by simpa using hkind
                by_cases hsame : above ++ [oldName] = directory ++ [newName]
                · rw [hsame, hother] at hnode
                  cases hnode
                  exact hmoved
                · rw [if_neg hsame] at hmove
                  rcases ok_of_bind hmove with ⟨⟨⟩, hreplaced, _⟩
                  rw [hother] at hreplaced
                  exact isDirectory_of_checkReplaced hmoved hreplaced
              have hfound := hparent.lstat_isOk (short_of_checkName hshort) hother hslash
              rw [hlstat] at hfound
              cases hfound
          | none =>
              have hdiffer : ¬ above ++ [oldName] = directory ++ [newName] := by
                intro hsame
                rw [hsame, hother] at hnode
                cases hnode
              rw [if_neg hdiffer] at hmove
              rcases ok_of_bind hmove with ⟨⟨⟩, _, hdone⟩
              cases hdone
              refine ⟨⟨above ++ [oldName], directory ++ [newName]⟩, by simp [placeOf?, hsource],
                by simp [placeOf?, htarget], .moved hnode (by simp) ?_ ?_⟩
              · exact ⟨directory, newName, rfl, hparent.shapeAt, hother⟩
              · -- A node is neither moved into itself nor to where it is.
                intro hpre
                rcases List.prefix_concat_iff.1 hpre with hsame | hinside
                · exact hdiffer hsame
                · exact hapart (List.isPrefixOf_iff_prefix.2 hinside)

end FileSystem
end ProjectConsistency
