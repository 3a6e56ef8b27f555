import ProjectConsistency.Proofs.Path.Above
import ProjectConsistency.Proofs.Walk.Root

/-!
# Joined — an entry of a directory, found by the path of the directory and its name

A path with a name joined to it begins where the path begins, and has one name more
(`namesOf_join`).  So it leads to the entry of that name in the directory to which the path leads,
unless the entry is a link (`locate_join`), and what it leads to depends on that entry alone
(`stat_join_congr`).
-/

namespace ProjectConsistency
namespace FileSystem

variable {fs fs' : FileSystem} {path name : String} {root : Location}
  {entries entries' : List (String × Node)}

/-! ## The joined path -/

theorem fromTop_plainName (hname : PlainName name) : fromTop name = false := by
  have hhead : name.toList.head? ≠ some '/' := fun h => hname.no_slash (List.mem_of_mem_head? h)
  simpa [fromTop] using hhead

/-- A path with a name joined to it ends in the name, and begins as the path does. -/
theorem join_plainName (hpath : path ≠ "") (hname : PlainName name) :
    ∃ front, Path.join path name = front ++ name ∧ front.toList.head? = path.toList.head? := by
  have hrelative : Path.isAbsolute name = false := fromTop_plainName hname
  have hhead : ∀ more : String, (path ++ more).toList.head? = path.toList.head? := by
    intro more
    cases hchars : path.toList with
    | nil => exact absurd (String.toList_eq_nil_iff.1 hchars) hpath
    | cons c cs => simp [hchars]
  by_cases hslash : path.toList.getLast? = some '/'
  · exact ⟨path, by simp [Path.join, hrelative, hpath, hslash], rfl⟩
  · exact ⟨path ++ "/", by simp [Path.join, hrelative, hpath, hslash], hhead "/"⟩

theorem start_join (hpath : path ≠ "") (hname : PlainName name) :
    fs.start (Path.join path name) = fs.start path := by
  obtain ⟨front, hjoin, hhead⟩ := join_plainName hpath hname
  have htop : fromTop (Path.join path name) = fromTop path := by
    cases hchars : path.toList with
    | nil => exact absurd (String.toList_eq_nil_iff.1 hchars) hpath
    | cons c cs =>
        rw [hchars] at hhead
        simp [hjoin, fromTop, hchars, hhead]
  rw [start, start, htop]

/-- A path with a name joined to it has one step more. -/
theorem stepsOf_join (hpath : path ≠ "") (hname : PlainName name) :
    stepsOf (Path.join path name) = namesOf path ++ [name] := by
  obtain ⟨front, hjoin, _⟩ := join_plainName hpath hname
  have hlast : (Path.join path name).toList.getLast? ≠ some '/' := by
    rcases Option.isSome_iff_exists.1 (List.getLast?_isSome.2 hname.toList_ne_nil) with ⟨c, hc⟩
    have hend : c ≠ '/' := fun h => hname.no_slash (h ▸ List.mem_of_getLast? hc)
    simp [hjoin, hc, hend]
  have hplain : namesOf name = [name] := by
    have hall : ∀ n ∈ [name], PlainName n := by simpa using hname
    have htext := namesOf_pathText hall
    rwa [Walk.Event.pathText_singleton, hname.shown_eq] at htext
  rw [stepsOf, namesOf_join path (fromTop_plainName hname), hplain]
  simp [asksDirectory, hlast]

/-! ## What it leads to -/

/-- A path that leads somewhere is not too long. -/
theorem checkPath_of_locate {last : Bool} {place : Location × Node}
    (h : fs.locate last path = .ok place) : checkPath path = .ok () := by
  rcases ok_of_bind h with ⟨_, hresolve, _⟩
  rcases ok_of_bind hresolve with ⟨⟨⟩, hcheck, _⟩
  exact hcheck

/-- The names of a path lead to what the path leads to, also if a slash follows them. -/
theorem leads_namesOf {node : Node} (h : fs.locate true path = .ok (root, node)) :
    Leads fs.tree true linkLimit (fs.start path) (namesOf path) (.found root node) := by
  have hway := leads_of_locate h
  by_cases hslash : asksDirectory path = true
  · rw [stepsOf, if_pos hslash] at hway
    exact hway.of_dot
  · rwa [stepsOf, if_neg hslash, List.append_nil] at hway

/-- A path with a name joined to it leads to the entry of that name, if there is one. -/
theorem locate_join (hlocate : fs.locate true path = .ok (root, .directory entries))
    (hname : PlainName name) (hentry : EntryName name)
    (hcheck : checkPath (Path.join path name) = .ok ())
    (hlink : ∀ target, fs.tree.get? (root ++ [name]) ≠ some (.link target)) :
    fs.locate true (Path.join path name) = match fs.tree.get? (root ++ [name]) with
      | some node => .ok (root ++ [name], node)
      | none => .error .notFound := by
  have hpath : path ≠ "" := by
    rintro rfl
    cases checkPath_of_locate hlocate
  have hway := leads_namesOf hlocate
  -- The joined name goes on where the names of the path have led, and needs no more links.
  have hresolve : ∀ t, Leads fs.tree true 0 root [name] t →
      fs.resolve true (Path.join path name) = .ok t := by
    intro t hlast
    have hall := hway.append (by simp) hlast
    rw [← stepsOf_join hpath hname, ← start_join hpath hname] at hall
    simp only [resolve, hcheck, bind, Except.bind]
    exact follow_of_leads hall
  cases hnode : fs.tree.get? (root ++ [name]) with
  | some node =>
      have hfound := hresolve _ (.step hentry hnode (fun target h => hlink target (h ▸ hnode))
        (.here hnode))
      simp [locate, hfound, bind, Except.bind, pure, Except.pure]
  | none =>
      have hfree := hresolve _ (.free (Node.shapeAt_of_get? hway.get?_of_found) hentry hnode)
      simp [locate, hfree, bind, Except.bind, throw, throwThe, MonadExceptOf.throw]

/-- If a path with a name joined to it leads to a file, the file is the entry of that name. -/
theorem get?_of_isFile_join (hlocate : fs.locate true path = .ok (root, .directory entries))
    (hname : PlainName name) (hentry : EntryName name)
    (hlink : ∀ target, fs.tree.get? (root ++ [name]) ≠ some (.link target))
    (hfile : fs.isFile (Path.join path name) = true) :
    ∃ content, fs.tree.get? (root ++ [name]) = some (.file content) := by
  rcases locate_of_isFile hfile with ⟨at', content, hfound⟩
  have hjoin := locate_join hlocate hname hentry (checkPath_of_locate hfound) hlink
  rw [hfound] at hjoin
  cases hnode : fs.tree.get? (root ++ [name]) with
  | none => simp [hnode] at hjoin
  | some node =>
      obtain ⟨_, rfl⟩ : at' = root ++ [name] ∧ Node.file content = node := by
        simpa [hnode] using hjoin
      exact ⟨content, rfl⟩

/-- What a path with a name joined to it leads to depends on the entry of that name alone. -/
theorem stat_join_congr (hlocate : fs.locate true path = .ok (root, .directory entries))
    (hlocate' : fs'.locate true path = .ok (root, .directory entries')) (hname : PlainName name)
    (hentry : EntryName name)
    (hlink : ∀ target, fs.tree.get? (root ++ [name]) ≠ some (.link target))
    (hsame : fs'.tree.get? (root ++ [name]) = fs.tree.get? (root ++ [name])) :
    fs'.stat (Path.join path name) = fs.stat (Path.join path name) := by
  cases hcheck : checkPath (Path.join path name) with
  | error e =>
      simp [stat, locate, resolve, hcheck, bind, Except.bind, Except.map]
  | ok _ =>
      rw [stat, stat, locate_join hlocate hname hentry hcheck hlink,
        locate_join hlocate' hname hentry hcheck (by rwa [hsame]), hsame]

end FileSystem
end ProjectConsistency
