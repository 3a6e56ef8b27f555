import Mathlib.Tactic.SplitIfs
import ProjectConsistency.Fix.Rename
import ProjectConsistency.Proofs.FileSystem.Lasting

/-!
# Taken — when the new path of a rename is not free

Where only capital and small letters change, the names in the directory decide whether the new path is
taken, since on some systems a path leads to an entry with other letters.  Here names are told apart
by every letter, so what is found at a path is listed under its last name (`mem_list_of_lstat`).  Both
questions then have one answer (`Renaming.isTaken_eq`), and a rename is never made in two steps.
-/

namespace ProjectConsistency

namespace FileSystem

variable {fs : FileSystem} {path parent name : String}

/-! ## Last names -/

/-- The last name of a path comes after the names of the path above; only dots are between and behind. -/
theorem names_of_fileName? (h : Path.parent? path = some parent) (hparent : parent ≠ "")
    (hname : Path.fileName? path = some name) :
    ∃ dots more, Dots dots ∧ name ≠ "." ∧ name ≠ ".." ∧
      namesOf path = namesOf parent ++ (dots ++ name :: more) := by
  obtain ⟨first, rest, hpieces, _⟩ := pieces_of_parent? h
  have hsound : ∀ piece ∈ first :: rest, '/' ∉ piece := fun piece hpiece =>
    Text.not_mem_of_mem_splitOn (by rwa [← Path.pieces, hpieces])
  rcases split_of_parent? hpieces h with ⟨_, hempty, _⟩ |
    ⟨kept, passed, last, dropped, rfl, rfl, hlast, hdots, _⟩
  · exact absurd hempty hparent
  · obtain ⟨hpassed, hdropped⟩ := List.forall_mem_append.1 hdots
    -- The last piece that counts is the last component.
    have hinner : ((kept.reverse ++ passed ++ last :: dropped).filter Path.counts).map Path.ofPiece
        = ((kept.reverse ++ passed).filter Path.counts).map Path.ofPiece ++ [Path.ofPiece last] := by
      have hnone : dropped.filter Path.counts = [] :=
        List.filter_eq_nil_iff.2 fun piece hpiece => by simp [hdropped piece hpiece]
      rw [List.filter_append, List.filter_cons_of_pos hlast, hnone]
      simp
    have hcomponent : (Path.components path).getLast? = some (Path.ofPiece last) := by
      simp only [Path.components, hpieces, hinner]
      split_ifs <;> simp [List.getLast?_cons]
    have hlastName : last ≠ ['.', '.'] ∧ String.ofList last = name := by
      by_cases hup : last = ['.', '.']
      · simp [Path.fileName?, hcomponent, Path.ofPiece, hup] at hname
      · exact ⟨hup, by simpa [Path.fileName?, hcomponent, Path.ofPiece, hup] using hname⟩
    obtain ⟨hup, rfl⟩ := hlastName
    have hdot : last ≠ ['.'] := by
      rintro rfl
      simp [Path.counts] at hlast
    have hupper : ∀ piece ∈ first :: kept.reverse, '/' ∉ piece := by
      intro piece hpiece
      apply hsound
      simp only [List.mem_cons, List.mem_append] at hpiece ⊢
      exact hpiece.imp_right fun hin => .inl (.inl hin)
    refine ⟨named passed, named dropped, dots_named hpassed,
      fun e => hdot (String.ofList_inj.1 e), fun e => hup (String.ofList_inj.1 e), ?_⟩
    calc
      namesOf path = named ((first :: kept.reverse) ++ passed ++ last :: dropped) :=
        namesOf_of_pieces hpieces
      _ = named (first :: kept.reverse) ++ (named passed ++ named (last :: dropped)) := by
        rw [named_append, named_append, List.append_assoc]
      _ = namesOf (Path.ofPieces first kept.reverse)
          ++ (named passed ++ String.ofList last :: named dropped) := by
        rw [named_cons (ne_nil_of_counts hlast)]
        exact congrArg (· ++ _) (namesOf_ofPieces hupper).symm

/-- A way that leads on from a directory through a name leads through the entry of that name. -/
theorem Leads.isSome_entry {tree node : Node} {last : Bool} {links : Nat} {d at' : Location}
    {more : List String} (h : Leads tree last links d (name :: more) (.found at' node))
    (hdot : name ≠ ".") (hdots : name ≠ "..") : (tree.get? (d ++ [name])).isSome := by
  cases h with
  | dot _ _ => exact absurd rfl hdot
  | up _ _ => exact absurd rfl hdots
  | link _ _ hlink => simp [hlink]
  | jump _ _ hlink _ => simp [hlink]
  | step _ hnode _ _ => simp [hnode]

/-! ## Listed names -/

theorem locate_of_list {names : List String} (h : fs.list path = .ok names) :
    ∃ d entries, fs.locate true path = .ok (d, .directory entries) ∧ Assoc.keys entries = names := by
  obtain ⟨node, hstat, hnode⟩ := ok_of_bind h
  cases hlocate : fs.locate true path with
  | error e => simp [stat, hlocate, Except.map] at hstat
  | ok place =>
      obtain ⟨d, found⟩ := place
      obtain rfl : found = node := by simpa [stat, hlocate, Except.map] using hstat
      cases found with
      | file _ => cases hnode
      | link _ => cases hnode
      | directory entries => exact ⟨d, entries, rfl, Except.ok.inj hnode⟩

/-- What is found at a path is listed in the directory above. -/
theorem mem_list_of_lstat {names : List String} (hlstat : (fs.lstat path).isOk = true)
    (hparent : Path.parent? path = some parent) (hname : Path.fileName? path = some name)
    (hlist : fs.list parent = .ok names) : name ∈ names := by
  obtain ⟨d, entries, hlocate, rfl⟩ := locate_of_list hlist
  have hway := leads_namesOf hlocate
  rw [start_of_parent? fs hparent] at hway
  have hne : parent ≠ "" := (checkPath_eq_ok_iff.1 (checkPath_of_locate hlocate)).2.1
  obtain ⟨dots, more, hdots, hdot, hup, hnames⟩ := names_of_fileName? hparent hne hname
  cases hfound : fs.locate false path with
  | error e => simp [lstat, hfound, Except.map, Except.isOk, Except.toBool] at hlstat
  | ok place =>
      -- The way to the path goes through the directory, and from there through the name.
      have hpath := leads_of_locate hfound
      rw [stepsOf, hnames, List.append_assoc, List.append_assoc] at hpath
      obtain ⟨d', node, left, _, hfirst, hsecond⟩ := hpath.split (by simp)
      cases hway.target_unique hfirst
      have hentry := (Leads.of_after_dots hdots hsecond).isSome_entry hdot hup
      rw [← Assoc.isSome_find?_iff, Node.find?_eq_get? hway.get?_of_found]
      exact hentry

end FileSystem

namespace Renaming

/-- A path is taken if something is found there, whatever changes in the name. -/
theorem isTaken_eq (fs : FileSystem) (path : String) (changesCase : Bool) :
    isTaken fs path changesCase = (fs.lstat path).isOk := by
  by_cases hthere : (fs.lstat path).isOk = true
  · cases changesCase with
    | false => simp [isTaken, hthere]
    | true =>
        cases hparent : Path.parent? path with
        | none => simp [isTaken, hthere, hparent]
        | some parent =>
            cases hname : Path.fileName? path with
            | none => simp [isTaken, hthere, hparent, hname]
            | some name =>
                cases hlist : fs.list parent with
                | error e => simp [isTaken, hthere, hparent, hname, hlist]
                | ok names =>
                    have hmem := FileSystem.mem_list_of_lstat hthere hparent hname hlist
                    simp [isTaken, hthere, hparent, hname, hlist, hmem]
  · simp [isTaken, hthere]

end Renaming

end ProjectConsistency
