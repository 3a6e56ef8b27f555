import ProjectConsistency.Proofs.FileSystem.Guard
import ProjectConsistency.Proofs.Path.Names

/-!
# Straight — paths that lead through no link

Where every name of a path but the last leads to a real directory, the operations do exactly what
their names say.  This file defines:

* `FileSystem.Straight` — a name in a directory to which its own names lead;

and shows what a look-up finds there (`Straight.lstat_isOk`), that nothing else is its place
(`Straight.eq_of_placeOf?`), and that an entry can be renamed to a free name beside it
(`rename_straight`).  The path as a text has to be shorter than the limit of the system.
-/

namespace ProjectConsistency
namespace FileSystem

open Node (shapeAt_of_get? shapeAt_eq_directory_iff)

/-- The names of a directory lead to it without links, and a plain name may stand in it. -/
structure Straight (fs : FileSystem) (directory : Location) (name : String) : Prop where
  plain : ∀ n ∈ directory ++ [name], PlainName n
  short : ∀ n ∈ directory, n.utf8ByteSize ≤ nameLimit
  there : fs.tree.shapeAt directory = some .directory

/-- The path of a location is not too long. -/
def Fits (at' : Location) : Prop :=
  (pathOf at').utf8ByteSize < pathLimit

instance (at' : Location) : Decidable (Fits at') :=
  inferInstanceAs (Decidable (_ < _))

variable {fs : FileSystem} {directory : Location} {name : String}

namespace Straight

theorem start_eq (fs : FileSystem) (at' : Location) : fs.start (pathOf at') = [] := by
  simp [start, fromTop_pathOf]

theorem namesOf_eq (h : Straight fs directory name) :
    namesOf (pathOf (directory ++ [name])) = directory ++ [name] :=
  namesOf_pathOf h.plain

theorem entryNames (h : Straight fs directory name) : ∀ n ∈ directory, EntryName n :=
  fun n hn => (h.plain n (List.mem_append_left _ hn)).entryName (h.short n hn)

/-- The names before the last lead to the directory, and on from there. -/
theorem leads (h : Straight fs directory name) {last : Bool} {links : Nat} {rest : List String}
    {t : Target} (next : Leads fs.tree last links directory rest t) :
    Leads fs.tree last links [] (directory ++ rest) t := by
  have hnext : Leads fs.tree last links ([] ++ directory) rest t := by simpa using next
  exact hnext.descend h.entryNames (by simpa using h.there)

/-- The directory that is found for a straight path is the one that its names say. -/
theorem parentOf_eq (h : Straight fs directory name) (hfits : Fits (directory ++ [name])) :
    fs.parentOf (pathOf (directory ++ [name])) = .ok (directory, .name name false) := by
  have hcheck := checkPath_pathOf h.plain hfits
  have hname : PlainName name := h.plain name (by simp)
  have hdots : ¬ (name = "." ∨ name = "..") := by
    rintro (hdot | hdots)
    · exact hname.ne_dot hdot
    · exact hname.ne_dots hdots
  rcases shapeAt_eq_directory_iff.1 h.there with ⟨entries, hentries⟩
  have hfollow : follow fs.tree true linkLimit [] directory
      = .ok (.found directory (.directory entries)) := by
    apply follow_of_leads
    simpa using h.leads (.here hentries)
  simp [parentOf, hcheck, start_eq, h.namesOf_eq, hfollow, asksDirectory_pathOf h.plain, hdots,
    bind, Except.bind, pure, Except.pure]

/-- Whatever a path puts there has its place. -/
theorem eq_of_placeOf? (h : Straight fs directory name) {place : Location}
    (hplace : fs.placeOf? (pathOf (directory ++ [name])) = some place) :
    place = directory ++ [name] := by
  rcases parent_of_placeOf? hplace with ⟨_, _, _, hparent, _⟩
  -- A path that has a place has been checked, and with it its length.
  have hfits : Fits (directory ++ [name]) := lt_of_checkPath hparent.checked
  simpa [placeOf?, h.parentOf_eq hfits] using hplace.symm

/-- A look-up finds what is at the location. -/
theorem lstat_isOk (h : Straight fs directory name) (hfits : Fits (directory ++ [name]))
    (hshort : name.utf8ByteSize ≤ nameLimit) :
    (fs.lstat (pathOf (directory ++ [name]))).isOk
      = (fs.tree.get? (directory ++ [name])).isSome := by
  cases hnode : fs.tree.get? (directory ++ [name]) with
  | some node =>
      have hparent := parent_of_parentOf (h.parentOf_eq hfits)
      exact hparent.lstat_isOk hshort hnode (by simp)
  | none =>
      have hname : EntryName name := (h.plain name (by simp)).entryName hshort
      have hfree : Leads fs.tree false linkLimit directory [name] (.free directory name) :=
        .free h.there hname hnode
      have hfollow := follow_of_leads (h.leads hfree)
      have hresolve : fs.resolve false (pathOf (directory ++ [name]))
          = .ok (.free directory name) := by
        simp [resolve, checkPath_pathOf h.plain hfits, asksDirectory_pathOf h.plain, start_eq,
          h.namesOf_eq, hfollow, bind, Except.bind]
      simp [lstat, locate, hresolve, bind, Except.bind, throw, throwThe, MonadExceptOf.throw,
        Except.map, Except.isOk, Except.toBool]

end Straight

/-- The path of a directory, written from its names, leads to it. -/
theorem locate_pathOf {entries : List (String × Node)}
    (hnames : ∀ n ∈ directory, PlainName n ∧ n.utf8ByteSize ≤ nameLimit) (hfits : Fits directory)
    (hnode : fs.tree.get? directory = some (.directory entries)) :
    fs.locate true (pathOf directory) = .ok (directory, .directory entries) := by
  have hplain : ∀ n ∈ directory, PlainName n := fun n hn => (hnames n hn).1
  have hentry : ∀ n ∈ directory, EntryName n := fun n hn => (hplain n hn).entryName (hnames n hn).2
  have hway : Leads fs.tree true linkLimit [] directory (.found directory (.directory entries)) :=
    .from_top hentry hnode
  have hresolve : fs.resolve true (pathOf directory)
      = .ok (.found directory (.directory entries)) := by
    simpa [resolve, checkPath_pathOf hplain hfits, asksDirectory_pathOf hplain,
      Straight.start_eq, namesOf_pathOf hplain, bind, Except.bind] using follow_of_leads hway
  simp [locate, hresolve, bind, Except.bind, pure, Except.pure]

/-- An entry that is there can be renamed to a free name in the same directory. -/
theorem rename_straight {old new : String} {node : Node} (hold : Straight fs directory old)
    (hnew : Straight fs directory new) (hfits : Fits (directory ++ [old]))
    (hfits' : Fits (directory ++ [new])) (hshort : old.utf8ByteSize ≤ nameLimit)
    (hshort' : new.utf8ByteSize ≤ nameLimit)
    (hnode : fs.tree.get? (directory ++ [old]) = some node)
    (hfree : fs.tree.get? (directory ++ [new]) = none) :
    fs.rename (pathOf (directory ++ [old])) (pathOf (directory ++ [new]))
      = .ok (fs.move ⟨directory ++ [old], directory ++ [new]⟩ node) := by
  have hcheck : ∀ {n : String}, n.utf8ByteSize ≤ nameLimit → checkName n = .ok () := by
    intro n hn
    simp [checkName, Nat.not_lt.2 hn]
  have hdiffer : ¬ directory ++ [old] = directory ++ [new] := by
    intro hsame
    rw [hsame, hfree] at hnode
    cases hnode
  -- A directory is shorter than what is in it, so neither location is above the other's directory.
  have hapart : ∀ n : String, (directory ++ [n]).isPrefixOf directory = false := by
    intro n
    rw [Bool.eq_false_iff]
    intro hpre
    have hlength := (List.isPrefixOf_iff_prefix.1 hpre).length_le
    rw [List.length_append, List.length_singleton] at hlength
    exact Nat.not_succ_le_self _ hlength
  simp only [rename, hold.parentOf_eq hfits, hnew.parentOf_eq hfits', bind, Except.bind,
    hcheck hshort, hcheck hshort', hnode, hfree, hapart, hdiffer, checkReplaced]
  simp [pure, Except.pure]

end FileSystem
end ProjectConsistency
