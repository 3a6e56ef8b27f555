import ProjectConsistency.Analysis
import ProjectConsistency.Rules.Naming
import ProjectConsistency.Proofs.FileSystem.Leads

/-!
# Names — paths that are written from names

Snapshots and fixes write paths as texts, while trees are walked name by name.  This file defines:

* `PlainName` — a name that an entry of a directory can have;

and shows that texts and names say the same as long as all names are plain: a relative path
(`Walk.Event.pathText`) and a path from the top (`FileSystem.pathOf`) are taken apart into the names
that they were written from (`namesOf_pathOf`), a path below a root is written from the names of both
(`join_pathOf`), and the last name of a path can be told from the others (`splitParent_pathText`).
-/

namespace ProjectConsistency

/-- A name that an entry of a directory can have, but for its length. -/
structure PlainName (name : String) : Prop where
  ne_empty : name ≠ ""
  no_slash : '/' ∉ name.toList
  no_nul : Char.ofNat 0 ∉ name.toList
  ne_dot : name ≠ "."
  ne_dots : name ≠ ".."

instance (name : String) : Decidable (PlainName name) :=
  decidable_of_iff
    (name ≠ "" ∧ '/' ∉ name.toList ∧ Char.ofNat 0 ∉ name.toList ∧ name ≠ "." ∧ name ≠ "..")
    ⟨fun ⟨h₁, h₂, h₃, h₄, h₅⟩ => ⟨h₁, h₂, h₃, h₄, h₅⟩,
      fun ⟨h₁, h₂, h₃, h₄, h₅⟩ => ⟨h₁, h₂, h₃, h₄, h₅⟩⟩

theorem PlainName.entryName {name : String} (h : PlainName name)
    (hshort : name.utf8ByteSize ≤ FileSystem.nameLimit) : EntryName name :=
  ⟨h.ne_dot, h.ne_dots, hshort⟩

theorem PlainName.toList_ne_nil {name : String} (h : PlainName name) : name.toList ≠ [] := by
  simpa using h.ne_empty

theorem PlainName.isText {name : String} (h : PlainName name) : RawName.isText name = true := by
  simpa [RawName.isText, RawName.mark] using h.no_nul

/-- A plain name is shown as it is. -/
theorem PlainName.shown_eq {name : String} (h : PlainName name) : RawName.shown name = name := by
  simp [RawName.shown, h.isText]

/-! ## Pieces of texts -/

namespace Text

theorem splitOn_eq (sep : Char) (cs : List Char) : splitOn sep cs = cs.splitOn sep := by
  induction cs with
  | nil => rfl
  | cons c rest ih =>
      rw [splitOn, List.splitOn_cons_eq_if_modifyHead, ← ih]
      by_cases hsep : c = sep
      · simp [hsep]
      · cases hrest : splitOn sep rest with
        | nil =>
            rw [ih] at hrest
            exact absurd hrest (List.splitOn_ne_nil sep rest)
        | cons piece pieces => simp [hsep]

/-- Pieces without the separator are found again where they were joined. -/
theorem splitOn_intercalate {sep : Char} {pieces : List (List Char)} (hne : pieces ≠ [])
    (h : ∀ piece ∈ pieces, sep ∉ piece) : splitOn sep ([sep].intercalate pieces) = pieces := by
  rw [splitOn_eq]
  exact List.splitOn_intercalate sep h hne

theorem ne_of_mem_reverse {sep : Char} {cs : List Char} (h : sep ∉ cs) :
    ∀ c ∈ cs.reverse, decide (c ≠ sep) = true := by
  intro c hc
  have hmem : c ∈ cs := by simpa using hc
  simpa using fun e : c = sep => h (e ▸ hmem)

/-- The last separator is the one with none behind it. -/
theorem splitLast_append {sep : Char} {before after : List Char} (h : sep ∉ after) :
    splitLast sep (before ++ sep :: after) = some (before, after) := by
  have hall := ne_of_mem_reverse h
  simp only [splitLast, splitOnce, List.reverse_append, List.reverse_cons, List.append_assoc,
    List.cons_append, List.nil_append]
  rw [List.dropWhile_append_of_pos hall, List.takeWhile_append_of_pos hall]
  simp

theorem splitLast_of_not_mem {sep : Char} {cs : List Char} (h : sep ∉ cs) :
    splitLast sep cs = none := by
  have hdrop : (cs.reverse ++ []).dropWhile (fun c => decide (c ≠ sep)) = [] :=
    List.dropWhile_append_of_pos (ne_of_mem_reverse h)
  rw [List.append_nil] at hdrop
  simp only [splitLast, splitOnce, hdrop, Option.map_none]

end Text

/-! ## Relative paths -/

namespace Walk
namespace Event

variable {path : List String}

theorem pathText_eq (h : ∀ name ∈ path, PlainName name) : pathText path = "/".intercalate path := by
  rw [pathText, List.map_congr_left fun name hname => (h name hname).shown_eq, List.map_id']

theorem toList_pathText (h : ∀ name ∈ path, PlainName name) :
    (pathText path).toList = ['/'].intercalate (path.map String.toList) := by
  rw [pathText_eq h, String.toList_intercalate]
  rfl

/-- A path of plain names splits into these names. -/
theorem splitOn_pathText (hne : path ≠ []) (h : ∀ name ∈ path, PlainName name) :
    Text.splitOn '/' (pathText path).toList = path.map String.toList := by
  rw [toList_pathText h]
  apply Text.splitOn_intercalate
  · simpa using hne
  · intro piece hpiece
    rcases List.mem_map.1 hpiece with ⟨name, hname, rfl⟩
    exact (h name hname).no_slash

/-- Two paths of plain names with one text are the same path. -/
theorem pathText_injective {other : List String} (hne : path ≠ []) (hne' : other ≠ [])
    (h : ∀ name ∈ path, PlainName name) (h' : ∀ name ∈ other, PlainName name)
    (heq : pathText path = pathText other) : path = other := by
  have hpieces : path.map String.toList = other.map String.toList := by
    rw [← splitOn_pathText hne h, ← splitOn_pathText hne' h', heq]
  exact (List.map_inj_right fun _ _ => String.toList_inj.1).1 hpieces

/-- Before a slash in the text of a path there is the text of a path above it. -/
theorem eq_append_of_pathText (hne : path ≠ []) (h : ∀ name ∈ path, PlainName name)
    {above below : String} (heq : pathText path = above ++ "/" ++ below) :
    ∃ front back, path = front ++ back ∧ front ≠ [] ∧ back ≠ [] ∧ above = pathText front := by
  have hcut : (pathText path).toList = above.toList ++ '/' :: below.toList := by simp [heq]
  have hpieces : path.map String.toList
      = Text.splitOn '/' above.toList ++ Text.splitOn '/' below.toList := by
    rw [← splitOn_pathText hne h, hcut, Text.splitOn_eq, Text.splitOn_eq, Text.splitOn_eq,
      List.splitOn_append_cons_self]
  rcases List.map_eq_append_iff.1 hpieces with ⟨front, back, rfl, hfront, hback⟩
  have hpiece : ∀ cs : List Char, Text.splitOn '/' cs ≠ [] := by
    intro cs
    rw [Text.splitOn_eq]
    exact List.splitOn_ne_nil _ _
  refine ⟨front, back, rfl, ?_, ?_, ?_⟩
  · rintro rfl
    exact hpiece _ hfront.symm
  · rintro rfl
    exact hpiece _ hback.symm
  · have hplain : ∀ name ∈ front, PlainName name := fun n hn => h n (List.mem_append_left _ hn)
    rw [← String.toList_inj, toList_pathText hplain, hfront, Text.splitOn_eq]
    exact (List.intercalate_splitOn _).symm

theorem pathText_concat (hne : path ≠ []) (name : String) :
    pathText (path ++ [name]) = pathText path ++ "/" ++ RawName.shown name := by
  rw [pathText, List.map_append, String.intercalate_append_of_ne_nil (by simpa using hne) (by simp)]
  simp [pathText]

theorem pathText_singleton (name : String) : pathText [name] = RawName.shown name :=
  String.intercalate_singleton

/-- The path begins and ends with a plain name. -/
theorem pathText_ends (hne : path ≠ []) (h : ∀ name ∈ path, PlainName name) :
    (∃ c cs, (pathText path).toList = c :: cs ∧ c ≠ '/') ∧
      ∃ c cs, (pathText path).toList = cs ++ [c] ∧ c ≠ '/' := by
  constructor
  · cases path with
    | nil => exact absurd rfl hne
    | cons name rest =>
        have hname := h name (by simp)
        rcases List.exists_cons_of_ne_nil hname.toList_ne_nil with ⟨c, cs, hcs⟩
        have hc : c ≠ '/' := by
          rintro rfl
          exact hname.no_slash (by simp [hcs])
        -- The text begins with the first name, whether there are others or not.
        rw [toList_pathText h]
        cases rest with
        | nil => exact ⟨c, cs, by simpa using hcs, hc⟩
        | cons second others =>
            rw [List.map_cons, List.intercalate_cons_of_ne_nil (by simp), hcs]
            exact ⟨c, _, rfl, hc⟩
  · obtain ⟨above, name, rfl⟩ : ∃ above name, path = above ++ [name] :=
      ⟨_, _, (List.dropLast_concat_getLast hne).symm⟩
    have hname := h name (by simp)
    obtain ⟨cs, c, hcs⟩ : ∃ cs c, name.toList = cs ++ [c] :=
      ⟨_, _, (List.dropLast_concat_getLast hname.toList_ne_nil).symm⟩
    have hc : c ≠ '/' := by
      rintro rfl
      exact hname.no_slash (by simp [hcs])
    -- It ends with the last name, after the others or alone.
    by_cases habove : above = []
    · subst habove
      exact ⟨c, cs, by simpa [pathText_singleton, hname.shown_eq] using hcs, hc⟩
    · exact ⟨c, (pathText above).toList ++ '/' :: cs,
        by simp [pathText_concat habove, hname.shown_eq, hcs], hc⟩

/-- A path has one slash fewer than names. -/
theorem count_slash_pathText (hne : path ≠ []) (h : ∀ name ∈ path, PlainName name) :
    (pathText path).toList.count '/' + 1 = path.length := by
  induction path with
  | nil => exact absurd rfl hne
  | cons name rest ih =>
      have hname : name.toList.count '/' = 0 :=
        List.count_eq_zero.2 (h name (by simp)).no_slash
      cases rest with
      | nil => simp [pathText_singleton, (h name (by simp)).shown_eq, hname]
      | cons second others =>
          have hbelow : ∀ n ∈ second :: others, PlainName n :=
            fun n hn => h n (List.mem_cons_of_mem _ hn)
          have hrest := ih (by simp) hbelow
          rw [toList_pathText hbelow] at hrest
          rw [toList_pathText h]
          rw [List.map_cons, List.intercalate_cons_of_ne_nil (by simp)]
          simp only [List.count_append, hname, List.length_cons] at hrest ⊢
          simp only [List.count_singleton_self]
          omega

/-- A character of a path is a slash or stands in one of its names. -/
theorem mem_pathText (h : ∀ name ∈ path, PlainName name) {c : Char}
    (hc : c ∈ (pathText path).toList) : c = '/' ∨ ∃ name ∈ path, c ∈ name.toList := by
  rw [pathText_eq h] at hc
  clear h
  induction path with
  | nil => simp at hc
  | cons name rest ih =>
      by_cases hrest : rest = []
      · subst hrest
        exact .inr ⟨name, by simp, by simpa using hc⟩
      · rw [String.intercalate_cons_of_ne_nil hrest] at hc
        simp only [String.toList_append, List.mem_append] at hc
        rcases hc with (hname | hslash) | hin
        · exact .inr ⟨name, by simp, hname⟩
        · exact .inl (by simpa using hslash)
        · rcases ih hin with hslash | ⟨other, hother, hmem⟩
          · exact .inl hslash
          · exact .inr ⟨other, List.mem_cons_of_mem _ hother, hmem⟩

theorem dropTrailingSlashes_pathText (hne : path ≠ []) (h : ∀ name ∈ path, PlainName name) :
    dropTrailingSlashes (pathText path) = pathText path := by
  rcases (pathText_ends hne h).2 with ⟨c, cs, hcs, hc⟩
  rw [dropTrailingSlashes, hcs]
  simp only [List.reverse_append, List.reverse_cons, List.reverse_nil, List.nil_append,
    List.cons_append]
  rw [List.dropWhile_cons_of_neg (by simpa using hc)]
  simp [← hcs]

end Event
end Walk

/-! ## The last name -/

namespace Rules.Naming

open Walk.Event

/-- The path of the directory that holds an entry, if it is not the root. -/
def parentText (above : List String) : Option String :=
  if above = [] then none else some (pathText above)

/-- The last name of a path is split from the names above it. -/
theorem splitParent_pathText {above : List String} {name : String} (hname : PlainName name) :
    splitParent (pathText (above ++ [name])) = (parentText above, name) := by
  by_cases habove : above = []
  · subst habove
    simp [splitParent, parentText, pathText_singleton, hname.shown_eq,
      Text.splitLast_of_not_mem hname.no_slash]
  · have hsplit : (pathText (above ++ [name])).toList
        = (pathText above).toList ++ '/' :: name.toList := by
      simp [pathText_concat habove, hname.shown_eq]
    simp [splitParent, parentText, habove, hsplit, Text.splitLast_append hname.no_slash]

/-- A name put back under its parent makes the path again. -/
theorem renamed_parentText (above : List String) {name : String} (hname : PlainName name) :
    renamed (parentText above) name = pathText (above ++ [name]) := by
  by_cases habove : above = []
  · simp [renamed, parentText, habove, pathText_singleton, hname.shown_eq]
  · simp [renamed, parentText, habove, pathText_concat habove, hname.shown_eq]

end Rules.Naming

/-! ## Paths from the top -/

namespace FileSystem

open Walk.Event

variable {at' : Location}

theorem fromTop_pathOf (at' : Location) : fromTop (pathOf at') = true := by
  simp [fromTop, pathOf]

theorem pathOf_eq (h : ∀ name ∈ at', PlainName name) : pathOf at' = "/" ++ pathText at' := by
  rw [pathOf, pathText_eq h]

theorem namesOf_pathText (h : ∀ name ∈ at', PlainName name) : namesOf (pathText at') = at' := by
  by_cases hne : at' = []
  · subst hne
    rfl
  · have hall : ∀ piece ∈ at'.map String.toList, (!piece.isEmpty) = true := by
      intro piece hpiece
      rcases List.mem_map.1 hpiece with ⟨name, hname, rfl⟩
      simpa using (h name hname).ne_empty
    rw [namesOf, splitOn_pathText hne h, List.filter_eq_self.2 hall]
    simp [Function.comp_def]

/-- The path of a location leads through its names. -/
theorem namesOf_pathOf (h : ∀ name ∈ at', PlainName name) : namesOf (pathOf at') = at' := by
  have hpieces : Text.splitOn '/' (pathOf at').toList
      = [] :: Text.splitOn '/' (pathText at').toList := by
    simp [pathOf_eq h, Text.splitOn]
  rw [namesOf, hpieces, List.filter_cons_of_neg (by simp)]
  exact namesOf_pathText h

theorem asksDirectory_pathOf (h : ∀ name ∈ at', PlainName name) :
    asksDirectory (pathOf at') = false := by
  by_cases hne : at' = []
  · subst hne
    rfl
  · rcases (pathText_ends hne h).2 with ⟨c, cs, hcs, hc⟩
    have hlast : (pathOf at').toList.getLast? = some c := by
      simp [pathOf_eq h, hcs, List.getLast?_cons]
    simp [asksDirectory, hlast, hc]

/-- Only the length of the path of a location can be wrong. -/
theorem checkPath_pathOf_eq (h : ∀ name ∈ at', PlainName name) :
    checkPath (pathOf at')
      = if pathLimit ≤ (pathOf at').utf8ByteSize then .error .nameTooLong else .ok () := by
  have hnul : Char.ofNat 0 ∉ (pathOf at').toList := by
    rw [pathOf_eq h, String.toList_append]
    intro hmem
    rcases List.mem_append.1 hmem with htop | hin
    · exact absurd htop (by decide)
    · rcases mem_pathText h hin with hslash | ⟨name, hname, hnul⟩
      · exact absurd hslash (by decide)
      · exact (h name hname).no_nul hnul
  have hempty : (pathOf at').isEmpty = false := by
    simp [pathOf]
  simp [checkPath, hnul, hempty]

/-- The path of a location is accepted when it is short enough. -/
theorem checkPath_pathOf (h : ∀ name ∈ at', PlainName name)
    (hsize : (pathOf at').utf8ByteSize < pathLimit) : checkPath (pathOf at') = .ok () := by
  rw [checkPath_pathOf_eq h, if_neg (Nat.not_le.2 hsize)]

theorem lt_of_checkPath {path : String} (h : checkPath path = .ok ()) :
    path.utf8ByteSize < pathLimit := by
  by_cases hnul : path.toList.contains (Char.ofNat 0) = true
  · simp only [checkPath, hnul, if_true] at h
    cases h
  · by_cases hempty : path.isEmpty = true
    · simp only [checkPath, hnul, hempty, if_true, if_false, Bool.false_eq_true] at h
      cases h
    · by_cases hlong : pathLimit ≤ path.utf8ByteSize
      · simp only [checkPath, hnul, hempty, hlong, if_true, if_false, Bool.false_eq_true] at h
        cases h
      · exact Nat.not_le.1 hlong

/-- A path below a root is written from the names of both. -/
theorem join_pathOf {path : List String} (hat : ∀ name ∈ at', PlainName name) (hne : path ≠ [])
    (h : ∀ name ∈ path, PlainName name) :
    Path.join (pathOf at') (pathText path) = pathOf (at' ++ path) := by
  rcases (pathText_ends hne h).1 with ⟨c, cs, hcs, hc⟩
  have hrelative : Path.isAbsolute (pathText path) = false := by
    simp [Path.isAbsolute, hcs, hc]
  have hbase : (pathOf at').isEmpty = false := by
    simp [pathOf]
  -- Of the paths of locations, only that of the top ends with a slash.
  by_cases htop : at' = []
  · subst htop
    have hroot : pathOf [] = "/" := rfl
    simp [Path.join, hrelative, hroot, pathOf_eq h]
  · rcases (pathText_ends htop hat).2 with ⟨d, ds, hds, hd⟩
    have hlast : (pathOf at').toList.getLast? = some d := by
      simp [pathOf_eq hat, hds, List.getLast?_cons]
    have hboth : ∀ name ∈ at' ++ path, PlainName name := List.forall_mem_append.2 ⟨hat, h⟩
    have hjoin : pathText (at' ++ path) = pathText at' ++ "/" ++ pathText path := by
      rw [pathText_eq hboth, pathText_eq hat, pathText_eq h,
        String.intercalate_append_of_ne_nil htop hne]
    have hslash : ¬ some d = some '/' := by simpa using hd
    simp only [Path.join, hrelative, hbase, hlast, hslash, Bool.or_self, Bool.false_eq_true,
      if_false]
    simp [pathOf_eq hboth, pathOf_eq hat, hjoin, String.append_assoc]

/-- The directory above a location has the path without the last name. -/
theorem parent?_pathOf {name : String} (h : ∀ n ∈ at' ++ [name], PlainName n) :
    Path.parent? (pathOf (at' ++ [name])) = some (pathOf at') := by
  have counts : ∀ n, PlainName n → Path.counts n.toList = true := by
    intro n hn
    have hdot : n.toList ≠ ['.'] := fun e => hn.ne_dot (String.toList_inj.1 e)
    simp [Path.counts, hn.ne_empty, hdot]
  have hpieces : Path.pieces (pathOf (at' ++ [name]))
      = [] :: (at'.map String.toList ++ [name.toList]) := by
    have hsplit : Path.pieces (pathOf (at' ++ [name]))
        = [] :: Text.splitOn '/' (pathText (at' ++ [name])).toList := by
      simp [Path.pieces, pathOf_eq h, Text.splitOn]
    rw [hsplit, splitOn_pathText (by simp) h]
    simp
  -- All names count, so nothing is dropped but the last one.
  have hall : Path.trimBack (at'.map String.toList).reverse = (at'.map String.toList).reverse := by
    cases hback : (at'.map String.toList).reverse with
    | nil => rfl
    | cons piece back =>
        have hmem : piece ∈ at'.map String.toList := by
          rw [← List.mem_reverse, hback]
          simp
        rcases List.mem_map.1 hmem with ⟨n, hn, rfl⟩
        simp [Path.trimBack, counts n (h n (List.mem_append_left _ hn))]
  have hlast : Path.trimBack (name.toList :: (at'.map String.toList).reverse)
      = name.toList :: (at'.map String.toList).reverse := by
    simp [Path.trimBack, counts name (h name (by simp))]
  have hpath : Path.ofPieces [] (at'.map String.toList) = pathOf at' := by
    by_cases hat : at' = []
    · subst hat
      rfl
    · have habove : ∀ n ∈ at', PlainName n := fun n hn => h n (List.mem_append_left _ hn)
      rw [← String.toList_inj]
      simp [Path.ofPieces, hat, pathOf_eq habove, toList_pathText habove,
        List.intercalate_cons_of_ne_nil]
  simp [Path.parent?, hpieces, hlast, hall, hpath]

end FileSystem
end ProjectConsistency
