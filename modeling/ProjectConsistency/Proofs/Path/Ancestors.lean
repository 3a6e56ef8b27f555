import ProjectConsistency.Proofs.Path.Above

/-!
# Ancestors — the paths above a path, one after the other

The path above another is the text of that without its last component, and without the slashes and
dots before it.  This file defines:

* `FileSystem.Dots` — names that lead nowhere;
* `FileSystem.Trimmed` — a path without a dot behind other names;
* `FileSystem.Over` — a path is above another and has fewer names.

One more component is one more name, next to dots (`names_of_parent?`), and a path with nothing above
it has no names but dots (`dots_of_parent?`).  The fuel of `ancestors` is enough for every path
(`ancestors_of_parent?`), so what is said of them is proved from one path to the next
(`parent_induction`).
-/

namespace ProjectConsistency

/-- A text is cut into no more pieces with something in them than it has characters. -/
theorem Text.length_filter_splitOn_le (sep : Char) (cs : List Char) :
    ((splitOn sep cs).filter fun piece => !piece.isEmpty).length ≤ cs.length := by
  induction cs with
  | nil => simp [splitOn]
  | cons c rest ih =>
      rw [splitOn]
      by_cases hsep : c = sep
      · simp only [hsep, if_true, List.filter_cons, List.isEmpty_nil, Bool.not_true,
          Bool.false_eq_true, if_false, List.length_cons]
        omega
      · cases hrest : splitOn sep rest with
        | nil => simp [hsep]
        | cons first pieces =>
            -- The character makes the first piece longer, which may have been empty.
            rw [hrest] at ih
            cases hfirst : first.isEmpty with
            | true =>
                simp only [List.filter_cons, hfirst, Bool.not_true, Bool.false_eq_true,
                  if_false] at ih
                simpa [hsep] using ih
            | false =>
                simp only [List.filter_cons, hfirst, Bool.not_false, if_true,
                  List.length_cons] at ih
                simp only [hsep, if_false, List.filter_cons, List.isEmpty_cons, Bool.not_false,
                  if_true, List.length_cons]
                omega

/-- Two nonempty lists of pieces join at one separator. -/
theorem Text.intercalate_append (sep : Char) {pieces more : List (List Char)} (hne : pieces ≠ [])
    (hmore : more ≠ []) :
    [sep].intercalate (pieces ++ more)
      = [sep].intercalate pieces ++ sep :: [sep].intercalate more := by
  induction pieces with
  | nil => exact absurd rfl hne
  | cons piece rest ih =>
      by_cases hrest : rest = []
      · subst hrest
        simp [List.intercalate_cons_of_ne_nil hmore]
      · rw [List.cons_append, List.intercalate_cons_of_ne_nil (by simp [hrest]), ih hrest,
          List.intercalate_cons_of_ne_nil hrest]
        simp

namespace FileSystem

/-! ## Names of the path above -/

def Dots (names : List String) : Prop :=
  ∀ name ∈ names, name = "."

/-- A dot at the end of the path is its only name. -/
def Trimmed (path : String) : Prop :=
  ∀ above, namesOf path = above ++ ["."] → above = []

def named (pieces : List (List Char)) : List String :=
  (pieces.filter fun piece => !piece.isEmpty).map String.ofList

theorem named_append (pieces more : List (List Char)) :
    named (pieces ++ more) = named pieces ++ named more := by
  simp [named]

theorem named_cons {piece : List Char} (h : piece ≠ []) (rest : List (List Char)) :
    named (piece :: rest) = String.ofList piece :: named rest := by
  simp [named, h]

theorem dots_named {pieces : List (List Char)} (h : ∀ piece ∈ pieces, Path.counts piece = false) :
    Dots (named pieces) := by
  intro name hname
  rcases List.mem_map.1 hname with ⟨piece, hpiece, rfl⟩
  obtain ⟨hmem, hne⟩ := List.mem_filter.1 hpiece
  have hdot : piece = ['.'] := by
    have hcounts := h piece hmem
    simp only [Path.counts, hne, Bool.true_and, decide_eq_false_iff_not, ne_eq,
      Decidable.not_not] at hcounts
    exact hcounts
  rw [hdot]

theorem not_counts_of_mem_takeWhile {piece : List Char} {pieces : List (List Char)}
    (h : piece ∈ pieces.takeWhile fun piece => !Path.counts piece) : Path.counts piece = false := by
  have hall := List.all_eq_true.1 List.all_takeWhile piece h
  simpa using hall

theorem ne_nil_of_counts {piece : List Char} (h : Path.counts piece = true) : piece ≠ [] := by
  rintro rfl
  simp [Path.counts] at h

/-- The first of the pieces that are left counts. -/
theorem counts_of_trimBack {piece : List Char} {back rest : List (List Char)}
    (h : Path.trimBack back = piece :: rest) : Path.counts piece = true := by
  have hhead := List.head?_dropWhile_not (fun piece => !Path.counts piece) back
  rw [← Path.trimBack, h] at hhead
  simpa using hhead

/-- Pieces are those that are left and some that do not count. -/
theorem exists_append_trimBack (back : List (List Char)) :
    ∃ dropped, back = dropped ++ Path.trimBack back ∧
      ∀ piece ∈ dropped, Path.counts piece = false :=
  ⟨back.takeWhile fun piece => !Path.counts piece, List.takeWhile_append_dropWhile.symm,
    fun _ => not_counts_of_mem_takeWhile⟩

theorem namesOf_of_pieces {path : String} {pieces : List (List Char)}
    (h : Path.pieces path = pieces) : namesOf path = named pieces := by
  rw [namesOf, ← Path.pieces, h]
  rfl

/-- The pieces of the path above a path, and those that it does not have. -/
theorem split_of_parent? {path parent : String} {first : List Char} {rest : List (List Char)}
    (hpieces : Path.pieces path = first :: rest) (h : Path.parent? path = some parent) :
    (first ≠ [] ∧ parent = "" ∧ ∀ piece ∈ rest, Path.counts piece = false) ∨
      ∃ kept passed last dropped, rest = kept.reverse ++ passed ++ last :: dropped ∧
        parent = Path.ofPieces first kept.reverse ∧ Path.counts last = true ∧
        (∀ piece ∈ passed ++ dropped, Path.counts piece = false) ∧
        ∀ piece back, kept = piece :: back → Path.counts piece = true := by
  rw [Path.parent?] at h
  obtain ⟨dropped, hdropped, hdots⟩ := exists_append_trimBack rest.reverse
  -- Trimming at the end leaves nothing, or a last name that is cut off with the dots around it.
  cases htrim : Path.trimBack rest.reverse with
  | nil =>
      obtain ⟨hfirst, rfl⟩ : first ≠ [] ∧ "" = parent := by simpa [hpieces, htrim] using h
      rw [htrim, List.append_nil, List.reverse_eq_iff] at hdropped
      refine .inl ⟨hfirst, rfl, ?_⟩
      rw [hdropped]
      simpa using hdots
  | cons last back =>
      obtain rfl : Path.ofPieces first (Path.trimBack back).reverse = parent := by
        simpa [hpieces, htrim] using h
      obtain ⟨passed, hpassed, hdots'⟩ := exists_append_trimBack back
      have hback : back.reverse = (Path.trimBack back).reverse ++ passed.reverse := by
        rw [← List.reverse_append, ← hpassed]
      refine .inr ⟨Path.trimBack back, passed.reverse, last, dropped.reverse, ?_, rfl,
        counts_of_trimBack htrim, ?_, fun _ _ => counts_of_trimBack⟩
      · rw [htrim, List.reverse_eq_iff] at hdropped
        rw [hdropped, List.reverse_append, List.reverse_cons, hback]
        simp
      · intro piece hpiece
        rcases List.mem_append.1 hpiece with hin | hin
        · exact hdots' piece (by simpa using hin)
        · exact hdots piece (by simpa using hin)

/-- A path that is written from pieces of which the last one counts is trimmed. -/
theorem trimmed_ofPieces {first : List Char} {kept : List (List Char)}
    (hsound : ∀ piece ∈ first :: kept.reverse, '/' ∉ piece)
    (hkept : ∀ piece back, kept = piece :: back → Path.counts piece = true) :
    Trimmed (Path.ofPieces first kept.reverse) := by
  intro above habove
  have hnames : named (first :: kept.reverse) = above ++ ["."] :=
    (namesOf_ofPieces hsound).symm.trans habove
  cases kept with
  | nil =>
      by_cases hfirst : first = []
      · simp [hfirst, named] at hnames
      · rw [List.reverse_nil, named_cons hfirst] at hnames
        cases above with
        | nil => rfl
        | cons _ above => simp [named] at hnames
  | cons piece back =>
      have hpiece := hkept piece back rfl
      rw [List.reverse_cons, ← List.cons_append, named_append,
        named_cons (ne_nil_of_counts hpiece)] at hnames
      obtain ⟨_, hlast⟩ := List.append_inj' hnames rfl
      have hdot : String.ofList piece = "." := (List.cons.inj hlast).1
      obtain rfl : piece = ['.'] := by simpa using congrArg String.toList hdot
      simp [Path.counts] at hpiece

/-- A path has one name more than the path above it, and dots around it. -/
theorem names_of_parent? {path parent : String} (h : Path.parent? path = some parent) :
    ∃ dots name more, Dots dots ∧ Dots more ∧
      namesOf path = namesOf parent ++ dots ++ name :: more ∧ Trimmed parent := by
  obtain ⟨first, rest, hpieces, _⟩ := pieces_of_parent? h
  have hsound : ∀ piece ∈ first :: rest, '/' ∉ piece := fun piece hpiece =>
    Text.not_mem_of_mem_splitOn (by rwa [← Path.pieces, hpieces])
  rcases split_of_parent? hpieces h with ⟨hfirst, rfl, hdots⟩ |
    ⟨kept, passed, last, dropped, rfl, rfl, hlast, hdots, hkept⟩
  · refine ⟨[], String.ofList first, named rest, by simp [Dots], dots_named hdots, ?_,
      by simp [Trimmed, namesOf, Text.splitOn]⟩
    rw [namesOf_of_pieces hpieces, named_cons hfirst]
    rfl
  · have hupper : ∀ piece ∈ first :: kept.reverse, '/' ∉ piece := by
      intro piece hpiece
      apply hsound
      simp only [List.mem_cons, List.mem_append] at hpiece ⊢
      exact hpiece.imp_right fun hin => .inl (.inl hin)
    have hparent : namesOf (Path.ofPieces first kept.reverse) = named (first :: kept.reverse) :=
      namesOf_ofPieces hupper
    obtain ⟨hpassed, hdropped⟩ := List.forall_mem_append.1 hdots
    refine ⟨named passed, String.ofList last, named dropped, dots_named hpassed,
      dots_named hdropped, ?_, trimmed_ofPieces hupper hkept⟩
    calc
      namesOf path = named ((first :: kept.reverse) ++ passed ++ last :: dropped) :=
        namesOf_of_pieces hpieces
      _ = named (first :: kept.reverse) ++ named passed ++ named (last :: dropped) := by
        rw [named_append, named_append]
      _ = namesOf (Path.ofPieces first kept.reverse) ++ named passed
          ++ String.ofList last :: named dropped := by
        rw [hparent, named_cons (ne_nil_of_counts hlast)]

/-- A path with nothing above it has no names but dots. -/
theorem dots_of_parent? {path : String} (h : Path.parent? path = none) : Dots (namesOf path) := by
  rw [Path.parent?] at h
  cases hpieces : Path.pieces path with
  | nil =>
      rw [namesOf_of_pieces hpieces]
      simp [Dots, named]
  | cons first rest =>
      obtain ⟨dropped, hdropped, hdots⟩ := exists_append_trimBack rest.reverse
      cases htrim : Path.trimBack rest.reverse with
      | cons last back => simp [hpieces, htrim] at h
      | nil =>
          obtain rfl : first = [] := by simpa [hpieces, htrim] using h
          rw [htrim, List.append_nil, List.reverse_eq_iff] at hdropped
          rw [namesOf_of_pieces hpieces, hdropped]
          exact dots_named (by simpa [Path.counts] using hdots)

/-- A path and its parent start from the same directory. -/
theorem start_of_parent? (fs : FileSystem) {path parent : String}
    (h : Path.parent? path = some parent) : fs.start parent = fs.start path := by
  rw [start, start, fromTop_of_parent? h]

/-! ## All paths above -/

/-- What holds of paths with nothing above them, and of each path if it holds of the path above it,
holds of all paths. -/
theorem parent_induction {motive : String → Prop}
    (none : ∀ path, Path.parent? path = none → motive path)
    (some : ∀ path parent, Path.parent? path = some parent → motive parent → motive path)
    (path : String) : motive path := by
  -- The path above has fewer names.
  generalize hcount : (namesOf path).length = count
  induction count using Nat.strongRecOn generalizing path with
  | _ count ih =>
      cases hparent : Path.parent? path with
      | none => exact none path hparent
      | some parent =>
          have hlt := length_namesOf_of_parent? hparent
          exact some path parent hparent (ih _ (by omega) parent rfl)

theorem length_namesOf_le (path : String) : (namesOf path).length ≤ path.length := by
  rw [namesOf, List.length_map, ← String.length_toList]
  exact Text.length_filter_splitOn_le '/' path.toList

/-- Any fuel that is enough for the names of a path is enough. -/
theorem ancestorsFrom_eq {fuel more : Nat} {path : String} (h : (namesOf path).length ≤ fuel)
    (h' : (namesOf path).length ≤ more) : ancestorsFrom fuel path = ancestorsFrom more path := by
  induction fuel generalizing more path with
  | zero =>
      cases hparent : Path.parent? path with
      | none => cases more <;> simp [ancestorsFrom, hparent]
      | some parent =>
          have hlt := length_namesOf_of_parent? hparent
          omega
  | succ fuel ih =>
      cases hparent : Path.parent? path with
      | none => cases more <;> simp [ancestorsFrom, hparent]
      | some parent =>
          have hlt := length_namesOf_of_parent? hparent
          obtain ⟨left, rfl⟩ : ∃ left, more = left + 1 := ⟨more - 1, by omega⟩
          have hsame : ancestorsFrom fuel parent = ancestorsFrom left parent :=
            ih (by omega) (by omega)
          simp [ancestorsFrom, hparent, hsame]

theorem ancestors_of_none {path : String} (h : Path.parent? path = none) :
    ancestors path = [path] := by
  unfold ancestors
  cases path.length <;> simp [ancestorsFrom, h]

/-- The ancestors of a path are the path and those of its parent. -/
theorem ancestors_of_parent? {path parent : String} (h : Path.parent? path = some parent) :
    ancestors path = path :: ancestors parent := by
  have hlt := length_namesOf_of_parent? h
  have hpath := length_namesOf_le path
  obtain ⟨fuel, hfuel⟩ : ∃ fuel, path.length = fuel + 1 := ⟨path.length - 1, by omega⟩
  rw [ancestors, hfuel]
  simp only [ancestorsFrom, h]
  rw [ancestors, ancestorsFrom_eq (by omega) (length_namesOf_le parent)]

theorem ancestors_eq_cons (path : String) : ∃ above, ancestors path = path :: above := by
  cases hparent : Path.parent? path with
  | none => exact ⟨[], ancestors_of_none hparent⟩
  | some parent => exact ⟨ancestors parent, ancestors_of_parent? hparent⟩

theorem self_mem_ancestors (path : String) : path ∈ ancestors path := by
  obtain ⟨above, hancestors⟩ := ancestors_eq_cons path
  simp [hancestors]

theorem parent_mem_ancestors {path parent : String} (h : Path.parent? path = some parent) :
    parent ∈ ancestors path := by
  rw [ancestors_of_parent? h]
  exact List.mem_cons_of_mem _ (self_mem_ancestors parent)

/-- What is above an ancestor of a path is above the path. -/
theorem mem_ancestors_trans {path above higher : String} (h : above ∈ ancestors path)
    (h' : higher ∈ ancestors above) : higher ∈ ancestors path := by
  induction path using parent_induction with
  | none path hparent =>
      obtain rfl : above = path := by simpa [ancestors_of_none hparent] using h
      exact h'
  | some path parent hparent ih =>
      rw [ancestors_of_parent? hparent] at h
      rcases List.mem_cons.1 h with rfl | h
      · exact h'
      · rw [ancestors_of_parent? hparent]
        exact List.mem_cons_of_mem _ (ih h)

/-- The path is above another, with fewer names, and leads from the same directory. -/
structure Over (above path : String) : Prop where
  names : ∃ name more, namesOf path = namesOf above ++ name :: more
  fromTop : fromTop above = fromTop path

/-- The parent of a path lies over it. -/
theorem over_of_parent? {path parent : String} (h : Path.parent? path = some parent) :
    Over parent path := by
  obtain ⟨dots, name, more, _, _, hnames, _⟩ := names_of_parent? h
  refine ⟨?_, fromTop_of_parent? h⟩
  cases dots with
  | nil => exact ⟨name, more, by simpa using hnames⟩
  | cons dot dots => exact ⟨dot, dots ++ name :: more, by simpa using hnames⟩

/-- A path that lies over another has fewer names. -/
theorem Over.length_lt {above path : String} (h : Over above path) :
    (namesOf above).length < (namesOf path).length := by
  obtain ⟨name, more, hnames⟩ := h.names
  rw [hnames, List.length_append, List.length_cons]
  omega

theorem Over.start_eq {above path : String} (h : Over above path) (fs : FileSystem) :
    fs.start above = fs.start path := by
  rw [start, start, h.fromTop]

/-- Lying over is transitive. -/
theorem Over.trans {higher above path : String} (h : Over higher above) (h' : Over above path) :
    Over higher path := by
  obtain ⟨name, more, hnames⟩ := h.names
  obtain ⟨name', more', hnames'⟩ := h'.names
  exact ⟨⟨name, more ++ name' :: more', by rw [hnames', hnames, List.append_assoc]; rfl⟩,
    h.fromTop.trans h'.fromTop⟩

/-- Every other ancestor of a path lies over it. -/
theorem over_of_mem_ancestors {path above : String} (h : above ∈ ancestors path) :
    above = path ∨ Over above path := by
  induction path using parent_induction with
  | none path hparent =>
      exact .inl (by simpa [ancestors_of_none hparent] using h)
  | some path parent hparent ih =>
      rw [ancestors_of_parent? hparent] at h
      rcases List.mem_cons.1 h with rfl | h
      · exact .inl rfl
      · rcases ih h with rfl | hover
        · exact .inr (over_of_parent? hparent)
        · exact .inr (hover.trans (over_of_parent? hparent))

/-- The paths above a path are above one another, the last one above all. -/
theorem pairwise_ancestors (path : String) :
    (ancestors path).Pairwise fun path above => Over above path := by
  induction path using parent_induction with
  | none path hparent => simp [ancestors_of_none hparent]
  | some path parent hparent ih =>
      rw [ancestors_of_parent? hparent]
      refine List.pairwise_cons.2 ⟨fun above habove => ?_, ih⟩
      rcases over_of_mem_ancestors habove with rfl | hover
      · exact over_of_parent? hparent
      · exact hover.trans (over_of_parent? hparent)

/-! ## Paths that are not refused -/

/-- A path is accepted when it is not empty, holds no zero character and is short enough. -/
theorem checkPath_eq_ok_iff {path : String} :
    checkPath path = .ok () ↔
      Char.ofNat 0 ∉ path.toList ∧ path ≠ "" ∧ path.utf8ByteSize < pathLimit := by
  by_cases hnul : Char.ofNat 0 ∈ path.toList
  · simp [checkPath, hnul]
  · by_cases hempty : path = ""
    · simp [checkPath, hempty]
    · by_cases hlong : pathLimit ≤ path.utf8ByteSize
      · simp [checkPath, hnul, hempty, hlong]
      · simp [checkPath, hnul, hempty, hlong, Nat.lt_of_not_le hlong]

/-- A path begins with the text of the path above it. -/
theorem exists_append_of_parent? {path parent : String} (h : Path.parent? path = some parent) :
    ∃ more, path = parent ++ more := by
  obtain ⟨first, rest, hpieces, _⟩ := pieces_of_parent? h
  have htext : path.toList = ['/'].intercalate (first :: rest) := by
    rw [← hpieces, Path.pieces, Text.splitOn_eq]
    exact (List.intercalate_splitOn _).symm
  rcases split_of_parent? hpieces h with ⟨_, rfl, _⟩ | ⟨kept, passed, last, dropped, rfl, rfl, _⟩
  · exact ⟨path, String.empty_append.symm⟩
  · rw [List.append_assoc, ← List.cons_append,
      Text.intercalate_append '/' (by simp) (by simp)] at htext
    -- The text of the pieces that are kept ends before a slash; the top is that slash.
    by_cases htop : (first.isEmpty && kept.reverse.isEmpty) = true
    · obtain ⟨rfl, rfl⟩ : first = [] ∧ kept = [] := by simpa using htop
      refine ⟨String.ofList (['/'].intercalate (passed ++ last :: dropped)), ?_⟩
      rw [← String.toList_inj, htext]
      simp [Path.ofPieces]
    · refine ⟨String.ofList ('/' :: ['/'].intercalate (passed ++ last :: dropped)), ?_⟩
      rw [← String.toList_inj, htext, Path.ofPieces, if_neg htop]
      simp

/-- The paths above a path that is not refused are not refused either, but for the empty one. -/
theorem checkPath_of_mem_ancestors {path above : String} (hcheck : checkPath path = .ok ())
    (h : above ∈ ancestors path) : above = "" ∨ checkPath above = .ok () := by
  induction path using parent_induction with
  | none path hparent =>
      obtain rfl : above = path := by simpa [ancestors_of_none hparent] using h
      exact .inr hcheck
  | some path parent hparent ih =>
      rw [ancestors_of_parent? hparent] at h
      rcases List.mem_cons.1 h with rfl | h
      · exact .inr hcheck
      · by_cases hempty : parent = ""
        · subst hempty
          have hnone : Path.parent? "" = none := by decide
          exact .inl (by simpa [ancestors_of_none hnone] using h)
        · refine ih (checkPath_eq_ok_iff.2 ?_) h
          obtain ⟨hnul, _, hsize⟩ := checkPath_eq_ok_iff.1 hcheck
          obtain ⟨more, rfl⟩ := exists_append_of_parent? hparent
          rw [String.utf8ByteSize_append] at hsize
          exact ⟨fun hmem => hnul (by simp [hmem]), hempty, by omega⟩

end FileSystem
end ProjectConsistency
