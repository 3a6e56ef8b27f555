import ProjectConsistency.Proofs.Path.Names

/-!
# Above — paths above a path, and paths below a root

Rules may ask for any path, with empty names, dots and slashes wherever they are.  This file defines:

* `FileSystem.IsAbove` — a path has the first names of another one, and begins where that begins;

and shows that the directories that are made for a path are above it (`isAbove_of_mem_ancestors`), and
that a relative path in a base has the names of both (`namesOf_join`).
-/

namespace ProjectConsistency

/-! ## Pieces -/

namespace Text

theorem not_mem_of_mem_splitOn {sep : Char} {cs piece : List Char} (h : piece ∈ splitOn sep cs) :
    sep ∉ piece := by
  induction cs generalizing piece with
  | nil =>
      obtain rfl : piece = [] := by simpa [splitOn] using h
      simp
  | cons c rest ih =>
      rw [splitOn] at h
      by_cases hsep : c = sep
      · rw [if_pos hsep] at h
        rcases List.mem_cons.1 h with rfl | h
        · simp
        · exact ih h
      · rw [if_neg hsep] at h
        cases hrest : splitOn sep rest with
        | nil =>
            obtain rfl : piece = [c] := by simpa [hrest] using h
            simpa using Ne.symm hsep
        | cons first pieces =>
            -- The character goes to the first piece; the others are pieces of the rest.
            have hfirst : sep ∉ first := ih (by simp [hrest])
            have h : piece = c :: first ∨ piece ∈ pieces := by simpa [hrest] using h
            rcases h with rfl | h
            · simp [Ne.symm hsep, hfirst]
            · exact ih (by simp [hrest, h])

/-- Splitting starts anew after each separator. -/
theorem splitOn_append_cons (sep : Char) (cs ds : List Char) :
    splitOn sep (cs ++ sep :: ds) = splitOn sep cs ++ splitOn sep ds := by
  rw [splitOn_eq, splitOn_eq, splitOn_eq, List.splitOn_append_cons_self]

end Text

namespace FileSystem

/-! ## Names of a joined path -/

/-- The names of two paths joined by a slash are the names of both. -/
theorem namesOf_append_slash (a b : String) : namesOf (a ++ "/" ++ b) = namesOf a ++ namesOf b := by
  have hcut : (a ++ "/" ++ b).toList = a.toList ++ '/' :: b.toList := by simp
  rw [namesOf, hcut, Text.splitOn_append_cons, List.filter_append, List.map_append]
  rfl

/-- A relative path in a base has the names of both. -/
theorem namesOf_join (base : String) {path : String} (h : fromTop path = false) :
    namesOf (Path.join base path) = namesOf base ++ namesOf path := by
  have hrelative : Path.isAbsolute path = false := h
  -- `Path.join` puts a slash between the two unless there is one, or nothing before it.
  by_cases hempty : base.isEmpty = true
  · obtain rfl : base = "" := by simpa using hempty
    simp [Path.join, namesOf, Text.splitOn]
  · by_cases hslash : base.toList.getLast? = some '/'
    · rcases List.getLast?_eq_some_iff.1 hslash with ⟨front, hfront⟩
      obtain rfl : base = String.ofList front ++ "/" := by
        rw [← String.toList_inj]
        simp [hfront]
      have hbase : namesOf (String.ofList front ++ "/") = namesOf (String.ofList front) := by
        have hnil : namesOf "" = [] := rfl
        have hsplit := namesOf_append_slash (String.ofList front) ""
        rwa [hnil, List.append_nil, String.append_empty] at hsplit
      simp [Path.join, hrelative, hempty, hbase, namesOf_append_slash]
    · simp [Path.join, hrelative, hempty, hslash, namesOf_append_slash]

/-- Joining a path from the top forgets the base. -/
theorem join_of_fromTop (base : String) {path : String} (h : fromTop path = true) :
    Path.join base path = path := by
  have habsolute : Path.isAbsolute path = true := h
  simp [Path.join, habsolute]

theorem fromTop_join {base : String} (hbase : fromTop base = true) (path : String) :
    fromTop (Path.join base path) = true := by
  by_cases htop : fromTop path = true
  · rwa [join_of_fromTop base htop]
  · have hrelative : Path.isAbsolute path = false := by simpa [fromTop, Path.isAbsolute] using htop
    have hhead : base.toList.head? = some '/' := by simpa [fromTop] using hbase
    have hne : base.isEmpty = false := by
      rw [Bool.eq_false_iff]
      intro hempty
      obtain rfl : base = "" := by simpa using hempty
      simp at hhead
    have happend : ∀ more : String, fromTop (base ++ more) = true := by
      intro more
      simp [fromTop, List.head?_append, hhead]
    by_cases hslash : base.toList.getLast? = some '/'
    · simpa [Path.join, hrelative, hne, hslash] using happend path
    · simpa [Path.join, hrelative, hne, hslash, String.append_assoc] using happend ("/" ++ path)

/-! ## Directories above -/

/-- The path has the first names of another, and is from the top if that is. -/
structure IsAbove (path below : String) : Prop where
  names : namesOf path <+: namesOf below
  fromTop : fromTop below = true → fromTop path = true

theorem IsAbove.refl (path : String) : IsAbove path path :=
  ⟨List.prefix_rfl, id⟩

theorem IsAbove.trans {a b c : String} (h : IsAbove a b) (h' : IsAbove b c) : IsAbove a c :=
  ⟨h.names.trans h'.names, fun htop => h.fromTop (h'.fromTop htop)⟩

/-- Written and cut again, the pieces are the same, except that no piece is left of the empty path. -/
theorem namesOf_ofPieces {first : List Char} {rest : List (List Char)}
    (hsound : ∀ piece ∈ first :: rest, '/' ∉ piece) :
    namesOf (Path.ofPieces first rest)
      = ((first :: rest).filter fun piece => !piece.isEmpty).map String.ofList := by
  by_cases htop : (first.isEmpty && rest.isEmpty) = true
  · obtain ⟨rfl, rfl⟩ : first = [] ∧ rest = [] := by simpa using htop
    rfl
  · rw [Path.ofPieces, if_neg htop, namesOf, String.toList_ofList,
      Text.splitOn_intercalate (by simp) hsound]

/-- A path is from the top if its first piece is empty, and it has others. -/
theorem fromTop_iff_of_pieces {path : String} {first : List Char} {rest : List (List Char)}
    (hpieces : Path.pieces path = first :: rest) :
    fromTop path = true ↔ first = [] ∧ rest ≠ [] := by
  rw [Path.pieces] at hpieces
  cases hchars : path.toList with
  | nil =>
      rw [hchars] at hpieces
      obtain ⟨rfl, rfl⟩ : [] = first ∧ [] = rest := by simpa [Text.splitOn] using hpieces
      simp [fromTop, hchars]
  | cons c cs =>
      have hne : Text.splitOn '/' cs ≠ [] := by
        rw [Text.splitOn_eq]
        exact List.splitOn_ne_nil _ _
      rw [hchars, Text.splitOn] at hpieces
      by_cases hslash : c = '/'
      · obtain ⟨rfl, rfl⟩ : [] = first ∧ Text.splitOn '/' cs = rest := by
          simpa [hslash] using hpieces
        simp [fromTop, hchars, hslash, hne]
      · rw [if_neg hslash] at hpieces
        have hfirst : first ≠ [] := by
          rintro rfl
          cases hrest : Text.splitOn '/' cs <;> simp [hrest] at hpieces
        simp [fromTop, hchars, hslash, hfirst]

/-- A path that is written from pieces is from the top if the first one is empty. -/
theorem fromTop_ofPieces {first : List Char} (hfirst : '/' ∉ first) (rest : List (List Char)) :
    fromTop (Path.ofPieces first rest) = true ↔ first = [] := by
  cases first with
  | nil =>
      cases rest with
      | nil => simp [Path.ofPieces, fromTop]
      | cons _ _ => simp [Path.ofPieces, fromTop, List.intercalate_cons_of_ne_nil]
  | cons c cs =>
      have hc : c ≠ '/' := fun h => hfirst (by simp [h])
      cases rest with
      | nil => simp [Path.ofPieces, fromTop, hc]
      | cons _ _ => simp [Path.ofPieces, fromTop, List.intercalate_cons_of_ne_nil, hc]

/-- A path that is written from some of the first pieces of another is above it. -/
theorem isAbove_ofPieces {path : String} {first : List Char} {rest upper : List (List Char)}
    (hpieces : Path.pieces path = first :: rest) (hupper : upper <+: rest) :
    IsAbove (Path.ofPieces first upper) path := by
  have hpre : first :: upper <+: Path.pieces path := by
    rw [hpieces]
    exact List.prefix_cons_inj _ |>.2 hupper
  have hsound : ∀ piece ∈ first :: upper, '/' ∉ piece := fun piece hpiece =>
    Text.not_mem_of_mem_splitOn (hpre.subset hpiece)
  refine ⟨?_, ?_⟩
  · rw [namesOf_ofPieces hsound]
    exact (hpre.filter _).map _
  · intro htop
    exact (fromTop_ofPieces (hsound first (by simp)) upper).2
      ((fromTop_iff_of_pieces hpieces).1 htop).1

/-- Trimming at the end keeps a prefix of the pieces. -/
theorem trimBack_reverse_isPrefix (pieces : List (List Char)) :
    (Path.trimBack pieces.reverse).reverse <+: pieces := by
  have hsuffix : Path.trimBack pieces.reverse <:+ pieces.reverse := List.dropWhile_suffix _
  simpa using List.reverse_prefix.2 hsuffix

/-- A path without its last component is written from fewer of its pieces, or a single name has been
left out. -/
theorem pieces_of_parent? {path parent : String} (h : Path.parent? path = some parent) :
    ∃ first rest, Path.pieces path = first :: rest ∧
      ((∃ upper lower, rest = upper ++ lower ∧ (∃ piece ∈ lower, piece ≠ []) ∧
          parent = Path.ofPieces first upper) ∨
        (first ≠ [] ∧ parent = "")) := by
  rw [Path.parent?] at h
  cases hpieces : Path.pieces path with
  | nil => simp [hpieces] at h
  | cons first rest =>
      refine ⟨first, rest, rfl, ?_⟩
      cases htrim : Path.trimBack rest.reverse with
      | cons last back =>
          obtain rfl : Path.ofPieces first (Path.trimBack back).reverse = parent := by
            simpa [hpieces, htrim] using h
          obtain ⟨dropped, hrest⟩ := trimBack_reverse_isPrefix rest
          obtain ⟨passed, hback⟩ := trimBack_reverse_isPrefix back.reverse
          rw [List.reverse_reverse] at hback
          -- The name that is cut off is a real one.
          have hlast : last ≠ [] := by
            have hcounts : Path.counts last = true := by
              have hhead := List.head?_dropWhile_not (fun piece => !Path.counts piece) rest.reverse
              rw [← Path.trimBack, htrim] at hhead
              simpa using hhead
            rintro rfl
            simp [Path.counts] at hcounts
          refine .inl ⟨_, passed ++ last :: dropped, ?_, ⟨last, by simp, hlast⟩, rfl⟩
          rw [← hrest, htrim, List.reverse_cons, ← hback]
          simp
      | nil =>
          have hparent : first ≠ [] ∧ "" = parent := by simpa [hpieces, htrim] using h
          exact .inr ⟨hparent.1, hparent.2.symm⟩

/-- A path without its last component begins where the path begins. -/
theorem fromTop_of_parent? {path parent : String} (h : Path.parent? path = some parent) :
    fromTop parent = fromTop path := by
  obtain ⟨first, rest, hpieces, hcases⟩ := pieces_of_parent? h
  have hsound : '/' ∉ first := Text.not_mem_of_mem_splitOn (by
    rw [← Path.pieces, hpieces]
    exact List.mem_cons_self)
  rw [Bool.eq_iff_iff, fromTop_iff_of_pieces hpieces]
  rcases hcases with ⟨upper, lower, rfl, ⟨piece, hmem, _⟩, rfl⟩ | ⟨hfirst, rfl⟩
  · have hlower : lower ≠ [] := List.ne_nil_of_mem hmem
    simp [fromTop_ofPieces hsound, hlower]
  · simp [hfirst, fromTop]

/-- A path without its last component has fewer names. -/
theorem length_namesOf_of_parent? {path parent : String} (h : Path.parent? path = some parent) :
    (namesOf parent).length < (namesOf path).length := by
  obtain ⟨first, rest, hpieces, hcases⟩ := pieces_of_parent? h
  have hnames : namesOf path
      = ((first :: rest).filter fun piece => !piece.isEmpty).map String.ofList := by
    rw [namesOf, ← Path.pieces, hpieces]
  have hsound : ∀ piece ∈ first :: rest, '/' ∉ piece := fun piece hpiece =>
    Text.not_mem_of_mem_splitOn (by rwa [← Path.pieces, hpieces])
  rcases hcases with ⟨upper, lower, rfl, ⟨piece, hmem, hne⟩, rfl⟩ | ⟨hfirst, rfl⟩
  · have hupper : ∀ piece ∈ first :: upper, '/' ∉ piece := by
      intro piece hpiece
      rw [← List.cons_append] at hsound
      exact hsound piece (List.mem_append_left _ hpiece)
    have hkept : piece ∈ lower.filter fun piece => !piece.isEmpty :=
      List.mem_filter.2 ⟨hmem, by simpa using hne⟩
    have hpos := List.length_pos_of_mem hkept
    rw [hnames, namesOf_ofPieces hupper, ← List.cons_append, List.filter_append, List.length_map,
      List.length_map, List.length_append]
    omega
  · have hempty : namesOf "" = [] := rfl
    have hkept : first ∈ (first :: rest).filter fun piece => !piece.isEmpty :=
      List.mem_filter.2 ⟨by simp, by simpa using hfirst⟩
    rw [hnames, hempty, List.length_map]
    exact List.length_pos_of_mem hkept

/-- The parent of a path is above it. -/
theorem isAbove_of_parent? {path parent : String} (h : Path.parent? path = some parent) :
    IsAbove parent path := by
  obtain ⟨first, rest, hpieces, hcases⟩ := pieces_of_parent? h
  rcases hcases with ⟨upper, lower, rfl, _, rfl⟩ | ⟨_, rfl⟩
  · exact isAbove_ofPieces hpieces (List.prefix_append _ _)
  · -- The path is a single name, which is not below anything.
    refine ⟨List.nil_prefix, ?_⟩
    intro htop
    rwa [← fromTop_of_parent? h] at htop

/-- The directories that are made for a path are above it. -/
theorem isAbove_of_mem_ancestors {path above : String} (h : above ∈ ancestors path) :
    IsAbove above path :=
  ofFrom h
where
  ofFrom {fuel : Nat} {path : String} (h : above ∈ ancestorsFrom fuel path) :
      IsAbove above path := by
    induction fuel generalizing path with
    | zero =>
        obtain rfl : above = path := by simpa [ancestorsFrom] using h
        exact .refl _
    | succ fuel ih =>
        rw [ancestorsFrom] at h
        cases hparent : Path.parent? path with
        | none =>
            obtain rfl : above = path := by simpa [hparent] using h
            exact .refl _
        | some parent =>
            have hmem : above = path ∨ above ∈ ancestorsFrom fuel parent := by
              simpa [hparent] using h
            rcases hmem with rfl | hmem
            · exact .refl _
            · exact (ih hmem).trans (isAbove_of_parent? hparent)

end FileSystem
end ProjectConsistency
