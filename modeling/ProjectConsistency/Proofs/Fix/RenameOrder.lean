import ProjectConsistency.Fix.Rename
import ProjectConsistency.Proofs.Path.Ancestors

/-!
# RenameOrder — the order of the renames that issues ask for

Any list of issues has a plan of renames, whether or not it fits the snapshot.  This file defines:

* `Path.Normalised` — a relative path without empty names;
* `Renaming.Request` — a rename and the place of an issue, and `Request.IsOf`, that the issue at this
  place asks for the rename;
* `Request.Precedes` — the order of requests: what is no directory comes first, then the directories,
  the deeper ones before the others, and between the rest the order of the issues decides.

Sorting keeps the old order where the new one does not decide (`pairwise_mergeSort_of_pairwise`), so
the plan is made of the requests in this order (`map_ordered`, `pairwise_ordered`).  A normalised path
has one name more than slashes, so a path below another has more slashes (`Over.count_lt`).  The main
statement, `plan_wellOrdered`, has both: the plan has each request once, in this order, and so the turn
of a path comes after those of all paths below it.
-/

namespace ProjectConsistency

/-! ## Slashes -/

/-- There is one piece more than there are separators. -/
theorem Text.length_splitOn (sep : Char) (cs : List Char) :
    (splitOn sep cs).length = cs.count sep + 1 := by
  induction cs with
  | nil => rfl
  | cons c rest ih =>
      rw [splitOn]
      by_cases hsep : c = sep
      · simp [hsep, ih]
      · -- The character goes to the first piece, so there are no more pieces than before.
        cases hrest : splitOn sep rest with
        | nil => simp [hrest] at ih
        | cons first pieces =>
            rw [hrest] at ih
            simpa [hsep, List.count_cons] using ih

/-- A relative path in which no name is empty; so there is no slash at its end. -/
def Path.Normalised (path : String) : Prop :=
  [] ∉ Path.pieces path

instance (path : String) : Decidable (Path.Normalised path) :=
  inferInstanceAs (Decidable ([] ∉ Path.pieces path))

namespace FileSystem

/-- A path without empty names has one name more than slashes. -/
theorem length_namesOf_of_normalised {path : String} (h : Path.Normalised path) :
    (namesOf path).length = path.toList.count '/' + 1 := by
  have hall : ∀ piece ∈ Text.splitOn '/' path.toList, (!piece.isEmpty) = true := by
    intro piece hpiece
    have hne : piece ≠ [] := by
      rintro rfl
      exact h hpiece
    simpa using hne
  rw [namesOf, List.filter_eq_self.2 hall, List.length_map, Text.length_splitOn]

/-- This fails for other paths: `a/` is over `a/b`, with as many slashes. -/
theorem Over.count_lt {above path : String} (h : Over above path)
    (habove : Path.Normalised above) (hpath : Path.Normalised path) :
    above.toList.count '/' < path.toList.count '/' := by
  have hlength := h.length_lt
  rw [length_namesOf_of_normalised habove, length_namesOf_of_normalised hpath] at hlength
  omega

end FileSystem

/-! ## Sorting -/

/-- What is sorted stands in the new order, and in the old one where the new one does not decide. -/
theorem pairwise_mergeSort_of_pairwise {α : Type} {le : α → α → Bool} {earlier : α → α → Prop}
    (trans : ∀ a b c, le a b = true → le b c = true → le a c = true)
    (total : ∀ a b, (le a b || le b a) = true) {xs : List α} (h : xs.Pairwise earlier) :
    (xs.mergeSort le).Pairwise fun a b => le a b = true ∧ (le b a = true → earlier a b) := by
  induction xs with
  | nil => simp
  | cons x xs ih =>
      obtain ⟨hfirst, hrest⟩ := List.pairwise_cons.1 h
      have hle : ((x :: xs).mergeSort le).Pairwise fun a b => le a b = true :=
        List.pairwise_mergeSort trans total _
      -- The first one goes somewhere into the sorted others, behind smaller ones only.
      obtain ⟨front, back, hsorted, hothers, hfront⟩ := List.mergeSort_cons trans total x xs
      have hback : ∀ y ∈ back, y ∈ xs := by
        intro y hy
        have hmem : y ∈ xs.mergeSort le := by
          rw [hothers]
          exact List.mem_append_right _ hy
        exact List.mem_mergeSort.1 hmem
      have ih := ih hrest
      rw [hothers] at ih
      obtain ⟨ihfront, ihback, ihcross⟩ := List.pairwise_append.1 ih
      rw [hsorted] at hle ⊢
      obtain ⟨_, hbehind, hcross⟩ := List.pairwise_append.1 hle
      refine List.pairwise_append.2 ⟨ihfront, List.pairwise_cons.2 ⟨?_, ihback⟩, ?_⟩
      · intro y hy
        exact ⟨(List.pairwise_cons.1 hbehind).1 y hy, fun _ => hfirst y (hback y hy)⟩
      · intro y hy z hz
        rcases List.mem_cons.1 hz with rfl | hz
        · -- What went before the first one is smaller, so the old order does not matter.
          have hnot : le z y = false := by simpa using hfront y hy
          refine ⟨hcross y hy z List.mem_cons_self, ?_⟩
          simp [hnot]
        · exact ihcross y hy z hz

namespace Renaming

/-! ## Requests -/

theorem ofIssue?_eq_some_iff {issue : Issue} {r : Renaming} :
    ofIssue? issue = some r ↔
      issue.category = .naming ∧ issue.remedy = some (.rename r.source r.target) := by
  unfold ofIssue?
  constructor
  · intro h
    split at h
    · rename_i source target hcategory hremedy
      cases h
      exact ⟨hcategory, hremedy⟩
    · cases h
  · rintro ⟨hcategory, hremedy⟩
    simp [hcategory, hremedy]

/-- A rename, and the place of the issue that asks for it. -/
structure Request where
  place : Nat
  rename : Renaming

namespace Request

/-- The issue at the place is about names and asks for the rename. -/
def IsOf (q : Request) (issues : List Issue) : Prop :=
  ∃ issue, issues[q.place]? = some issue ∧ issue.category = .naming ∧
    issue.remedy = some (.rename q.rename.source q.rename.target)

/-- The turn of a request comes before that of another one. -/
inductive Precedes (s : Snapshot) (a b : Request) : Prop where
  | others (ha : a.rename.concernsDirectory s = false) (hb : b.rename.concernsDirectory s = false)
      (hplace : a.place < b.place)
  | beforeDirectory (ha : a.rename.concernsDirectory s = false)
      (hb : b.rename.concernsDirectory s = true)
  | deeper (ha : a.rename.concernsDirectory s = true) (hb : b.rename.concernsDirectory s = true)
      (hlevel : b.rename.level < a.rename.level)
  | asDeep (ha : a.rename.concernsDirectory s = true) (hb : b.rename.concernsDirectory s = true)
      (hlevel : a.rename.level = b.rename.level) (hplace : a.place < b.place)

theorem Precedes.ne {s : Snapshot} {a b : Request} (h : Precedes s a b) : a ≠ b := by
  rintro rfl
  cases h with
  | others _ _ hplace => exact Nat.lt_irrefl _ hplace
  | beforeDirectory ha hb => simp [ha] at hb
  | deeper _ _ hlevel => exact Nat.lt_irrefl _ hlevel
  | asDeep _ _ _ hplace => exact Nat.lt_irrefl _ hplace

end Request

/-- The requests of the issues, in the order of the issues. -/
def requests (issues : List Issue) : List Request :=
  issues.zipIdx.filterMap fun (issue, place) => (ofIssue? issue).map (Request.mk place)

theorem mem_requests_iff {issues : List Issue} {q : Request} :
    q ∈ requests issues ↔ q.IsOf issues := by
  simp only [requests, List.mem_filterMap, Option.map_eq_some_iff, Prod.exists,
    List.mem_zipIdx_iff_getElem?, Request.IsOf]
  constructor
  · rintro ⟨issue, place, hissue, r, hr, rfl⟩
    exact ⟨issue, hissue, ofIssue?_eq_some_iff.1 hr⟩
  · rintro ⟨issue, hissue, hasked⟩
    exact ⟨issue, q.place, hissue, q.rename, ofIssue?_eq_some_iff.2 hasked, rfl⟩

/-- Without their places, the requests are the renames that the issues ask for. -/
theorem map_requests (issues : List Issue) :
    (requests issues).map Request.rename = issues.filterMap ofIssue? := by
  have hentries : (issues.zipIdx.map Prod.fst).filterMap ofIssue? = issues.filterMap ofIssue? := by
    rw [List.zipIdx_map_fst]
  rw [requests, List.map_filterMap, ← hentries, List.filterMap_map]
  congr 1
  funext entry
  simp [Option.map_map, Function.comp_def]

/-- Requests come in the order of their issues. -/
theorem pairwise_requests (issues : List Issue) :
    (requests issues).Pairwise fun a b => a.place < b.place := by
  have hplaces : issues.zipIdx.Pairwise fun a b => a.2 < b.2 := by
    rw [← List.pairwise_map (f := Prod.snd) (R := (· < ·)), List.zipIdx_map_snd]
    exact List.pairwise_lt_range' _
  refine List.pairwise_filterMap.2 (hplaces.imp ?_)
  intro a b hlt q hq q' hq'
  obtain ⟨r, _, rfl⟩ := Option.map_eq_some_iff.1 hq
  obtain ⟨r', _, rfl⟩ := Option.map_eq_some_iff.1 hq'
  exact hlt

/-! ## The plan -/

theorem inOrder_iff {a b : Renaming} : inOrder a b = true ↔ b.level ≤ a.level := by
  rw [inOrder, decide_eq_true_eq]

/-- The requests of the issues, in the order of the plan. -/
def ordered (s : Snapshot) (issues : List Issue) : List Request :=
  (requests issues).filter (fun q => !q.rename.concernsDirectory s)
    ++ ((requests issues).filter fun q => q.rename.concernsDirectory s).mergeSort
      fun a b => inOrder a.rename b.rename

/-- Without their places, the ordered requests are the plan. -/
theorem map_ordered (s : Snapshot) (issues : List Issue) :
    (ordered s issues).map Request.rename = plan s issues := by
  have hfilter : ∀ p : Renaming → Bool,
      ((requests issues).filter fun q => p q.rename).map Request.rename
        = (issues.filterMap ofIssue?).filter p := by
    intro p
    rw [← map_requests, List.filter_map]
    rfl
  rw [ordered, plan, List.map_append, List.map_mergeSort (s := inOrder) fun _ _ _ _ => rfl]
  rw [hfilter fun r => !r.concernsDirectory s, hfilter fun r => r.concernsDirectory s]

theorem ordered_perm (s : Snapshot) (issues : List Issue) :
    (ordered s issues).Perm (requests issues) := by
  have hsorted := List.mergeSort_perm
    ((requests issues).filter fun q => q.rename.concernsDirectory s)
    fun a b => inOrder a.rename b.rename
  have hsplit := List.filter_append_perm (fun q : Request => q.rename.concernsDirectory s)
    (requests issues)
  exact ((List.Perm.refl _).append hsorted).trans (List.perm_append_comm.trans hsplit)

/-- The plan holds the renames that are asked for, each as often as it is asked for. -/
theorem plan_perm (s : Snapshot) (issues : List Issue) :
    (plan s issues).Perm (issues.filterMap ofIssue?) := by
  rw [← map_ordered, ← map_requests]
  exact (ordered_perm s issues).map _

/-- Requests that are sorted by level stay in the order of the issues where the level is the same. -/
theorem pairwise_mergeSort_level {asked : List Request}
    (h : asked.Pairwise fun a b => a.place < b.place) :
    (asked.mergeSort fun a b => inOrder a.rename b.rename).Pairwise fun a b =>
      b.rename.level < a.rename.level ∨ a.rename.level = b.rename.level ∧ a.place < b.place := by
  refine (pairwise_mergeSort_of_pairwise ?_ ?_ h).imp ?_
  · intro a b c hab hbc
    exact inOrder_iff.2 (Nat.le_trans (inOrder_iff.1 hbc) (inOrder_iff.1 hab))
  · intro a b
    rw [Bool.or_eq_true, inOrder_iff, inOrder_iff]
    exact Nat.le_total _ _
  · rintro a b ⟨hle, hplace⟩
    rcases Nat.lt_or_eq_of_le (inOrder_iff.1 hle) with hdeeper | hlevel
    · exact .inl hdeeper
    · exact .inr ⟨hlevel.symm, hplace (inOrder_iff.2 (Nat.le_of_eq hlevel.symm))⟩

/-- The turns of requests come in their order. -/
theorem pairwise_ordered (s : Snapshot) (issues : List Issue) :
    (ordered s issues).Pairwise (Request.Precedes s) := by
  have hplaces := pairwise_requests issues
  have other : ∀ q ∈ (requests issues).filter fun q => !q.rename.concernsDirectory s,
      q.rename.concernsDirectory s = false := by
    intro q hq
    simpa using (List.mem_filter.1 hq).2
  have directory : ∀ q ∈ ((requests issues).filter fun q => q.rename.concernsDirectory s).mergeSort
      fun a b => inOrder a.rename b.rename, q.rename.concernsDirectory s = true := by
    intro q hq
    exact (List.mem_filter.1 (List.mem_mergeSort.1 hq)).2
  refine List.pairwise_append.2 ⟨?_, ?_, ?_⟩
  · refine (hplaces.filter _).imp_of_mem ?_
    intro a b ha hb hplace
    exact .others (other a ha) (other b hb) hplace
  · refine (pairwise_mergeSort_level (hplaces.filter _)).imp_of_mem ?_
    rintro a b ha hb (hdeeper | ⟨hlevel, hplace⟩)
    · exact .deeper (directory a ha) (directory b hb) hdeeper
    · exact .asDeep (directory a ha) (directory b hb) hlevel hplace
  · intro a ha b hb
    exact .beforeDirectory (other a ha) (directory b hb)

/-- A rename that comes after that of a directory is no deeper. -/
theorem Request.Precedes.level_le {s : Snapshot} {a b : Request} (h : Precedes s a b)
    (hdirectory : a.rename.concernsDirectory s = true) : b.rename.level ≤ a.rename.level := by
  cases h with
  | others ha _ _ => simp [ha] at hdirectory
  | beforeDirectory ha _ => simp [ha] at hdirectory
  | deeper _ _ hlevel => exact Nat.le_of_lt hlevel
  | asDeep _ _ hlevel _ => exact Nat.le_of_eq hlevel.symm

/-- Files come before directories, and deeper directories before the others. -/
theorem pairwise_level (s : Snapshot) (issues : List Issue) :
    (plan s issues).Pairwise fun r r' => r.concernsDirectory s = true → r'.level ≤ r.level := by
  rw [← map_ordered, List.pairwise_map]
  exact (pairwise_ordered s issues).imp fun h => h.level_le

/-- What is renamed first does not lie over what is renamed later. -/
theorem pairwise_not_over {s : Snapshot} {issues : List Issue}
    (hnormalised : ∀ r ∈ plan s issues, Path.Normalised r.source)
    (hother : ∀ r ∈ plan s issues, r.concernsDirectory s = false →
      ∀ r' ∈ plan s issues, ¬ FileSystem.Over r.source r'.source) :
    (plan s issues).Pairwise fun r r' => ¬ FileSystem.Over r.source r'.source := by
  refine (pairwise_level s issues).imp_of_mem ?_
  intro r r' hr hr' hlevel hover
  cases hdirectory : r.concernsDirectory s with
  | false => exact hother r hr hdirectory r' hr' hover
  | true =>
      -- The later path would have more slashes.
      have hslashes : r.level < r'.level := hover.count_lt (hnormalised r hr) (hnormalised r' hr')
      exact absurd hslashes (Nat.not_lt.2 (hlevel hdirectory))

/--
The plan has each request of an issue about names once and nothing else.  What is no directory of the
snapshot comes first, in the order of the issues; then come the directories, by the number of slashes
in their paths, with the highest first, and in the order of the issues where it is the same.

So if all paths are normalised, and none that is no directory of the snapshot lies over another, each
path has its turn after all paths that lie below it.
-/
theorem plan_wellOrdered (s : Snapshot) (issues : List Issue) :
    (∃ asked : List Request,
      asked.map Request.rename = plan s issues ∧ asked.Nodup ∧
      (∀ q, q ∈ asked ↔ q.IsOf issues) ∧ asked.Pairwise (Request.Precedes s)) ∧
    ((∀ r ∈ plan s issues, Path.Normalised r.source) →
      (∀ r ∈ plan s issues, s.hasDirectory r.source = false →
        ∀ r' ∈ plan s issues, ¬ FileSystem.Over r.source r'.source) →
      ∀ (i j : Nat) (r r' : Renaming), (plan s issues)[i]? = some r → (plan s issues)[j]? = some r' →
        FileSystem.Over r'.source r.source → i < j) := by
  refine ⟨⟨ordered s issues, map_ordered s issues, ?_, ?_, pairwise_ordered s issues⟩, ?_⟩
  · exact (pairwise_ordered s issues).imp fun h => h.ne
  · intro q
    rw [(ordered_perm s issues).mem_iff, mem_requests_iff]
  · intro hnormalised hother i j r r' hi hj hover
    obtain ⟨hiBound, rfl⟩ := List.getElem?_eq_some_iff.1 hi
    obtain ⟨hjBound, rfl⟩ := List.getElem?_eq_some_iff.1 hj
    have hpairwise := List.pairwise_iff_getElem.1 (pairwise_not_over hnormalised hother)
    rcases Nat.lt_trichotomy i j with hlt | rfl | hlt
    · exact hlt
    · -- Nothing lies below itself.
      exact absurd hover.length_lt (Nat.lt_irrefl _)
    · exact absurd hover (hpairwise j i hjBound hiBound hlt)

def nestedSnapshot : Snapshot where
  root := "/work/app"
  name := "app"
  directories := ["Docs", "Src", "Src/My_Parts"]
  files := ["Src/My_Parts/Main_View.ts"]

/-- Issues that ask for the renames of all entries, from the top down, and one that asks for none. -/
def nestedIssues : List Issue :=
  [⟨.naming, .warning, "misnamed", none, none, some (.rename "Docs" "docs")⟩,
   ⟨.naming, .warning, "misnamed", none, none, some (.rename "Src" "src")⟩,
   ⟨.structural, .info, "too deep", none, none, none⟩,
   ⟨.naming, .warning, "misnamed", none, none, some (.rename "Src/My_Parts" "Src/my-parts")⟩,
   ⟨.naming, .warning, "misnamed", none, none,
     some (.rename "Src/My_Parts/Main_View.ts" "Src/My_Parts/main-view.ts")⟩]

theorem plan_nestedIssues :
    plan nestedSnapshot nestedIssues
      = [⟨"Src/My_Parts/Main_View.ts", "Src/My_Parts/main-view.ts"⟩,
         ⟨"Src/My_Parts", "Src/my-parts"⟩, ⟨"Docs", "docs"⟩, ⟨"Src", "src"⟩] := by
  have hother : (nestedIssues.filterMap ofIssue?).filter
      (fun r => !r.concernsDirectory nestedSnapshot)
        = [⟨"Src/My_Parts/Main_View.ts", "Src/My_Parts/main-view.ts"⟩] := by decide +kernel
  have hdirectory : (nestedIssues.filterMap ofIssue?).filter
      (fun r => r.concernsDirectory nestedSnapshot)
        = [⟨"Docs", "docs"⟩, ⟨"Src", "src"⟩, ⟨"Src/My_Parts", "Src/my-parts"⟩] := by decide +kernel
  simp [plan, hother, hdirectory, List.mergeSort, List.MergeSort.Internal.splitInTwo, inOrder, level]

theorem plan_wellOrdered_nested :
    (∀ r ∈ plan nestedSnapshot nestedIssues, Path.Normalised r.source) ∧
      (∀ r ∈ plan nestedSnapshot nestedIssues, nestedSnapshot.hasDirectory r.source = false →
        ∀ r' ∈ plan nestedSnapshot nestedIssues, ¬ FileSystem.Over r.source r'.source) ∧
      FileSystem.Over "Src" "Src/My_Parts" ∧
      ∀ (i j : Nat) (r r' : Renaming), (plan nestedSnapshot nestedIssues)[i]? = some r →
        (plan nestedSnapshot nestedIssues)[j]? = some r' →
          FileSystem.Over r'.source r.source → i < j := by
  have hnormalised : ∀ r ∈ plan nestedSnapshot nestedIssues, Path.Normalised r.source := by
    rw [plan_nestedIssues]
    decide +kernel
  have hother : ∀ r ∈ plan nestedSnapshot nestedIssues,
      nestedSnapshot.hasDirectory r.source = false →
        ∀ r' ∈ plan nestedSnapshot nestedIssues, ¬ FileSystem.Over r.source r'.source := by
    -- No path has more names than that of the file.
    have hlength : ∀ r ∈ plan nestedSnapshot nestedIssues,
        nestedSnapshot.hasDirectory r.source = false →
          ∀ r' ∈ plan nestedSnapshot nestedIssues,
            (FileSystem.namesOf r'.source).length ≤ (FileSystem.namesOf r.source).length := by
      rw [plan_nestedIssues]
      decide +kernel
    intro r hr hfile r' hr' hover
    exact absurd hover.length_lt (Nat.not_lt.2 (hlength r hr hfile r' hr'))
  have hover : FileSystem.Over "Src" "Src/My_Parts" :=
    ⟨⟨"My_Parts", [], by decide +kernel⟩, by decide +kernel⟩
  exact ⟨hnormalised, hother, hover,
    (plan_wellOrdered nestedSnapshot nestedIssues).2 hnormalised hother⟩

end Renaming
end ProjectConsistency
