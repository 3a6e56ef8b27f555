import Mathlib.Data.List.Induction
import Mathlib.Data.String.Basic
import Mathlib.Order.Defs.Unbundled
import ProjectConsistency.Project.Snapshot

/-!
# Groups — the files of a snapshot by type and by extension

A snapshot keeps its files in groups, to which they are added one by one.  This file defines:

* `groupsOf` — the groups of files that are gone through in order;
* `Grouped` — groups that hold all files with a key, each file under its own key.

Adding a file keeps the groups in ascending order of their keys (`pairwise_addToGroup`), and changes
the group of its key only, at its end (`mem_addToGroup`).  So each step keeps that the groups hold the
files gone through (`Growing.add`), and all of them hold all files in the end (`grouped_groupsOf`).
-/

namespace ProjectConsistency

/-! ## The order of types -/

theorem FileType.mem_all (type : FileType) : type ∈ FileType.all := by
  cases type <;> decide

instance : IsStrictTotalOrder FileType (· < ·) where
  irrefl type := Nat.lt_irrefl (FileType.all.idxOf type)
  trans _ _ _ := Nat.lt_trans
  trichotomous a b hab hba := by
    have hsame : FileType.all.idxOf a = FileType.all.idxOf b :=
      Nat.le_antisymm (Nat.not_lt.1 hba) (Nat.not_lt.1 hab)
    exact (List.idxOf_inj (FileType.mem_all a)).1 hsame

variable {κ : Type} [LT κ] [DecidableLT κ] [DecidableEq κ]

/-! ## Adding a file -/

/-- The groups of files that are gone through in order. -/
def groupsOf (key : String → Option κ) (files : List String) : List (κ × List String) :=
  files.foldl (fun groups file =>
    match key file with
    | some k => addToGroup k file groups
    | none => groups) []

/-- Groups under different keys, which hold the files with their keys in order; none is empty. -/
structure Grouped {κ : Type} [DecidableEq κ] (key : String → Option κ) (files : List String)
    (groups : List (κ × List String)) : Prop where
  nodup : (groups.map Prod.fst).Nodup
  group : ∀ k paths, (k, paths) ∈ groups →
    paths ≠ [] ∧ paths = files.filter fun file => key file = some k
  covered : ∀ file ∈ files, ∀ k, key file = some k → ∃ paths, (k, paths) ∈ groups ∧ file ∈ paths

section

variable {groups : List (κ × List String)} {own k : κ} {path : String}

/-- Recording a path opens at most the group of its own key. -/
theorem key_of_mem_addToGroup {paths : List String} (h : (k, paths) ∈ addToGroup own path groups) :
    k = own ∨ k ∈ groups.map Prod.fst := by
  induction groups with
  | nil =>
      obtain ⟨rfl, _⟩ : k = own ∧ paths = [path] := by simpa [addToGroup] using h
      exact .inl rfl
  | cons group rest ih =>
      obtain ⟨first, found⟩ := group
      rw [addToGroup] at h
      split_ifs at h with hsame hless
      · obtain ⟨rfl, _⟩ | hrest := by simpa using h
        · exact .inl hsame
        · exact .inr (List.mem_cons_of_mem _ (List.mem_map.2 ⟨_, hrest, rfl⟩))
      · rcases List.mem_cons.1 h with heq | hrest
        · cases heq
          exact .inl rfl
        · exact .inr (List.mem_map.2 ⟨_, hrest, rfl⟩)
      · rcases List.mem_cons.1 h with heq | hrest
        · cases heq
          exact .inr List.mem_cons_self
        · exact (ih hrest).imp_right (List.mem_cons_of_mem _)

variable [IsStrictTotalOrder κ (· < ·)]

/-- Groups stay in ascending order of their keys. -/
theorem pairwise_addToGroup (h : groups.Pairwise fun a b => a.1 < b.1) :
    (addToGroup own path groups).Pairwise fun a b => a.1 < b.1 := by
  induction groups with
  | nil => exact List.pairwise_singleton _ _
  | cons group rest ih =>
      obtain ⟨first, found⟩ := group
      obtain ⟨hfirst, hrest⟩ := List.pairwise_cons.1 h
      rw [addToGroup]
      split_ifs with hsame hless
      · exact List.pairwise_cons.2 ⟨hfirst, hrest⟩
      · refine List.pairwise_cons.2 ⟨?_, h⟩
        intro other hother
        rcases List.mem_cons.1 hother with rfl | hother
        · exact hless
        · exact IsTrans.trans _ _ _ hless (hfirst other hother)
      · refine List.pairwise_cons.2 ⟨?_, ih hrest⟩
        intro other hother
        rcases key_of_mem_addToGroup hother with heq | hkey
        · rcases trichotomous_of (· < ·) first own with hlt | heq' | hgt
          · exact heq ▸ hlt
          · exact absurd heq' hsame
          · exact absurd hgt hless
        · rcases List.mem_map.1 hkey with ⟨entry, hentry, hkey⟩
          exact hkey ▸ hfirst entry hentry

/-- A file comes to the end of the group of its key, and leaves the other groups as they are. -/
theorem mem_addToGroup (h : groups.Pairwise fun a b => a.1 < b.1) {paths : List String} :
    (k, paths) ∈ addToGroup own path groups ↔
      (k ≠ own ∧ (k, paths) ∈ groups) ∨
        (k = own ∧ ∃ before, paths = before ++ [path] ∧
          ((own, before) ∈ groups ∨ (before = [] ∧ own ∉ groups.map Prod.fst))) := by
  induction groups with
  | nil => simp [addToGroup]
  | cons group rest ih =>
      obtain ⟨first, found⟩ := group
      obtain ⟨hfirst, hrest⟩ := List.pairwise_cons.1 h
      have hbehind : first ∉ rest.map Prod.fst := by
        intro hmem
        rcases List.mem_map.1 hmem with ⟨entry, hentry, heq⟩
        exact irrefl_of (· < ·) first (heq ▸ hfirst entry hentry)
      rw [addToGroup]
      split_ifs with hsame hless
      · -- The first group is the one, and no other has its key.
        subst hsame
        have hother : ∀ before, (first, before) ∉ rest :=
          fun before hmem => hbehind (List.mem_map.2 ⟨_, hmem, rfl⟩)
        by_cases hk : k = first
        · subst hk
          simp [hother]
        · simp [hk]
      · -- The key comes before all keys, so no group has it.
        have hnone : own ∉ ((first, found) :: rest).map Prod.fst := by
          intro hmem
          rcases List.mem_map.1 hmem with ⟨entry, hentry, heq⟩
          rcases List.mem_cons.1 hentry with rfl | hentry
          · exact hsame heq
          · have hgreater := IsTrans.trans _ _ _ hless (hfirst entry hentry)
            exact irrefl_of (· < ·) own (heq ▸ hgreater)
        have hother : ∀ before, (own, before) ∉ (first, found) :: rest :=
          fun before hmem => hnone (List.mem_map.2 ⟨_, hmem, rfl⟩)
        by_cases hk : k = own
        · subst hk
          refine ⟨fun hmem => ?_, ?_⟩
          · rcases List.mem_cons.1 hmem with heq | hmem
            · exact .inr ⟨rfl, [], by simpa using heq, .inr ⟨rfl, hnone⟩⟩
            · exact absurd hmem (hother paths)
          · rintro (⟨hne, _⟩ | ⟨_, before, rfl, hmem | ⟨rfl, _⟩⟩)
            · exact absurd rfl hne
            · exact absurd hmem (hother before)
            · simp
        · simp [hk]
      · -- The group is the first one, or one of the others.
        rw [List.mem_cons, ih hrest]
        by_cases hk : k = own
        · subst hk
          simp [Ne.symm hsame]
        · simp [hk]

/-! ## All files -/

/-- The groups hold the files that have been gone through. -/
structure Growing (key : String → Option κ) (seen : List String) (groups : List (κ × List String)) :
    Prop where
  ascending : groups.Pairwise fun a b => a.1 < b.1
  group : ∀ k paths, (k, paths) ∈ groups →
    paths ≠ [] ∧ paths = seen.filter fun file => key file = some k
  covered : ∀ file ∈ seen, ∀ k, key file = some k → k ∈ groups.map Prod.fst

/-- One more file is held as well. -/
theorem Growing.add {key : String → Option κ} {seen : List String} (h : Growing key seen groups)
    {file : String} (hkey : key file = some own) :
    Growing key (seen ++ [file]) (addToGroup own file groups) := by
  have hfilter : ∀ k, (seen ++ [file]).filter (fun other => key other = some k)
      = (seen.filter fun other => key other = some k) ++ if own = k then [file] else [] := by
    intro k
    rw [List.filter_append]
    by_cases hk : own = k <;> simp [hkey, hk]
  have hnone : own ∉ groups.map Prod.fst → (seen.filter fun other => key other = some own) = [] := by
    intro hnot
    rw [List.filter_eq_nil_iff]
    intro other hother heq
    exact hnot (h.covered other hother own (of_decide_eq_true heq))
  refine ⟨pairwise_addToGroup h.ascending, ?_, ?_⟩
  · intro k paths hmem
    rw [hfilter]
    rcases (mem_addToGroup h.ascending).1 hmem with ⟨hne, hmem⟩ | ⟨rfl, before, rfl, hbefore⟩
    · simpa [Ne.symm hne] using h.group k paths hmem
    · refine ⟨by simp, ?_⟩
      rcases hbefore with hmem | ⟨rfl, hnot⟩
      · simp [← (h.group _ before hmem).2]
      · simp [hnone hnot]
  · intro other hother k hk
    -- The key of a file has a group now, and it had one before if the file was there.
    have hgroup : ∃ paths, (k, paths) ∈ addToGroup own file groups := by
      by_cases hown : k = own
      · subst hown
        by_cases hthere : k ∈ groups.map Prod.fst
        · rcases List.mem_map.1 hthere with ⟨⟨_, before⟩, hmem, rfl⟩
          exact ⟨_, (mem_addToGroup h.ascending).2 (.inr ⟨rfl, before, rfl, .inl hmem⟩)⟩
        · exact ⟨_, (mem_addToGroup h.ascending).2 (.inr ⟨rfl, [], rfl, .inr ⟨rfl, hthere⟩⟩)⟩
      · rcases List.mem_append.1 hother with hseen | hnew
        · rcases List.mem_map.1 (h.covered other hseen k hk) with ⟨⟨_, paths⟩, hmem, rfl⟩
          exact ⟨paths, (mem_addToGroup h.ascending).2 (.inl ⟨hown, hmem⟩)⟩
        · obtain rfl : other = file := by simpa using hnew
          exact absurd (Option.some.inj (hk.symm.trans hkey)) hown
    rcases hgroup with ⟨paths, hmem⟩
    exact List.mem_map.2 ⟨_, hmem, rfl⟩

omit [DecidableLT κ] [IsStrictTotalOrder κ (· < ·)] in
/-- A file without a key is in no group. -/
theorem Growing.skip {key : String → Option κ} {seen : List String} (h : Growing key seen groups)
    {file : String} (hkey : key file = none) : Growing key (seen ++ [file]) groups := by
  refine ⟨h.ascending, ?_, ?_⟩
  · intro k paths hmem
    simpa [List.filter_append, hkey] using h.group k paths hmem
  · intro other hother k hk
    rcases List.mem_append.1 hother with hseen | hnew
    · exact h.covered other hseen k hk
    · obtain rfl : other = file := by simpa using hnew
      cases hkey.symm.trans hk

/-- The groups of a list of files grow with it, one file at a time. -/
theorem growing_groupsOf (key : String → Option κ) (files : List String) :
    Growing key files (groupsOf key files) := by
  induction files using List.reverseRecOn with
  | nil => exact ⟨List.Pairwise.nil, by simp [groupsOf], by simp⟩
  | append_singleton seen file ih =>
      rw [groupsOf, List.foldl_concat, ← groupsOf]
      cases hkey : key file with
      | none => exact ih.skip hkey
      | some own => exact ih.add hkey

/-- The groups hold all files that have a key, each under its own key and in order. -/
theorem grouped_groupsOf (key : String → Option κ) (files : List String) :
    Grouped key files (groupsOf key files) := by
  have h := growing_groupsOf key files
  refine ⟨?_, h.group, ?_⟩
  · refine List.pairwise_map.2 (h.ascending.imp ?_)
    intro a b hlt heq
    exact irrefl_of (· < ·) b.1 (heq ▸ hlt)
  · intro file hfile k hk
    rcases List.mem_map.1 (h.covered file hfile k hk) with ⟨⟨_, paths⟩, hmem, rfl⟩
    refine ⟨paths, hmem, ?_⟩
    rw [(h.group _ paths hmem).2]
    simpa using ⟨hfile, hk⟩

end
end ProjectConsistency
