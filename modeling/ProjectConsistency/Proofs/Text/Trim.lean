import Mathlib.Data.List.DropRight
import ProjectConsistency.Text.Blank

/-!
# Trim — texts without what stands at their ends

Characters of the class that is trimmed make no difference at an end (`trimWhere_append_left`,
`trimWhere_append_right`), while one of another class at the end keeps everything before it from
being trimmed there (`trimWhere_concat`).
-/

namespace ProjectConsistency
namespace Text

variable {p : Char → Bool} {cs ds : List Char} {c : Char}

/-- A text of one class holds no character of another class. -/
theorem not_mem_of_all (h : ∀ c ∈ cs, p c = true) (hc : p c = false) : c ∉ cs := by
  intro hmem
  rw [h c hmem] at hc
  cases hc

/-- A text is what is left of it when it is trimmed, and characters of the class. -/
theorem exists_eq_trimEndWhere (p : Char → Bool) (cs : List Char) :
    ∃ tail, cs = trimEndWhere p cs ++ tail ∧ ∀ c ∈ tail, p c = true := by
  refine ⟨(cs.reverse.takeWhile p).reverse, ?_, ?_⟩
  · rw [trimEndWhere, ← List.reverse_append, List.takeWhile_append_dropWhile, List.reverse_reverse]
  · intro c hc
    exact List.mem_takeWhile_imp (List.mem_reverse.1 hc)

theorem trimEndWhere_append (h : ∀ c ∈ ds, p c = true) :
    trimEndWhere p (cs ++ ds) = trimEndWhere p cs := by
  rw [trimEndWhere, List.reverse_append, List.dropWhile_append_of_pos, trimEndWhere]
  intro c hc
  exact h c (List.mem_reverse.1 hc)

theorem trimEndWhere_concat (h : p c = false) : trimEndWhere p (cs ++ [c]) = cs ++ [c] :=
  List.rdropWhile_concat_neg p cs c (by simp [h])

/-- A character of another class at the start is kept. -/
theorem trimEndWhere_cons (h : p c = false) :
    trimEndWhere p (c :: cs) = c :: trimEndWhere p cs := by
  rw [trimEndWhere, List.reverse_cons, List.dropWhile_append, trimEndWhere]
  split
  · rename_i hempty
    rw [List.isEmpty_iff.1 hempty]
    simp [h]
  · simp

theorem trimWhere_cons (h : p c = false) : trimWhere p (c :: cs) = c :: trimEndWhere p cs := by
  rw [trimWhere, List.dropWhile_cons_of_neg (by simp [h]), trimEndWhere_cons h]

/-- What is trimmed may stand in front or not. -/
theorem trimWhere_append_left (h : ∀ c ∈ cs, p c = true) :
    trimWhere p (cs ++ ds) = trimWhere p ds := by
  rw [trimWhere, List.dropWhile_append_of_pos h, trimWhere]

/-- What is trimmed may stand behind or not. -/
theorem trimWhere_append_right (h : ∀ c ∈ ds, p c = true) :
    trimWhere p (cs ++ ds) = trimWhere p cs := by
  rw [trimWhere, List.dropWhile_append]
  split
  · -- Nothing is left of either text.
    rename_i hempty
    rw [List.isEmpty_iff] at hempty
    have hall : ds.dropWhile p = [] := List.dropWhile_eq_nil_iff.2 h
    rw [hall, trimWhere, hempty]
  · rw [trimEndWhere_append h, trimWhere]

/-- Nothing is left of characters of the class. -/
theorem trimWhere_of_all (h : ∀ c ∈ cs, p c = true) : trimWhere p cs = [] := by
  rw [trimWhere, List.dropWhile_eq_nil_iff.2 h]
  rfl

/-- Everything is left of characters of another class. -/
theorem trimWhere_of_none (h : ∀ c ∈ cs, p c = false) : trimWhere p cs = cs := by
  cases cs with
  | nil => rfl
  | cons c cs =>
      obtain ⟨hc, hcs⟩ := List.forall_mem_cons.1 h
      rw [trimWhere_cons hc]
      rcases List.eq_nil_or_concat' cs with rfl | ⟨before, last, rfl⟩
      · rfl
      · rw [trimEndWhere_concat (hcs last (by simp))]

/-- A text is what is left of it when it is trimmed, between characters of the class. -/
theorem exists_eq_trimWhere (p : Char → Bool) (cs : List Char) :
    ∃ lead tail, cs = lead ++ (trimWhere p cs ++ tail) ∧ (∀ c ∈ lead, p c = true) ∧
      ∀ c ∈ tail, p c = true := by
  obtain ⟨tail, heq, htail⟩ := exists_eq_trimEndWhere p (cs.dropWhile p)
  refine ⟨cs.takeWhile p, tail, ?_, fun c hc => List.mem_takeWhile_imp hc, htail⟩
  rw [trimWhere, ← heq, List.takeWhile_append_dropWhile]

/-- A character of another class at the end keeps what stands before it. -/
theorem trimWhere_concat (h : p c = false) : trimWhere p (cs ++ [c]) = cs.dropWhile p ++ [c] := by
  have hdrop : (cs ++ [c]).dropWhile p = cs.dropWhile p ++ [c] := by
    rw [List.dropWhile_append]
    split
    · rename_i hempty
      rw [List.isEmpty_iff.1 hempty]
      simp [h]
    · rfl
  rw [trimWhere, hdrop, trimEndWhere_concat h]

theorem trim_append_left (h : ∀ c ∈ cs, isBlank c = true) : trim (cs ++ ds) = trim ds :=
  trimWhere_append_left h

theorem trim_append_right (h : ∀ c ∈ ds, isBlank c = true) : trim (cs ++ ds) = trim cs :=
  trimWhere_append_right h

/-- Less is left of a shorter text. -/
theorem length_trimWhere_le (h : cs <+: ds) :
    (trimWhere p cs).length ≤ (ds.dropWhile p).length := by
  obtain ⟨more, rfl⟩ := h
  have htrim : (trimWhere p cs).length ≤ (cs.dropWhile p).length :=
    (List.rdropWhile_prefix p (cs.dropWhile p)).length_le
  refine Nat.le_trans htrim ?_
  rw [List.dropWhile_append]
  split
  · rename_i hempty
    rw [List.isEmpty_iff.1 hempty]
    exact Nat.zero_le _
  · simp

end Text
end ProjectConsistency
