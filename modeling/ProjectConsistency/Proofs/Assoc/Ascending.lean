import Mathlib.Data.List.Induction
import Mathlib.Data.String.Basic
import ProjectConsistency.Proofs.FileSystem.WellFormed

/-!
# Ascending — lists in which each key stands once

An association list could hold a key twice, or its keys in any order.  This file defines:

* `Assoc.Ascending` — the keys stand in ascending order, each once;
* `Assoc.Each` — moreover all values have a property.

A list that grows by `Assoc.insert` alone stays ascending (`Ascending.insert`), as a key that is set
comes to its place.
-/

namespace ProjectConsistency

namespace Assoc

variable {α β : Type}

/-- The keys stand in ascending order, each once. -/
def Ascending (entries : List (String × α)) : Prop :=
  (keys entries).Pairwise (· < ·)

/-- The keys stand in ascending order, and all values have a property. -/
structure Each (P : α → Prop) (entries : List (String × α)) : Prop where
  ascending : Ascending entries
  value : ∀ key x, (key, x) ∈ entries → P x

theorem Ascending.nodup {entries : List (String × α)} (h : Ascending entries) :
    (keys entries).Nodup := by
  refine h.imp ?_
  intro a b hlt
  exact ne_of_lt hlt

theorem ascending_nil : Ascending ([] : List (String × α)) :=
  List.Pairwise.nil

theorem ascending_cons {k : String} {v : α} {rest : List (String × α)} :
    Ascending ((k, v) :: rest) ↔ (∀ key x, (key, x) ∈ rest → k < key) ∧ Ascending rest := by
  constructor
  · intro h
    have hcons := List.pairwise_cons.1 h
    exact ⟨fun key x hmem => hcons.1 key (List.mem_map.2 ⟨_, hmem, rfl⟩), hcons.2⟩
  · rintro ⟨hfirst, hrest⟩
    refine List.pairwise_cons.2 ⟨?_, hrest⟩
    intro key hkey
    rcases List.mem_map.1 hkey with ⟨⟨_, x⟩, hmem, rfl⟩
    exact hfirst _ x hmem

/-- What is there after setting a key is the new entry or was there. -/
theorem mem_insert {key other : String} {x y : α} {entries : List (String × α)} :
    (other, y) ∈ insert key x entries → (other = key ∧ y = x) ∨ (other, y) ∈ entries := by
  intro hmem
  induction entries with
  | nil => simpa [insert] using hmem
  | cons entry rest ih =>
      obtain ⟨k, v⟩ := entry
      by_cases heq : key = k
      · subst heq
        simp only [insert, if_true, List.mem_cons, Prod.mk.injEq] at hmem ⊢
        exact hmem.imp_right .inr
      · by_cases hlt : key < k
        · simpa [insert, heq, hlt] using hmem
        · simp only [insert, heq, hlt, if_false, List.mem_cons] at hmem ⊢
          rcases hmem with hfirst | hrest
          · exact .inr (.inl hfirst)
          · exact (ih hrest).imp_right .inr

/-- A key that is set comes to its place. -/
theorem Ascending.insert {entries : List (String × α)} (h : Ascending entries) (key : String)
    (x : α) : Ascending (insert key x entries) := by
  induction entries with
  | nil => simp [Assoc.insert, Ascending, keys]
  | cons entry rest ih =>
      obtain ⟨k, v⟩ := entry
      obtain ⟨hfirst, hrest⟩ := ascending_cons.1 h
      rcases lt_trichotomy key k with hlt | rfl | hgt
      · rw [Assoc.insert, if_neg (ne_of_lt hlt), if_pos hlt]
        refine ascending_cons.2 ⟨?_, h⟩
        intro other y hmem
        rcases List.mem_cons.1 hmem with heq | hmem
        · cases heq
          exact hlt
        · exact lt_trans hlt (hfirst other y hmem)
      · rw [Assoc.insert, if_pos rfl]
        exact ascending_cons.2 ⟨hfirst, hrest⟩
      · rw [Assoc.insert, if_neg (ne_of_gt hgt), if_neg (lt_asymm hgt)]
        refine ascending_cons.2 ⟨?_, ih hrest⟩
        intro other y hmem
        rcases mem_insert hmem with ⟨rfl, _⟩ | hmem
        · exact hgt
        · exact hfirst other y hmem

/-- Sorting by keys puts any entries in ascending order. -/
theorem ascending_ofList (entries : List (String × α)) : Ascending (ofList entries) := by
  have hfold : ∀ found : List (String × α), Ascending found →
      Ascending (entries.foldl (fun found e => Assoc.insert e.1 e.2 found) found) := by
    induction entries with
    | nil => exact fun _ h => h
    | cons entry rest ih => exact fun found h => ih _ (h.insert entry.1 entry.2)
  exact hfold [] List.Pairwise.nil

theorem mem_of_mem_ofList {entries : List (String × α)} {key : String} {x : α}
    (h : (key, x) ∈ ofList entries) : (key, x) ∈ entries := by
  have hfold : ∀ found : List (String × α),
      (key, x) ∈ entries.foldl (fun found e => insert e.1 e.2 found) found →
        (key, x) ∈ found ∨ (key, x) ∈ entries := by
    clear h
    induction entries with
    | nil => exact fun _ h => .inl h
    | cons entry rest ih =>
        intro found h
        rcases ih _ h with hfound | hrest
        · rcases mem_insert hfound with ⟨rfl, rfl⟩ | hfound
          · exact .inr (by simp)
          · exact .inl hfound
        · exact .inr (List.mem_cons_of_mem _ hrest)
  rcases hfold [] h with hnone | hmem
  · cases hnone
  · exact hmem

/-- Of equal keys the last counts. -/
theorem find?_ofList (key : String) (entries : List (String × α)) :
    find? key (ofList entries) = find? key entries.reverse := by
  induction entries using List.reverseRecOn with
  | nil => rfl
  | append_singleton entries entry ih =>
      obtain ⟨k, x⟩ := entry
      have hlast : ofList (entries ++ [(k, x)]) = insert k x (ofList entries) := by
        simp [ofList]
      rw [hlast, find?_insert, ih, List.reverse_concat, find?]

/-- A key after all others is added at the end. -/
theorem insert_of_last {key : String} {x : α} {entries : List (String × α)}
    (h : ∀ other ∈ keys entries, other < key) : insert key x entries = entries ++ [(key, x)] := by
  induction entries with
  | nil => rfl
  | cons entry rest ih =>
      obtain ⟨k, v⟩ := entry
      obtain ⟨hk, hrest⟩ := List.forall_mem_cons.1 h
      rw [insert, if_neg (ne_of_gt hk), if_neg (lt_asymm hk), ih hrest, List.cons_append]

/-- A list that is ascending stays as it is when it is put in order. -/
theorem Ascending.ofList_eq {entries : List (String × α)} (h : Ascending entries) :
    ofList entries = entries := by
  have hfold : ∀ found : List (String × α),
      (∀ low ∈ keys found, ∀ key ∈ keys entries, low < key) →
        entries.foldl (fun found e => Assoc.insert e.1 e.2 found) found = found ++ entries := by
    induction entries with
    | nil => simp
    | cons entry rest ih =>
        obtain ⟨k, v⟩ := entry
        obtain ⟨hfirst, hrest⟩ := List.pairwise_cons.1 h
        intro found hfound
        have hlast : ∀ other ∈ keys found, other < k :=
          fun low hlow => hfound low hlow k (by simp [keys])
        rw [List.foldl_cons, insert_of_last hlast, ih hrest]
        · simp
        · intro low hlow key hkey
          rw [keys, List.map_append, List.mem_append] at hlow
          rcases hlow with hlow | hlow
          · exact hfound low hlow key (List.mem_cons_of_mem _ hkey)
          · obtain rfl := List.mem_singleton.1 hlow
            exact hfirst key hkey
  exact hfold [] (by simp [keys])

/-- Of entries with different keys only one counts if the others give nothing. -/
theorem flatMap_of_nodup {entries : List (String × α)} (hnodup : (keys entries).Nodup)
    (f : String × α → List β) (key : String) (hothers : ∀ e ∈ entries, e.1 ≠ key → f e = []) :
    entries.flatMap f = (find? key entries).elim [] fun x => f (key, x) := by
  induction entries with
  | nil => rfl
  | cons entry rest ih =>
      obtain ⟨name, x⟩ := entry
      obtain ⟨hnew, hrest⟩ := List.nodup_cons.1 hnodup
      obtain ⟨hfirst, hothers⟩ := List.forall_mem_cons.1 hothers
      rw [List.flatMap_cons, ih hrest hothers]
      by_cases hname : name = key
      · subst hname
        have hnone : find? name rest = none := by
          rw [← Option.not_isSome_iff_eq_none, isSome_find?_iff]
          exact hnew
        simp [find?, hnone]
      · simp [find?, hname, hfirst hname]

theorem keys_mapValues (f : α → β) (entries : List (String × α)) :
    keys (mapValues f entries) = keys entries := by
  simp [keys, mapValues, Function.comp_def]

theorem Each.nil {P : α → Prop} : Each P ([] : List (String × α)) :=
  ⟨List.Pairwise.nil, by simp⟩

theorem Each.insert {P : α → Prop} {entries : List (String × α)} (h : Each P entries)
    {x : α} (hx : P x) (key : String) : Each P (insert key x entries) := by
  refine ⟨h.ascending.insert key x, ?_⟩
  intro other y hmem
  rcases mem_insert hmem with ⟨_, rfl⟩ | hmem
  · exact hx
  · exact h.value other y hmem

theorem Each.of_find? {P : α → Prop} {entries : List (String × α)} (h : Each P entries)
    {key : String} {x : α} (hfind : find? key entries = some x) : P x :=
  h.value key x (mem_of_find? hfind)

end Assoc

end ProjectConsistency
