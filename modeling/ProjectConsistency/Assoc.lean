/-!
# Association lists

Keyed collections are lists of pairs with each key at most once. Two orders occur.

- `Assoc.insert`: keeps the keys in ascending order and replaces an earlier value.
- `Assoc.put`: keeps the order in which the keys first came and replaces an earlier value.
- `Assoc.find?`, `Assoc.erase`, `Assoc.keys`: common to both.
- `Uniques.add`, `Uniques.ofList`: lists without repetition in the order of first occurrence.

What an operation does is said through look-ups: a key that is set is found, and the other keys are
as before.
-/

namespace ProjectConsistency

namespace Assoc

variable {α β : Type}

def find? (key : String) : List (String × α) → Option α
  | [] => none
  | (k, v) :: rest => if k = key then some v else find? key rest

def keys (entries : List (String × α)) : List String :=
  entries.map Prod.fst

def insert (key : String) (value : α) : List (String × α) → List (String × α)
  | [] => [(key, value)]
  | (k, v) :: rest =>
      if key = k then (key, value) :: rest
      else if key < k then (key, value) :: (k, v) :: rest
      else (k, v) :: insert key value rest

/-- The entries in ascending order of their keys; of equal keys the last counts. -/
def ofList (entries : List (String × α)) : List (String × α) :=
  entries.foldl (fun found (k, v) => insert k v found) []

/-- Sets a key, at its place if it is there and at the end if it is new. -/
def put (key : String) (value : α) : List (String × α) → List (String × α)
  | [] => [(key, value)]
  | (k, v) :: rest =>
      if k = key then (k, value) :: rest else (k, v) :: put key value rest

def erase (key : String) (entries : List (String × α)) : List (String × α) :=
  entries.filter fun (k, _) => k ≠ key

def mapValues (f : α → β) (entries : List (String × α)) : List (String × β) :=
  entries.map fun (k, v) => (k, f v)

/-! ## Look-ups after changes -/

/-- A value is found at the keys and nowhere else. -/
theorem isSome_find?_iff (key : String) (entries : List (String × α)) :
    (find? key entries).isSome ↔ key ∈ keys entries := by
  induction entries with
  | nil => simp [find?, keys]
  | cons entry rest ih =>
      obtain ⟨k, v⟩ := entry
      by_cases h : k = key
      · simp [find?, keys, h]
      · have h' : ¬key = k := fun e => h e.symm
        simpa [find?, keys, h, h'] using ih

/-- Setting a key changes what is found there and nothing else. -/
theorem find?_put (key other : String) (value : α) (entries : List (String × α)) :
    find? other (put key value entries) = if key = other then some value else find? other entries := by
  induction entries with
  | nil => simp [find?, put]
  | cons entry rest ih =>
      obtain ⟨k, v⟩ := entry
      by_cases h : k = key
      · subst h
        by_cases ho : k = other <;> simp [find?, put, ho]
      · by_cases ho : k = other
        · subst ho
          simp [find?, put, h, Ne.symm h]
        · simp [find?, put, h, ho, ih]

/-- Of two values that are set at one key the second counts. -/
theorem put_put (key : String) (value other : α) (entries : List (String × α)) :
    put key other (put key value entries) = put key other entries := by
  induction entries with
  | nil => simp [put]
  | cons entry rest ih =>
      obtain ⟨k, v⟩ := entry
      by_cases h : k = key <;> simp [put, h, ih]

theorem find?_insert (key other : String) (value : α) (entries : List (String × α)) :
    find? other (insert key value entries)
      = if key = other then some value else find? other entries := by
  induction entries with
  | nil => simp [find?, insert]
  | cons entry rest ih =>
      obtain ⟨k, v⟩ := entry
      by_cases h : key = k
      · subst h
        by_cases ho : key = other <;> simp [find?, insert, ho]
      · by_cases hlt : key < k
        · simp [find?, insert, h, hlt]
        · by_cases ho : k = other
          · subst ho
            simp [find?, insert, h, hlt]
          · simp [find?, insert, h, hlt, ho, ih]

/-- Without a key, all else is found as before. -/
theorem find?_erase (key other : String) (entries : List (String × α)) :
    find? other (erase key entries) = if key = other then none else find? other entries := by
  induction entries with
  | nil => simp [find?, erase]
  | cons entry rest ih =>
      obtain ⟨k, v⟩ := entry
      have ih' : find? other (List.filter (fun e => decide (e.1 ≠ key)) rest)
          = if key = other then none else find? other rest := ih
      by_cases h : k = key
      · subst h
        by_cases ho : k = other <;> simp_all [find?, erase]
      · by_cases ho : k = other
        · subst ho
          simp [find?, erase, h, Ne.symm h]
        · simp_all [find?, erase]

theorem find?_mapValues (f : α → β) (key : String) (entries : List (String × α)) :
    find? key (mapValues f entries) = (find? key entries).map f := by
  induction entries with
  | nil => rfl
  | cons entry rest ih =>
      obtain ⟨k, v⟩ := entry
      by_cases h : k = key
      · simp [find?, mapValues, h]
      · simpa [find?, mapValues, h] using ih

/-- Setting a key keeps the order of the keys; a new key comes last. -/
theorem keys_put (key : String) (value : α) (entries : List (String × α)) :
    keys (put key value entries)
      = if key ∈ keys entries then keys entries else keys entries ++ [key] := by
  induction entries with
  | nil => simp [keys, put]
  | cons entry rest ih =>
      obtain ⟨k, v⟩ := entry
      by_cases h : k = key
      · simp [keys, put, h]
      · have h' : ¬key = k := fun e => h e.symm
        have ih' : List.map Prod.fst (put key value rest)
            = if key ∈ List.map Prod.fst rest then List.map Prod.fst rest
              else List.map Prod.fst rest ++ [key] := ih
        by_cases hm : key ∈ List.map Prod.fst rest <;> simp [keys, put, h, h', ih', hm]

end Assoc

namespace Uniques

variable {α : Type} [DecidableEq α]

/-- Appends an element that is not there yet. -/
def add (found : List α) (x : α) : List α :=
  if x ∈ found then found else found ++ [x]

/-- The elements in the order of their first occurrence. -/
def ofList (xs : List α) : List α :=
  xs.foldl add []

theorem mem_add {found : List α} {x y : α} : y ∈ add found x ↔ y ∈ found ∨ y = x := by
  by_cases h : x ∈ found
  · constructor
    · intro hy
      exact .inl (by simpa [add, h] using hy)
    · rintro (hy | rfl) <;> simp_all [add]
  · simp [add, h]

/-- Nothing is there twice after an element was added. -/
theorem nodup_add {found : List α} (h : found.Nodup) (x : α) : (add found x).Nodup := by
  by_cases hx : x ∈ found
  · simpa [add, hx] using h
  · have : ∀ a ∈ found, ¬a = x := fun a ha e => hx (e ▸ ha)
    simpa [add, hx, List.nodup_append, h] using this

theorem mem_foldl_add {xs found : List α} {y : α} :
    y ∈ xs.foldl add found ↔ y ∈ found ∨ y ∈ xs := by
  induction xs generalizing found with
  | nil => simp
  | cons x xs ih => simp [ih, mem_add, or_assoc]

theorem nodup_foldl_add {found : List α} (xs : List α) (h : found.Nodup) :
    (xs.foldl add found).Nodup := by
  induction xs generalizing found with
  | nil => exact h
  | cons x xs ih => exact ih (nodup_add h x)

theorem mem_ofList {xs : List α} {y : α} : y ∈ ofList xs ↔ y ∈ xs := by
  simp [ofList, mem_foldl_add]

theorem nodup_ofList (xs : List α) : (ofList xs).Nodup :=
  nodup_foldl_add xs List.nodup_nil

end Uniques

end ProjectConsistency
