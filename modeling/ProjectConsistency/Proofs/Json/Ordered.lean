import ProjectConsistency.Json.Parser
import ProjectConsistency.Proofs.Assoc.Ascending

/-!
# Ordered — the objects of a JSON text have each name once

This file defines:

* `Json.Ordered` — all objects in a value have ascending names;
* `Json.Yields` — a reader of values reads ordered values only.

Of equal names in a text the last counts, and members come to their places one by one.  So what is
read from a text is ordered (`ordered_parse`), by induction on the levels of lists and objects.
-/

namespace ProjectConsistency
namespace Json

/-- All objects in the value have ascending names. -/
inductive Ordered : Json → Prop where
  | null : Ordered .null
  | bool (b : Bool) : Ordered (.bool b)
  | number (n : Number) : Ordered (.number n)
  | string (s : String) : Ordered (.string s)
  | array {items : List Json} (each : ∀ x ∈ items, Ordered x) : Ordered (.array items)
  | object {members : List (String × Json)} (ascending : Assoc.Ascending members)
      (value : ∀ key x, (key, x) ∈ members → Ordered x) : Ordered (.object members)

def Yields (item : List Char → Reading Json) : Prop :=
  ∀ cs x rest, item cs = .ok (x, rest) → x.Ordered

theorem eq_of_word {value x : Json} {letters cs rest : List Char}
    (h : word value letters cs = .ok (x, rest)) : x = value := by
  fun_induction word value letters cs with
  | _ => simp_all

/-- The items of an array are ordered when those before it and those still to come are. -/
theorem ordered_items {item : List Char → Reading Json} (hitem : Yields item) {fuel : Nat}
    {first : Bool} {back : List Json} {cs rest : List Char} {x : Json}
    (hback : ∀ y ∈ back, y.Ordered) (h : itemsFrom item fuel first back cs = .ok (x, rest)) :
    x.Ordered := by
  induction fuel generalizing first back cs with
  | zero => cases h
  | succ fuel ih =>
      have hmore : ∀ {y : Json} {before after : List Char}, item before = .ok (y, after) →
          itemsFrom item fuel false (y :: back) after = .ok (x, rest) → x.Ordered := by
        intro y before after hy hrest
        exact ih (List.forall_mem_cons.2 ⟨hitem _ _ _ hy, hback⟩) hrest
      rw [itemsFrom] at h
      split at h
      · cases h
      · cases h
        refine .array ?_
        intro y hy
        exact hback y (List.mem_reverse.1 hy)
      · split_ifs at h
        · split at h
          · cases h
          · rename_i hy
            exact hmore hy h
        · split at h
          · cases h
          · cases h
          · split at h
            · cases h
            · rename_i hy
              exact hmore hy h

/-- The value of a member is as ordered as its reader yields it. -/
theorem ordered_member {item : List Char → Reading Json} (hitem : Yields item)
    {cs rest : List Char} {name : String} {x : Json}
    (h : member item cs = .ok ((name, x), rest)) : x.Ordered := by
  rw [member] at h
  split at h
  · cases h
  · split at h
    · cases h
    · split at h
      · cases h
      · rename_i hy
        cases h
        exact hitem _ _ _ hy
    · cases h

/-- Members are put into an object one by one, which keeps its keys in order. -/
theorem ordered_members {item : List Char → Reading Json} (hitem : Yields item) {fuel : Nat}
    {first : Bool} {found : List (String × Json)} {cs rest : List Char} {x : Json}
    (hfound : Assoc.Each Ordered found)
    (h : membersFrom item fuel first found cs = .ok (x, rest)) : x.Ordered := by
  induction fuel generalizing first found cs with
  | zero => cases h
  | succ fuel ih =>
      have hmore : ∀ {name : String} {y : Json} {before after : List Char},
          member item before = .ok ((name, y), after) →
          membersFrom item fuel false (Assoc.insert name y found) after = .ok (x, rest) →
            x.Ordered := by
        intro name y before after hy hrest
        exact ih (hfound.insert (ordered_member hitem hy) name) hrest
      rw [membersFrom] at h
      split at h
      · cases h
      · cases h
        exact .object hfound.ascending hfound.value
      · split_ifs at h
        · split at h
          · cases h
          · rename_i hy
            exact hmore hy h
        · split at h
          · cases h
          · split at h
            · cases h
            · rename_i hy
              exact hmore hy h
          · cases h
          · cases h

/-- A value is ordered if the values with one level less are. -/
theorem yields_of_below {fuel levels : Nat}
    (hbelow : ∀ below, levels = below + 1 → Yields (value fuel below)) :
    Yields (value fuel levels) := by
  intro cs x rest h
  have hword : ∀ {w : Json} {letters cs : List Char}, w.Ordered →
      word w letters cs = .ok (x, rest) → x.Ordered := by
    intro w letters cs hw hread
    exact eq_of_word hread ▸ hw
  rw [value.eq_def] at h
  split at h
  · cases h
  · exact hword .null h
  · exact hword (.bool _) h
  · exact hword (.bool _) h
  · split at h
    · cases h
    · cases h
      exact .string _
  · split at h
    · cases h
    · exact ordered_items (hbelow _ rfl) (by simp) h
  · split at h
    · cases h
    · exact ordered_members (hbelow _ rfl) .nil h
  · -- A number, if it can be read.
    simp only at h
    split at h
    · cases h
      exact .number _
    · cases h
    · cases h

/-- Every value the reader yields is ordered, at any fuel and depth. -/
theorem yields_value (fuel levels : Nat) : Yields (value fuel levels) := by
  induction levels with
  | zero => exact yields_of_below (fun below h => nomatch h)
  | succ levels ih =>
      refine yields_of_below ?_
      intro below h
      exact Nat.succ.inj h ▸ ih

/-- The objects of a text have each name once. -/
theorem ordered_parse {text : String} {x : Json} (h : parse text = .ok x) : x.Ordered := by
  rw [parse, parseChars] at h
  split at h
  · cases h
  · rename_i hvalue
    split at h
    · cases h
      exact yields_value _ _ _ _ _ hvalue
    · cases h

end Json
end ProjectConsistency
