import Mathlib.Data.List.Lex
import Mathlib.Data.String.Basic
import Mathlib.Tactic.SplitIfs

/-!
# ByteOrder — names in the order of their bytes

Names are compared as texts, code point by code point.  This file defines:

* `Text.bytes` — the bytes in which a text is stored;

and shows that comparing bytes comes to the same (`bytes_lt_iff`): the bytes of a smaller code point
are smaller where they first differ from those of a greater one, whatever follows.
-/

namespace ProjectConsistency
namespace Text

/-- The bytes of a text in UTF-8. -/
def bytes (s : String) : List UInt8 :=
  s.toUTF8.data.toList

theorem bytes_eq_flatMap (s : String) : bytes s = s.toList.flatMap String.utf8EncodeChar := by
  have hencode : s.toByteArray = s.toList.utf8Encode := by
    rw [← String.toByteArray_ofList, String.ofList_toList]
  rw [bytes, String.toUTF8_eq_toByteArray, hencode, List.utf8Encode]
  exact List.toList_data_toByteArray

/-- A smaller character has the smaller bytes, whatever follows. -/
theorem utf8EncodeChar_lt {c d : Char} (h : c < d) (s t : List UInt8) :
    String.utf8EncodeChar c ++ s < String.utf8EncodeChar d ++ t := by
  have hlt : c.val.toNat < d.val.toNat := UInt32.lt_iff_toNat_lt.1 h
  have hd : d.val.toNat < 0x110000 := by
    rcases d.valid with hlow | hhigh
    · exact Nat.lt_trans hlow (by decide)
    · exact hhigh.2
  unfold String.utf8EncodeChar
  generalize c.val.toNat = v at hlt
  generalize d.val.toNat = w at hlt hd
  -- One case for each pair of lengths; the bytes are digits of the code point with marks.
  dsimp only
  split_ifs <;>
    simp only [List.cons_append, List.nil_append, List.cons_lt_cons_iff, UInt8.lt_iff_toNat_lt,
      ← UInt8.toNat_inj, UInt8.toNat_ofNat'] <;>
    simp (disch := omega) only [Nat.mod_eq_of_lt] <;>
    omega

/-- Codes that decide where a smaller letter comes before a greater one keep the order of words. -/
theorem flatMap_lt_flatMap {α β : Type} [LT α] [LT β] {code : α → List β}
    (hne : ∀ a, code a ≠ []) (hcode : ∀ a b, a < b → ∀ s t, code a ++ s < code b ++ t)
    {as bs : List α} (h : as < bs) : as.flatMap code < bs.flatMap code := by
  induction h with
  | nil =>
      rename_i b bs
      cases hb : code b with
      | nil => exact absurd hb (hne b)
      | cons x xs => simp [hb]
  | rel hab => exact hcode _ _ hab _ _
  | cons _ ih => exact List.append_left_lt ih

/-- UTF-8 keeps the order of texts. -/
theorem bytes_lt_of_lt {a b : String} (h : a < b) : bytes a < bytes b := by
  rw [bytes_eq_flatMap, bytes_eq_flatMap]
  exact flatMap_lt_flatMap (fun _ => String.utf8EncodeChar_ne_nil)
    (fun _ _ hlt => utf8EncodeChar_lt hlt) (String.lt_iff.1 h)

/-- Texts are in the order of their bytes. -/
theorem bytes_lt_iff {a b : String} : bytes a < bytes b ↔ a < b := by
  refine ⟨?_, bytes_lt_of_lt⟩
  intro h
  rcases lt_trichotomy a b with hlt | rfl | hgt
  · exact hlt
  · exact absurd h (List.lt_irrefl _)
  · exact absurd h (List.lt_asymm (bytes_lt_of_lt hgt))

end Text
end ProjectConsistency
