import Mathlib.Algebra.Ring.Nat
import Mathlib.Tactic.ByContra
import ProjectConsistency.Report.Size

/-!
# Sizes — which number stands before which unit

This file defines:

* `Report.Nearest` — an integer is nearest to a quotient, and even where two are.

The unit is the largest that the number of bytes reaches (`unitFrom_spec`), and is settled before the
number is rounded.  So the number is at least 1.0, but just below the next unit it is rounded up to
that unit: it is below 1024.0 unless the size lies within a twentieth of its unit from the next one
(`humanSize_normalised_iff`, `humanSize_below_unit`).
-/

namespace ProjectConsistency
namespace Report

/-! ## Rounding -/

/-- The integer is nearest to a quotient, and even if another one is as near. -/
structure Nearest (n d q : Nat) : Prop where
  lower : 2 * (q * d) ≤ 2 * n + d
  upper : 2 * n ≤ 2 * (q * d) + d
  even : 2 * (q * d) = 2 * n + d ∨ 2 * n = 2 * (q * d) + d → q % 2 = 0

/-- The rounded quotient is a nearest whole number. -/
theorem nearest_divNearest (n : Nat) {d : Nat} (hd : 0 < d) : Nearest n d (divNearest n d) := by
  have hn : n / d * d + n % d = n := Nat.div_add_mod' n d
  have hrest : n % d < d := Nat.mod_lt n hd
  have hnext : (n / d + 1) * d = n / d * d + d := Nat.succ_mul _ _
  by_cases hdown : 2 * (n % d) < d ∨ (2 * (n % d) = d ∧ n / d % 2 = 0)
  · have hq : divNearest n d = n / d := by simp [divNearest, hdown]
    rw [hq]
    exact ⟨by omega, by omega, by omega⟩
  · have hq : divNearest n d = n / d + 1 := by simp [divNearest, hdown]
    rw [hq]
    exact ⟨by omega, by omega, by omega⟩

/-- A quotient is rounded to less than an even number just if it is more than a half below it. -/
theorem Nearest.lt_iff {n d q : Nat} (h : Nearest n d q) (hd : 0 < d) {bound : Nat}
    (hbound : bound % 2 = 0) : q < bound ↔ 2 * n + d < 2 * (bound * d) := by
  constructor
  · intro hlt
    have hle : (q + 1) * d ≤ bound * d := Nat.mul_le_mul_right d hlt
    rw [Nat.succ_mul] at hle
    have hupper := h.upper
    -- Halfway below the bound, the even neighbour is the bound itself.
    by_contra hnot
    have htie : 2 * n = 2 * (q * d) + d := by omega
    have heq : (q + 1) * d = bound * d := by
      rw [Nat.succ_mul]
      omega
    have hodd : q + 1 = bound := Nat.eq_of_mul_eq_mul_right hd heq
    have heven := h.even (.inr htie)
    omega
  · intro hlt
    by_contra hge
    have hle : bound * d ≤ q * d := Nat.mul_le_mul_right d (Nat.not_lt.1 hge)
    have hlower := h.lower
    omega

/-- What is at least an integer is rounded to no less. -/
theorem Nearest.le {n d q bound : Nat} (h : Nearest n d q) (hd : 0 < d) (hbound : bound * d ≤ n) :
    bound ≤ q := by
  by_contra hlt
  have hle : (q + 1) * d ≤ bound * d := Nat.mul_le_mul_right d (Nat.not_le.1 hlt)
  rw [Nat.succ_mul] at hle
  have hupper := h.upper
  omega

/-- What is less than an integer is rounded to no more. -/
theorem Nearest.ge {n d q bound : Nat} (h : Nearest n d q) (hd : 0 < d) (hbound : n < bound * d) :
    q ≤ bound := by
  by_contra hlt
  have hle : (bound + 1) * d ≤ q * d := Nat.mul_le_mul_right d (Nat.not_le.1 hlt)
  rw [Nat.succ_mul] at hle
  have hlower := h.lower
  omega

/-- A number of at most 53 bits keeps all of them. -/
theorem roundBits_eq {n : Nat} (h : n < 2 ^ 53) : roundBits n = n := by
  have hlog : n.log2 - 52 = 0 := by
    by_cases hzero : n = 0
    · subst hzero
      rfl
    · have hlt : n.log2 < 53 := (Nat.log2_lt hzero).2 h
      omega
  simp [roundBits, hlog, divNearest, Nat.mod_one]

/-! ## Units -/

/-- The unit is the largest that the bytes reach; each is 1024 times the one before it. -/
theorem unitFrom_spec {bytes size : Nat} {units : List String} (hunits : units ≠ [])
    (hsize : size ≤ bytes) :
    ∃ i, units[i]? = some (unitFrom bytes size units).2 ∧
      (unitFrom bytes size units).1 = size * 1024 ^ i ∧ size * 1024 ^ i ≤ bytes ∧
      (bytes < size * 1024 ^ (i + 1) ∨ i + 1 = units.length) := by
  induction units generalizing size with
  | nil => exact absurd rfl hunits
  | cons unit rest ih =>
      cases rest with
      | nil => exact ⟨0, rfl, by simp [unitFrom], by simpa using hsize, .inr rfl⟩
      | cons next rest =>
          by_cases hbelow : bytes < size * 1024
          · refine ⟨0, ?_, ?_, by simpa using hsize, .inl (by simpa using hbelow)⟩
            · simp [unitFrom, hbelow]
            · simp [unitFrom, hbelow]
          · -- The next unit is reached, and the search goes on from its size.
            obtain ⟨i, hunit, hfound, hreached, hlast⟩ :=
              ih (by simp) (Nat.not_lt.1 hbelow)
            have hshift : ∀ j, size * 1024 * 1024 ^ j = size * 1024 ^ (j + 1) := by
              intro j
              rw [Nat.mul_assoc, ← Nat.pow_succ']
            rw [hshift] at hfound hreached hlast
            have hgoes : unitFrom bytes size (unit :: next :: rest)
                = unitFrom bytes (size * 1024) (next :: rest) := by
              simp [unitFrom, hbelow]
            rw [hgoes]
            exact ⟨i + 1, hunit, hfound, hreached, hlast.imp_right (by simp)⟩

/-! ## Sizes -/

/--
A size of at least 1024 bytes is given in the largest unit that it reaches, as the nearest number of
tenths.  That number is at least 1.0 and at most 1024.0, unless the unit is the last one; and it is
below 1024.0 just if the size is more than a twentieth of the unit away from the next unit.
-/
theorem humanSize_normalised_iff {bytes : Nat} (hlow : 1024 ≤ bytes) (hhigh : bytes < 2 ^ 53) :
    ∃ i n unit, units[i]? = some unit ∧ humanSize bytes = tenths n ++ " " ++ unit ∧
      1024 ^ (i + 1) ≤ bytes ∧ (bytes < 1024 ^ (i + 2) ∨ unit = "TB") ∧
      Nearest (10 * bytes) (1024 ^ (i + 1)) n ∧ 10 ≤ n ∧ (n ≤ 10240 ∨ unit = "TB") ∧
      (n < 10240 ∨ unit = "TB" ↔
        20 * bytes + 1024 ^ (i + 1) < 20 * 1024 ^ (i + 2) ∨ unit = "TB") := by
  obtain ⟨i, hunit, hsize, hreached, hlast⟩ := unitFrom_spec (show units ≠ [] by decide) hlow
  rw [← Nat.pow_succ'] at hsize hreached hlast
  generalize hfound : unitFrom bytes 1024 units = found at hunit hsize
  obtain ⟨size, unit⟩ := found
  obtain rfl : size = 1024 ^ (i + 1) := hsize
  have hpos : 0 < 1024 ^ (i + 1) := Nat.pow_pos (by decide)
  have hnext : 1024 ^ (i + 2) = 1024 * 1024 ^ (i + 1) := Nat.pow_succ'
  have hnearest := nearest_divNearest (10 * bytes) hpos
  have htext : humanSize bytes
      = tenths (divNearest (10 * bytes) (1024 ^ (i + 1))) ++ " " ++ unit := by
    simp [humanSize, Nat.not_lt.2 hlow, roundBits_eq hhigh, hfound]
  have hbelow : bytes < 1024 ^ (i + 2) ∨ unit = "TB" := by
    refine hlast.imp_right fun hi => ?_
    obtain rfl : i = 3 := by simpa [units] using hi
    exact (Option.some.inj hunit).symm
  refine ⟨i, _, unit, hunit, htext, hreached, hbelow, hnearest, hnearest.le hpos (by omega),
    hbelow.imp_left fun hlt => hnearest.ge hpos (by omega), or_congr_left ?_⟩
  rw [hnearest.lt_iff hpos (by decide)]
  omega

/-- A size of which just more than a twentieth of a kilobyte is missing to a megabyte. -/
theorem humanSize_normalised_iff_edge :
    1024 ≤ 1048524 ∧ 1048524 < 2 ^ 53 ∧ humanSize 1048524 = "1023.9 KB" ∧
      ∃ n, humanSize 1048524 = tenths n ++ " " ++ "KB" ∧ 10 ≤ n ∧ n < 10240 := by
  refine ⟨by decide, by decide, by decide +kernel, ?_⟩
  obtain ⟨i, n, unit, hunit, htext, hreached, _, _, hlow, _, hiff⟩ :=
    humanSize_normalised_iff (show 1024 ≤ 1048524 by decide) (by decide)
  -- A megabyte is not reached.
  obtain rfl : i = 0 := by
    by_contra hi
    have hmega : 1024 ^ 2 ≤ 1024 ^ (i + 1) := Nat.pow_le_pow_right (by decide) (by omega)
    omega
  obtain rfl : "KB" = unit := Option.some.inj hunit
  exact ⟨n, htext, hlow, (hiff.2 (.inl (by decide))).resolve_right (by decide)⟩

/-- One byte less than a megabyte is given as a thousand and twenty-four kilobytes. -/
theorem humanSize_below_unit :
    ∃ bytes, 1024 ≤ bytes ∧ bytes < 2 ^ 53 ∧ humanSize bytes = "1024.0 KB" :=
  ⟨1048575, by decide, by decide, by decide +kernel⟩

end Report
end ProjectConsistency
