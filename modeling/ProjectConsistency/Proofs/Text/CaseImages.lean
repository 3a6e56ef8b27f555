import Mathlib.Algebra.Ring.Nat
import Mathlib.Data.List.Basic
import ProjectConsistency.Proofs.Naming.Conversion

/-!
# Case images — what the case mappings make of letters and numbers

The image of a letter or a number begins with a letter or a number, and the mapping does not change
it again.  Both are facts about the tables, which hold some three thousand pairs of code points; they
are checked on sets of code points that are written as the bits of one number each.  This file
defines:

* `codeBits`, `RunTable.bits` — the set of a list of code points and of a table of runs;
* `members` — the pairs of a table of mapping runs;
* `Low`, `High` — the characters that lowering and raising leave as they are.

For one character the results are `lowerChar_alphanumeric`, `low_of_mem_lowerChar`,
`upperChar_alphanumeric` and `high_of_mem_upperChar`, and for texts `length_filter_lowerAfter`,
`low_of_mem_lowerAfter`, `length_le_filter_upper` and `high_of_mem_upper`.
-/

namespace ProjectConsistency
namespace Text

/-! ## Sets of code points -/

/-- The code points of a list, as the bits of a number. -/
def codeBits (codes : List Nat) : Nat :=
  codes.foldr (fun n bits => 1 <<< n ||| bits) 0

def runCodes (start step count : Nat) : List Nat :=
  (List.range count).map fun k => start + k * step

/-- The bits of a list of codes are the codes. -/
theorem testBit_codeBits {codes : List Nat} {n : Nat} :
    (codeBits codes).testBit n = true ↔ n ∈ codes := by
  induction codes with
  | nil => simp [codeBits]
  | cons code rest ih =>
      have hbits : codeBits (code :: rest) = 1 <<< code ||| codeBits rest := rfl
      rw [hbits, Nat.testBit_or, Bool.or_eq_true, ih, Nat.one_shiftLeft, Nat.testBit_two_pow]
      simp [eq_comm]

/-- Two sets without a common bit have no common member. -/
theorem not_testBit_of_and_eq_zero {a b n : Nat} (h : a &&& b = 0) (ha : a.testBit n = true) :
    b.testBit n = false := by
  have hand : (a &&& b).testBit n = false := by rw [h, Nat.zero_testBit]
  simpa [Nat.testBit_and, ha] using hand

/-- A set that keeps all its bits is a part of the other. -/
theorem testBit_of_and_eq_self {a b n : Nat} (h : a &&& b = a) (ha : a.testBit n = true) :
    b.testBit n = true := by
  rw [← h, Nat.testBit_and, Bool.and_eq_true] at ha
  exact ha.2

/-- The code points of a table of runs, as the bits of a number. -/
def RunTable.bits : RunTable → Nat
  | [] => 0
  | (first, last, step) :: rest =>
      let run :=
        if step = 1 then 2 ^ (last + 1 - first) - 1
        else codeBits (runCodes 0 step ((last + step - first) / step))
      -- The first run past a code point ends the search, so lower bits of the rest are dropped.
      (run ||| RunTable.bits rest >>> first) <<< first

theorem contains_of_testBit {table : RunTable} {n : Nat} (h : table.bits.testBit n = true) :
    table.contains n = true := by
  induction table with
  | nil => simp [RunTable.bits] at h
  | cons run rest ih =>
      obtain ⟨first, last, step⟩ := run
      simp only [RunTable.bits, Nat.testBit_shiftLeft, Nat.testBit_or, Nat.testBit_shiftRight,
        Bool.and_eq_true, Bool.or_eq_true, decide_eq_true_eq] at h
      obtain ⟨hfirst, hrun | hrest⟩ := h
      · -- The bit is one of the run itself, so its distance from the first is a number of steps.
        have hin : n ≤ last ∧ (n - first) % step = 0 := by
          by_cases hstep : step = 1
          · rw [if_pos hstep, Nat.testBit_two_pow_sub_one, decide_eq_true_eq] at hrun
            exact ⟨by omega, by simp [hstep, Nat.mod_one]⟩
          · rw [if_neg hstep, testBit_codeBits] at hrun
            rcases List.mem_map.1 hrun with ⟨k, hk, hcode⟩
            have hcount : k < (last + step - first) / step := List.mem_range.1 hk
            have hpos : 0 < step := Nat.pos_of_ne_zero fun hzero => by simp [hzero] at hcount
            have hbound : (k + 1) * step ≤ last + step - first :=
              (Nat.le_div_iff_mul_le hpos).1 hcount
            have hcode' : n - first = k * step := by omega
            refine ⟨by rw [Nat.succ_mul] at hbound; omega, ?_⟩
            rw [hcode', Nat.mul_mod_left]
        simp [RunTable.contains, Nat.not_lt.2 hfirst, hin]
      · rw [Nat.add_sub_cancel' hfirst] at hrest
        simp [RunTable.contains, Nat.not_lt.2 hfirst, ih hrest]

/-! ## Pairs of the tables -/

/-- The members of the runs of a table, each with its image. -/
def members (table : List (Nat × Nat × Nat × Nat)) : List (Nat × Nat) :=
  table.flatMap fun (first, last, step, image) =>
    (List.range ((last - first) / step + 1)).map fun k => (first + k * step, image + k * step)

theorem mem_members_of_mapCode {table : List (Nat × Nat × Nat × Nat)} {n m : Nat}
    (h : mapCode table n = some m) : (n, m) ∈ members table := by
  induction table with
  | nil => simp [mapCode] at h
  | cons run rest ih =>
      obtain ⟨first, last, step, image⟩ := run
      have hsplit : members ((first, last, step, image) :: rest) =
          members [(first, last, step, image)] ++ members rest := by simp [members]
      by_cases hfirst : n < first
      · simp [mapCode, hfirst] at h
      · by_cases hin : n ≤ last && (n - first) % step == 0
        · have hm : image + (n - first) = m := by simpa [mapCode, hfirst, hin] using h
          simp only [Bool.and_eq_true, decide_eq_true_eq, beq_iff_eq] at hin
          obtain ⟨hlast, hmod⟩ := hin
          have hle : n - first ≤ last - first := by omega
          have hmul : (n - first) / step * step = n - first :=
            Nat.div_mul_cancel (Nat.dvd_of_mod_eq_zero hmod)
          rw [hsplit]
          refine List.mem_append_left _ ?_
          simp only [members, List.flatMap_cons, List.flatMap_nil, List.append_nil, List.mem_map,
            List.mem_range, Prod.mk.injEq]
          exact ⟨(n - first) / step, Nat.lt_succ_of_le (Nat.div_le_div_right hle), by omega,
            by omega⟩
        · have hrest : mapCode rest n = some m := by simpa [mapCode, hfirst, hin] using h
          rw [hsplit]
          exact List.mem_append_right _ (ih hrest)

/-- The code points that a table maps. -/
def domainBits (table : List (Nat × Nat × Nat × Nat)) : Nat :=
  codeBits ((members table).map Prod.fst)

/-- The code points that a table maps to. -/
def imageBits (table : List (Nat × Nat × Nat × Nat)) : Nat :=
  codeBits ((members table).map Prod.snd)

section

variable {table : List (Nat × Nat × Nat × Nat)} {n m : Nat}

/-- The image of a mapped code is among the bits of its table. -/
theorem testBit_imageBits (h : mapCode table n = some m) : (imageBits table).testBit m = true :=
  testBit_codeBits.2 (List.mem_map_of_mem (mem_members_of_mapCode h))

/-- A code outside the bits of the domain is not mapped. -/
theorem mapCode_eq_none (h : (domainBits table).testBit n = false) : mapCode table n = none := by
  cases hmap : mapCode table n with
  | none => rfl
  | some m =>
      have hin : (domainBits table).testBit n = true :=
        testBit_codeBits.2 (List.mem_map_of_mem (mem_members_of_mapCode hmap))
      simp [h] at hin

end

/-! ## Letters and numbers among the images -/

/-- The ASCII letters, and the letters and numbers above ASCII. -/
def alphanumericBits : Nat :=
  codeBits (runCodes 0x41 1 26) ||| codeBits (runCodes 0x61 1 26) |||
    ((RunTable.bits alphabeticRuns ||| RunTable.bits numericRuns) >>> 128) <<< 128

theorem isAlphanumeric_of_testBit {c : Char} (h : alphanumericBits.testBit c.toNat = true) :
    isAlphanumeric c = true := by
  by_cases hascii : c.toNat < 128
  · have hletters : ∀ n : Fin 128, n.val ∈ runCodes 0x41 1 26 ∨ n.val ∈ runCodes 0x61 1 26 →
        isAlphanumeric (Char.ofNat n) = true := by decide
    have hbit : c.toNat ∈ runCodes 0x41 1 26 ∨ c.toNat ∈ runCodes 0x61 1 26 := by
      simpa only [alphanumericBits, Nat.testBit_or, Nat.testBit_shiftLeft, Nat.not_le.2 hascii,
        decide_false, Bool.false_and, Bool.or_false, Bool.or_eq_true, testBit_codeBits] using h
    simpa using hletters ⟨c.toNat, hascii⟩ hbit
  · -- Above ASCII only the two tables are left.
    have hletter : ∀ start : Nat, start + 26 ≤ 128 →
        (codeBits (runCodes start 1 26)).testBit c.toNat = false := by
      intro start hstart
      rw [← Bool.not_eq_true, testBit_codeBits]
      intro hmem
      rcases List.mem_map.1 hmem with ⟨k, hk, hcode⟩
      have hbound := List.mem_range.1 hk
      omega
    have hge : 128 ≤ c.toNat := Nat.not_lt.1 hascii
    have hbit : (RunTable.bits alphabeticRuns).testBit c.toNat = true ∨
        (RunTable.bits numericRuns).testBit c.toNat = true := by
      simpa only [alphanumericBits, Nat.testBit_or, hletter 0x41 (by omega),
        hletter 0x61 (by omega), Nat.testBit_shiftLeft, Nat.testBit_shiftRight, hge,
        Nat.add_sub_cancel' hge, decide_true, Bool.true_and, Bool.false_or,
        Bool.or_eq_true] using h
    rcases hbit with hbit | hbit
    · simp [isAlphanumeric, isAlphabetic, hascii, contains_of_testBit hbit]
    · simp [isAlphanumeric, isNumeric, hascii, contains_of_testBit hbit]

/-- Every image of lowering is a letter or a digit; the tables are compared by their bits. -/
theorem alphanumeric_lowerRuns :
    imageBits lowerRuns &&& alphanumericBits = imageBits lowerRuns := by decide +kernel

theorem alphanumeric_upperRuns :
    imageBits upperRuns &&& alphanumericBits = imageBits upperRuns := by decide +kernel

/-- The first code point of each image of several characters. -/
def expansionHeads : List Nat :=
  upperExpansions.map fun entry => entry.2.headD 0

theorem alphanumeric_expansionHeads :
    codeBits expansionHeads &&& alphanumericBits = codeBits expansionHeads := by decide +kernel

/-! ## One character -/

/-- Lowering leaves the character as it is, wherever it stands. -/
def Low (c : Char) : Prop := c.toNat ≠ 0x3A3 ∧ lowerChar c = [c]

/-- Raising leaves the character as it is. -/
def High (c : Char) : Prop := upperChar c = [c]

instance (c : Char) : Decidable (Low c) :=
  inferInstanceAs (Decidable (_ ∧ _))

instance (c : Char) : Decidable (High c) :=
  inferInstanceAs (Decidable (_ = _))

/-- The code points that lowering changes. -/
def lowerableBits : Nat :=
  domainBits lowerRuns ||| codeBits (0x130 :: runCodes 0x41 1 26)

/-- The code points that raising changes. -/
def raisableBits : Nat :=
  domainBits upperRuns ||| codeBits (upperExpansions.map Prod.fst ++ runCodes 0x61 1 26)

theorem low_lowerRuns : imageBits lowerRuns &&& lowerableBits = 0 := by decide +kernel

theorem high_upperRuns :
    (imageBits upperRuns ||| codeBits (upperExpansions.flatMap Prod.snd)) &&& raisableBits = 0 := by
  decide +kernel

section

variable {c d : Char}

/-- The ways in which a character is lowered. -/
theorem lowerChar_cases (c : Char) :
    (c.toNat < 128 ∧ lowerChar c = [c.toLower]) ∨
    (c.toNat = 0x130 ∧ lowerChar c = ['i', Char.ofNat 0x307]) ∨
    (∃ n, mapCode lowerRuns c.toNat = some n ∧ lowerChar c = [Char.ofNat n]) ∨
    (mapCode lowerRuns c.toNat = none ∧ lowerChar c = [c]) := by
  by_cases hascii : c.toNat < 128
  · exact .inl ⟨hascii, by simp [lowerChar, hascii]⟩
  · by_cases hdotted : c.toNat = 0x130
    · exact .inr (.inl ⟨hdotted, by rw [lowerChar, if_neg hascii, if_pos hdotted]⟩)
    · cases hmap : mapCode lowerRuns c.toNat with
      | some n => exact .inr (.inr (.inl ⟨n, rfl, by simp [lowerChar, hascii, hdotted, hmap]⟩))
      | none => exact .inr (.inr (.inr ⟨rfl, by simp [lowerChar, hascii, hdotted, hmap]⟩))

/-- The ways in which a character is raised. -/
theorem upperChar_cases (c : Char) :
    (c.toNat < 128 ∧ upperChar c = [c.toUpper]) ∨
    (∃ n more, (c.toNat, n :: more) ∈ upperExpansions ∧
      upperChar c = Char.ofNat n :: more.map Char.ofNat) ∨
    (∃ n, mapCode upperRuns c.toNat = some n ∧ upperChar c = [Char.ofNat n]) ∨
    upperChar c = [c] := by
  by_cases hascii : c.toNat < 128
  · exact .inl ⟨hascii, by simp [upperChar, hascii]⟩
  · cases hlookup : upperExpansions.lookup c.toNat with
    | some ns =>
        have hentry : (c.toNat, ns) ∈ upperExpansions := by
          rcases List.lookup_eq_some_iff.1 hlookup with ⟨before, after, hsplit, _⟩
          simp [hsplit]
        rcases List.exists_cons_of_ne_nil (validCode_upperExpansions _ hentry).1 with ⟨n, more, rfl⟩
        exact .inr (.inl ⟨n, more, hentry, by simp [upperChar, hascii, hlookup]⟩)
    | none =>
        cases hmap : mapCode upperRuns c.toNat with
        | some n => exact .inr (.inr (.inl ⟨n, rfl, by simp [upperChar, hascii, hlookup, hmap]⟩))
        | none => exact .inr (.inr (.inr (by simp [upperChar, hascii, hlookup, hmap])))

theorem low_of_testBit (h : lowerableBits.testBit c.toNat = false) : Low c := by
  -- The capital sigma, which is lowered by its place, is in the table as well.
  have hsigma : lowerableBits.testBit 0x3A3 = true := by decide +kernel
  have hne : c.toNat ≠ 0x3A3 := fun heq => by simp [heq, hsigma] at h
  simp only [lowerableBits, Nat.testBit_or, Bool.or_eq_false_iff] at h
  obtain ⟨hdomain, hothers⟩ := h
  rw [← Bool.not_eq_true, testBit_codeBits, List.mem_cons, not_or] at hothers
  obtain ⟨hdotted, hcapital⟩ := hothers
  refine ⟨hne, ?_⟩
  rcases lowerChar_cases c with ⟨hascii, himage⟩ | ⟨hcode, _⟩ | ⟨n, hmap, _⟩ | ⟨_, himage⟩
  · have hself : c.toLower = c := by
      revert hcapital
      exact forall_ascii (p := fun c => c.toNat ∉ runCodes 0x41 1 26 → c.toLower = c)
        (by decide) hascii
    rw [himage, hself]
  · exact absurd hcode hdotted
  · simp [mapCode_eq_none hdomain] at hmap
  · exact himage

theorem high_of_testBit (h : raisableBits.testBit c.toNat = false) : High c := by
  simp only [raisableBits, Nat.testBit_or, Bool.or_eq_false_iff] at h
  obtain ⟨hdomain, hothers⟩ := h
  rw [← Bool.not_eq_true, testBit_codeBits, List.mem_append, not_or] at hothers
  obtain ⟨hexpansion, hsmall⟩ := hothers
  rcases upperChar_cases c with ⟨hascii, himage⟩ | ⟨n, more, hentry, _⟩ | ⟨n, hmap, _⟩ | himage
  · have hself : c.toUpper = c := by
      revert hsmall
      exact forall_ascii (p := fun c => c.toNat ∉ runCodes 0x61 1 26 → c.toUpper = c)
        (by decide) hascii
    rw [High, himage, hself]
  · exact absurd (List.mem_map_of_mem hentry) hexpansion
  · simp [mapCode_eq_none hdomain] at hmap
  · exact himage

/-- What lowering a character gives is not lowered any further. -/
theorem low_of_mem_lowerChar (h : d ∈ lowerChar c) : Low d := by
  rcases lowerChar_cases c with ⟨hascii, himage⟩ | ⟨_, himage⟩ | ⟨n, hmap, himage⟩ | ⟨hmap, himage⟩
  · obtain rfl : d = c.toLower := by simpa [himage] using h
    exact forall_ascii (p := fun c => Low c.toLower) (by decide) hascii
  · have hall : ∀ d ∈ ['i', Char.ofNat 0x307], Low d :=
      List.forall_mem_cons.2 ⟨by decide +kernel, List.forall_mem_singleton.2 (by decide +kernel)⟩
    exact hall d (himage ▸ h)
  · obtain rfl : d = Char.ofNat n := by simpa [himage] using h
    apply low_of_testBit
    rw [(validCode_of_mapCode validRun_lowerRuns hmap).toNat_ofNat]
    exact not_testBit_of_and_eq_zero low_lowerRuns (testBit_imageBits hmap)
  · obtain rfl : d = c := by simpa [himage] using h
    have hsigma : mapCode lowerRuns 0x3A3 ≠ none := by decide +kernel
    exact ⟨fun heq => hsigma (heq ▸ hmap), himage⟩

/-- What raising a character gives is not raised any further. -/
theorem high_of_mem_upperChar (h : d ∈ upperChar c) : High d := by
  have hcode : ∀ {n : Nat}, ValidCode n →
      (imageBits upperRuns ||| codeBits (upperExpansions.flatMap Prod.snd)).testBit n = true →
        High (Char.ofNat n) := by
    intro n hvalid hbit
    apply high_of_testBit
    rw [hvalid.toNat_ofNat]
    exact not_testBit_of_and_eq_zero high_upperRuns hbit
  rcases upperChar_cases c with ⟨hascii, himage⟩ | ⟨n, more, hentry, himage⟩ | ⟨n, hmap, himage⟩ |
    himage
  · obtain rfl : d = c.toUpper := by simpa [himage] using h
    exact forall_ascii (p := fun c => High c.toUpper) (by decide) hascii
  · obtain ⟨m, hm, rfl⟩ : ∃ m ∈ n :: more, Char.ofNat m = d := by
      rw [himage, ← List.map_cons] at h
      exact List.mem_map.1 h
    refine hcode ((validCode_upperExpansions _ hentry).2 m hm) ?_
    rw [Nat.testBit_or, Bool.or_eq_true, testBit_codeBits]
    exact .inr (List.mem_flatMap.2 ⟨_, hentry, hm⟩)
  · obtain rfl : d = Char.ofNat n := by simpa [himage] using h
    refine hcode (validCode_of_mapCode validRun_upperRuns hmap) ?_
    rw [Nat.testBit_or, testBit_imageBits hmap, Bool.true_or]
  · obtain rfl : d = c := by simpa [himage] using h
    exact himage

/-- A letter or number is lowered to one letter or number, which may be followed by marks. -/
theorem lowerChar_alphanumeric (h : isAlphanumeric c = true) :
    ∃ d marks, lowerChar c = d :: marks ∧ isAlphanumeric d = true ∧
      ∀ mark ∈ marks, isAlphanumeric mark = false := by
  rcases lowerChar_cases c with ⟨hascii, himage⟩ | ⟨_, himage⟩ | ⟨n, hmap, himage⟩ | ⟨_, himage⟩
  · refine ⟨c.toLower, [], himage, ?_, by simp⟩
    revert h
    exact forall_ascii (p := fun c => isAlphanumeric c = true → isAlphanumeric c.toLower = true)
      (by decide) hascii
  · have hmark : isAlphanumeric (Char.ofNat 0x307) = false := by decide +kernel
    exact ⟨'i', [Char.ofNat 0x307], himage, by decide, List.forall_mem_singleton.2 hmark⟩
  · refine ⟨Char.ofNat n, [], himage, isAlphanumeric_of_testBit ?_, by simp⟩
    rw [(validCode_of_mapCode validRun_lowerRuns hmap).toNat_ofNat]
    exact testBit_of_and_eq_self alphanumeric_lowerRuns (testBit_imageBits hmap)
  · exact ⟨c, [], himage, h, by simp⟩

/-- The image of a raised letter or number begins with one. -/
theorem upperChar_alphanumeric (h : isAlphanumeric c = true) :
    ∃ d more, upperChar c = d :: more ∧ isAlphanumeric d = true := by
  rcases upperChar_cases c with ⟨hascii, himage⟩ | ⟨n, more, hentry, himage⟩ | ⟨n, hmap, himage⟩ |
    himage
  · refine ⟨c.toUpper, [], himage, ?_⟩
    revert h
    exact forall_ascii (p := fun c => isAlphanumeric c = true → isAlphanumeric c.toUpper = true)
      (by decide) hascii
  · refine ⟨Char.ofNat n, more.map Char.ofNat, himage, isAlphanumeric_of_testBit ?_⟩
    rw [((validCode_upperExpansions _ hentry).2 n (by simp)).toNat_ofNat]
    refine testBit_of_and_eq_self alphanumeric_expansionHeads (testBit_codeBits.2 ?_)
    exact List.mem_map.2 ⟨_, hentry, rfl⟩
  · refine ⟨Char.ofNat n, [], himage, isAlphanumeric_of_testBit ?_⟩
    rw [(validCode_of_mapCode validRun_upperRuns hmap).toNat_ofNat]
    exact testBit_of_and_eq_self alphanumeric_upperRuns (testBit_imageBits hmap)
  · exact ⟨c, [], himage, h⟩

/-- No image of several characters begins with one that is lowered to where it came from. -/
theorem lowerChar_expansionHeads :
    ∀ entry ∈ upperExpansions, lowerChar (Char.ofNat (entry.2.headD 0)) ≠ [Char.ofNat entry.1] := by
  decide +kernel

/-- Two characters that begin each other's image are all of it. -/
theorem single_of_mutual {more marks : List Char} (hupper : upperChar c = d :: more)
    (hlower : lowerChar d = c :: marks) : more = [] ∧ marks = [] := by
  have hmarks : marks = [] := by
    rcases lowerChar_cases d with ⟨_, himage⟩ | ⟨hdotted, himage⟩ | ⟨n, _, himage⟩ | ⟨_, himage⟩
    · simp_all
    · obtain ⟨rfl, _⟩ : c = 'i' ∧ marks = [Char.ofNat 0x307] := by simpa [himage] using hlower.symm
      -- The small i is raised to the capital without a dot.
      obtain ⟨rfl, _⟩ : d = 'I' ∧ more = [] := by simpa [upperChar] using hupper.symm
      exact absurd hdotted (by decide)
    · simp_all
    · simp_all
  refine ⟨?_, hmarks⟩
  rcases upperChar_cases c with ⟨_, himage⟩ | ⟨n, others, hentry, himage⟩ | ⟨n, _, himage⟩ | himage
  · simp_all
  · obtain ⟨rfl, _⟩ : d = Char.ofNat n ∧ more = others.map Char.ofNat := by
      simpa [himage] using hupper.symm
    have hother := lowerChar_expansionHeads _ hentry
    simp [hmarks] at hlower
    simp [hlower] at hother
  · simp_all
  · simp_all

end

/-! ## Texts -/

section

variable {cs : List Char}

/-- A lowered text is not lowered any further. -/
theorem low_of_mem_lowerAfter {before : List Char} {d : Char} (h : d ∈ lowerAfter before cs) :
    Low d := by
  induction cs generalizing before with
  | nil => simp [lowerAfter] at h
  | cons c rest ih =>
      rw [lowerAfter] at h
      rcases List.mem_append.1 h with h | h
      · -- A capital sigma at the end of a word has an image of its own.
        by_cases hsigma : (c.toNat = 0x3A3 && nextIsCased before && !nextIsCased rest) = true
        · rw [if_pos hsigma] at h
          obtain rfl : d = Char.ofNat 0x3C2 := by simpa using h
          decide +kernel
        · rw [if_neg hsigma] at h
          exact low_of_mem_lowerChar h
      · exact ih h

/-- What is low already is not lowered again. -/
theorem lowerAfter_of_low (h : ∀ c ∈ cs, Low c) (before : List Char) :
    lowerAfter before cs = cs := by
  induction cs generalizing before with
  | nil => rfl
  | cons c rest ih =>
      obtain ⟨⟨hsigma, himage⟩, hrest⟩ := List.forall_mem_cons.1 h
      simp [lowerAfter, hsigma, himage, ih hrest]

/-- A lowered text has as many letters and numbers as before. -/
theorem length_filter_lowerAfter (h : ∀ c ∈ cs, isAlphanumeric c = true) (before : List Char) :
    ((lowerAfter before cs).filter isAlphanumeric).length = cs.length := by
  induction cs generalizing before with
  | nil => rfl
  | cons c rest ih =>
      obtain ⟨hc, hrest⟩ := List.forall_mem_cons.1 h
      have himage : ∀ image : List Char, (image.filter isAlphanumeric).length = 1 →
          ((image ++ lowerAfter (c :: before) rest).filter isAlphanumeric).length
            = rest.length + 1 := by
        intro image hone
        rw [List.filter_append, List.length_append, ih hrest, hone, Nat.add_comm]
      apply himage
      by_cases hsigma : (c.toNat = 0x3A3 && nextIsCased before && !nextIsCased rest) = true
      · rw [if_pos hsigma]
        decide +kernel
      · obtain ⟨d, marks, heq, hd, hmarks⟩ := lowerChar_alphanumeric hc
        have hnone : marks.filter isAlphanumeric = [] := List.filter_eq_nil_iff.2 (by simpa using hmarks)
        rw [if_neg hsigma, heq]
        simp [hd, hnone]

/-- The lowered form of a text that begins with a letter or number begins with one. -/
theorem lowerAfter_cons_alphanumeric {c : Char} (hc : isAlphanumeric c = true)
    (before rest : List Char) :
    ∃ d more, lowerAfter before (c :: rest) = d :: more ∧ isAlphanumeric d = true := by
  rw [lowerAfter]
  by_cases hsigma : (c.toNat = 0x3A3 && nextIsCased before && !nextIsCased rest) = true
  · rw [if_pos hsigma]
    exact ⟨Char.ofNat 0x3C2, _, rfl, by decide +kernel⟩
  · obtain ⟨d, marks, heq, hd, _⟩ := lowerChar_alphanumeric hc
    rw [if_neg hsigma, heq]
    exact ⟨d, _, rfl, hd⟩

/-- A raised text is not raised any further. -/
theorem high_of_mem_upper {d : Char} (h : d ∈ upper cs) : High d := by
  rcases List.mem_flatMap.1 h with ⟨c, _, hd⟩
  exact high_of_mem_upperChar hd

/-- What is high already is not raised again. -/
theorem upper_of_high (h : ∀ c ∈ cs, High c) : upper cs = cs := by
  calc
    upper cs = cs.flatMap fun c => [c] := List.flatMap_congr h
    _ = cs := List.flatMap_singleton' cs

/-- A raised text has at least as many letters and numbers as before. -/
theorem length_le_filter_upper (h : ∀ c ∈ cs, isAlphanumeric c = true) :
    cs.length ≤ ((upper cs).filter isAlphanumeric).length := by
  induction cs with
  | nil => simp
  | cons c rest ih =>
      obtain ⟨hc, hrest⟩ := List.forall_mem_cons.1 h
      obtain ⟨d, more, heq, hd⟩ := upperChar_alphanumeric hc
      have hupper : upper (c :: rest) = d :: (more ++ upper rest) := by
        rw [upper, List.flatMap_cons, heq]
        rfl
      have hle := ih hrest
      rw [hupper, List.filter_cons_of_pos hd, List.filter_append]
      simp only [List.length_cons, List.length_append]
      omega

end

end Text
end ProjectConsistency
