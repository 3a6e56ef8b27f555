import ProjectConsistency.Proofs.Json.Written

/-!
# Tidied — what is read does not depend on how lines end

This file defines:

* `Json.Alien` — no token begins with the character;
* `Json.Tidied` — a text, and the same text with other ends of its lines;
* `Json.Again` — a reader gives a result for a text, and what is left of it is tidied.

Tokens hold neither line feeds nor carriage returns, so a reader goes through both texts alike.
-/

namespace ProjectConsistency
namespace Json

/-! ## Tidied texts -/

/-- The character is no blank, and no token begins with it. -/
def Alien (c : Char) : Prop :=
  isGap c = false ∧ digit? c = none ∧
    c ∉ ['n', 't', 'f', '"', '[', ']', '{', '}', ',', ':', '-']

instance : DecidablePred Alien :=
  fun c => inferInstanceAs (Decidable (isGap c = false ∧ digit? c = none ∧ _))

/-- The second text is the first one, without carriage returns before line feeds and without the line
feed at its end.  Where no token comes after a line feed the texts may differ from there on. -/
inductive Tidied : List Char → List Char → Prop where
  | nil : Tidied [] []
  | same (c : Char) {cs ds : List Char} (rest : Tidied cs ds) : Tidied (c :: cs) (c :: ds)
  | returned {cs ds : List Char} (rest : Tidied ('\n' :: cs) ds) : Tidied ('\r' :: '\n' :: cs) ds
  | last : Tidied ['\n'] []
  | astray (gap more : List Char) {ds : List Char} {c : Char} (hgap : Blank gap) (halien : Alien c)
      (hfeed : ∀ d ∈ ds.head?, d = '\n') : Tidied ('\n' :: (gap ++ c :: more)) ds

variable {cs ds rest : List Char} {c : Char}

theorem Tidied.refl (cs : List Char) : Tidied cs cs := by
  induction cs with
  | nil => exact .nil
  | cons c cs ih => exact .same c ih

/-- A token in front of tidied text stays as it is. -/
theorem Tidied.append (token : List Char) (h : Tidied cs ds) :
    Tidied (token ++ cs) (token ++ ds) := by
  induction token with
  | nil => exact h
  | cons c token ih => exact .same c ih

/-- A character that ends no line is kept. -/
theorem Tidied.cons_inv (h : Tidied (c :: cs) ds) (hfeed : c ≠ '\n') (hreturn : c ≠ '\r') :
    ∃ more, ds = c :: more ∧ Tidied cs more := by
  cases h with
  | same _ rest => exact ⟨_, rfl, rest⟩
  | returned => exact absurd rfl hreturn
  | last => exact absurd rfl hfeed
  | astray => exact absurd rfl hfeed

/-- The tidied text begins with a blank or with what the text begins with. -/
theorem Tidied.head (h : Tidied cs ds) : ∀ d ∈ ds.head?, isGap d = true ∨ cs.head? = some d := by
  induction h with
  | nil => simp
  | same c => simp
  | returned _ ih =>
      intro d hd
      rcases ih d hd with hgap | hhead
      · exact .inl hgap
      · cases hhead
        exact .inl rfl
  | last => simp
  | astray _ _ _ _ hfeed =>
      intro d hd
      rw [hfeed d hd]
      exact .inl rfl

theorem digit?_of_isGap (h : isGap c = true) : digit? c = none := by
  simp only [isGap, Bool.or_eq_true, beq_iff_eq] at h
  rcases h with ((rfl | rfl) | rfl) | rfl <;> rfl

/-! ## Blanks -/

/-- After the blanks, no token comes, or the same one. -/
theorem Tidied.skip (h : Tidied cs ds) :
    Tidied (skipGap cs) (skipGap ds) ∨ ∃ d more, skipGap cs = d :: more ∧ Alien d := by
  induction h with
  | nil => exact .inl .nil
  | same c rest ih =>
      by_cases hc : isGap c = true
      · simpa [skipGap, hc] using ih
      · rw [skipGap_cons (by simpa using hc), skipGap_cons (by simpa using hc)]
        exact .inl (.same c rest)
  | returned _ ih => exact ih
  | last => exact .inl .nil
  | astray gap more hgap halien =>
      have hblank : Blank ('\n' :: gap) := List.forall_mem_cons.2 ⟨rfl, hgap⟩
      refine .inr ⟨_, more, ?_, halien⟩
      rw [← List.cons_append, skipGap_append hblank, skipGap_cons halien.1]

/-- What follows a skipped gap is not part of one. -/
theorem isGap_of_skipGap (h : skipGap cs = c :: rest) : isGap c = false := by
  have hhead := List.head?_dropWhile_not isGap cs
  rw [skipGap] at h
  rw [h] at hhead
  simpa using hhead

/-- A text that is blank is tidied to one. -/
theorem Tidied.skip_nil (h : Tidied cs ds) (hcs : skipGap cs = []) : skipGap ds = [] := by
  rcases h.skip with hskip | ⟨d, more, heq, _⟩
  · rw [hcs] at hskip
    generalize skipGap ds = after at hskip
    cases hskip
    rfl
  · rw [hcs] at heq
    cases heq

/-- A token after blanks is kept. -/
theorem Tidied.skip_cons (h : Tidied cs ds) (hcs : skipGap cs = c :: rest) (hc : ¬ Alien c) :
    ∃ more, skipGap ds = c :: more ∧ Tidied rest more := by
  have hgap := isGap_of_skipGap hcs
  rcases h.skip with hskip | ⟨d, more, heq, halien⟩
  · rw [hcs] at hskip
    refine hskip.cons_inv ?_ ?_
    · rintro rfl
      cases hgap
    · rintro rfl
      cases hgap
  · rw [hcs] at heq
    cases heq
    exact absurd halien hc

/-! ## Readers of tokens -/

variable {α : Type}

/-- The reader gives the result for the text, and what is left of the text is tidied and has fewer
than `n` characters. -/
def Again (read : List Char → Reading α) (ds : List Char) (x : α) (rest : List Char) (n : Nat) :
    Prop :=
  ∃ left, read ds = .ok (x, left) ∧ Tidied rest left ∧ left.length < n

/-- A reader of a token gives the same for a tidied text. -/
def Survives (read : List Char → Reading α) : Prop :=
  ∀ {cs ds rest : List Char} {x : α}, Tidied cs ds → read cs = .ok (x, rest) →
    Again read ds x rest (ds.length + 1)

/-- A literal holds no line end, so no tidying reaches into it. -/
theorem survives_word (x : Json) (letters : List Char) (hletters : '\n' ∉ letters ∧ '\r' ∉ letters) :
    Survives (word x letters) := by
  intro cs ds rest y htidy hread
  induction letters generalizing cs ds with
  | nil =>
      cases hread
      exact ⟨ds, rfl, htidy, Nat.lt_succ_self _⟩
  | cons w letters ih =>
      cases cs with
      | nil => cases hread
      | cons c cs =>
          rw [word] at hread
          split_ifs at hread with heq
          subst heq
          obtain ⟨more, rfl, hmore⟩ := htidy.cons_inv (by grind) (by grind)
          obtain ⟨left, hleft, htidy, hlt⟩ := ih (by grind) hmore hread
          exact ⟨left, by rw [word, if_pos rfl, hleft], htidy, Nat.lt_succ_of_lt hlt⟩

/-! ## Numbers -/

/-- The text begins with a blank, or there is nothing. -/
def AtGap (cs : List Char) : Prop :=
  ∀ c ∈ cs.head?, isGap c = true

/-- Either both texts begin with the same character, which is no blank, or with none. -/
@[elab_as_elim]
theorem Tidied.by_head {motive : ∀ cs ds, Tidied cs ds → Prop}
    (gap : ∀ {cs ds} (h : Tidied cs ds), AtGap cs → AtGap ds → motive cs ds h)
    (char : ∀ {cs ds} (c : Char) (h : Tidied cs ds), isGap c = false → motive cs ds h →
      motive (c :: cs) (c :: ds) (.same c h))
    {cs ds : List Char} (h : Tidied cs ds) : motive cs ds h := by
  induction cs generalizing ds with
  | nil =>
      have hcs : AtGap [] := nofun
      refine gap h hcs ?_
      intro d hd
      rcases h.head d hd with hgap | hhead
      · exact hgap
      · cases hhead
  | cons c cs ih =>
      by_cases hc : isGap c = true
      · have hcs : AtGap (c :: cs) := by simpa [AtGap] using hc
        refine gap h hcs ?_
        intro d hd
        rcases h.head d hd with hgap | hhead
        · exact hgap
        · exact hcs d hhead
      · obtain ⟨more, rfl, hmore⟩ := h.cons_inv (by rintro rfl; exact hc rfl)
          (by rintro rfl; exact hc rfl)
        exact char c hmore (by simpa using hc) (ih hmore)

/-- A reading is found again by a reader that agrees on the text. -/
theorem Again.congr {read other : List Char → Reading α} {es : List Char} {x : α} {n m : Nat}
    (h : Again read ds x rest n) (heq : other es = read ds) (hle : n ≤ m) :
    Again other es x rest m := by
  obtain ⟨left, hleft, htidy, hlt⟩ := h
  exact ⟨left, heq.trans hleft, htidy, Nat.lt_of_lt_of_le hlt hle⟩

theorem survives_scaled (negative : Bool) (significand : Nat) (exponent : Int) :
    Survives (scaled negative significand exponent) := by
  intro cs ds rest x htidy hread
  rw [scaled] at hread
  cases hscale : Double.scale? negative significand exponent with
  | none =>
      rw [hscale] at hread
      cases hread
  | some y =>
      rw [hscale] at hread
      cases hread
      exact ⟨ds, by rw [scaled, hscale], htidy, Nat.lt_succ_self _⟩

theorem skipDigits_of_gap (h : AtGap cs) : skipDigits cs = cs := by
  cases cs with
  | nil => rfl
  | cons c cs => simp [skipDigits, digit?_of_isGap (h c rfl)]

theorem length_skipDigits_le (cs : List Char) : (skipDigits cs).length ≤ cs.length :=
  (List.dropWhile_suffix _).length_le

/-- Digits are skipped in step on a text and its tidied form. -/
theorem Tidied.skipDigits (h : Tidied cs ds) : Tidied (skipDigits cs) (skipDigits ds) := by
  induction h using Tidied.by_head with
  | gap htidy hcs hds => rwa [skipDigits_of_gap hcs, skipDigits_of_gap hds]
  | char c htidy _ ih =>
      by_cases hdigit : (digit? c).isSome = true
      · simpa [Json.skipDigits, hdigit] using ih
      · simpa [Json.skipDigits, hdigit] using htidy.same c

/-- No character of a number goes on with the text. -/
theorem AtGap.head_ne (h : AtGap cs) : ∀ c ∈ cs.head?, c ≠ '.' ∧ c ≠ 'e' ∧ c ≠ 'E' := by
  intro c hc
  have hgap := h c hc
  refine ⟨?_, ?_, ?_⟩ <;> (rintro rfl; cases hgap)

section

variable (negative : Bool) (significand : Nat) (start : Int)

/-- A gap ends an exponent. -/
theorem exponentFrom_of_gap (positive : Bool) (e : Nat) (h : AtGap cs) :
    exponentFrom negative significand start positive e cs
      = scaled negative significand (if positive then start + e else start - e) cs := by
  cases cs with
  | nil => rfl
  | cons c cs => simp [exponentFrom, digit?_of_isGap (h c rfl)]

theorem survives_exponentFrom (positive : Bool) (e : Nat) :
    Survives (exponentFrom negative significand start positive e) := by
  intro cs ds rest x htidy hread
  induction htidy using Tidied.by_head generalizing e with
  | gap htidy hcs hds =>
      rw [exponentFrom_of_gap _ _ _ _ _ hcs] at hread
      exact (survives_scaled _ _ _ htidy hread).congr (exponentFrom_of_gap _ _ _ _ _ hds) le_rfl
  | char c htidy _ ih =>
      cases hdigit : digit? c with
      | none =>
          simp only [exponentFrom, hdigit] at hread
          exact (survives_scaled _ _ _ (htidy.same c) hread).congr (by rw [exponentFrom, hdigit]) le_rfl
      | some d =>
          simp only [exponentFrom, hdigit] at hread
          split_ifs at hread with hsmall hlarge
          · exact (ih _ hread).congr (by simp only [exponentFrom, hdigit, if_pos hsmall]) (by simp)
          · cases hread
            refine ⟨_, ?_, htidy.skipDigits, Nat.lt_succ_of_le ?_⟩
            · simp only [exponentFrom, hdigit, if_neg hsmall, if_neg hlarge]
            · exact Nat.le_succ_of_le (length_skipDigits_le _)

def unsignedExponent (positive : Bool) : List Char → Reading Number
  | [] => .error (.here .endInValue [])
  | c :: rest =>
      match digit? c with
      | none => .error (.ahead .invalidNumber (c :: rest))
      | some d => exponentFrom negative significand start positive d rest

theorem exponent_of_sign (cs : List Char) :
    exponent negative significand start ('+' :: cs)
        = unsignedExponent negative significand start true cs ∧
      exponent negative significand start ('-' :: cs)
        = unsignedExponent negative significand start false cs := by
  cases cs with
  | nil => exact ⟨rfl, rfl⟩
  | cons c cs => exact ⟨rfl, rfl⟩

theorem exponent_of_unsigned (h : ∀ c ∈ cs.head?, c ≠ '+' ∧ c ≠ '-') :
    exponent negative significand start cs
      = unsignedExponent negative significand start true cs := by
  cases cs with
  | nil => rfl
  | cons c cs =>
      obtain ⟨hplus, hminus⟩ := h c rfl
      cases hdigit : digit? c <;> simp [exponent, unsignedExponent, hplus, hminus, hdigit]

theorem survives_unsignedExponent (positive : Bool) :
    Survives (unsignedExponent negative significand start positive) := by
  intro cs ds rest x htidy hread
  cases htidy using Tidied.by_head with
  | gap htidy hcs hds =>
      cases cs with
      | nil => cases hread
      | cons c cs =>
          rw [unsignedExponent, digit?_of_isGap (hcs c rfl)] at hread
          cases hread
  | char c htidy _ _ =>
      cases hdigit : digit? c with
      | none =>
          rw [unsignedExponent, hdigit] at hread
          cases hread
      | some d =>
          rw [unsignedExponent, hdigit] at hread
          exact (survives_exponentFrom _ _ _ _ _ htidy hread).congr
            (by rw [unsignedExponent, hdigit]) (by simp)

theorem survives_exponent : Survives (exponent negative significand start) := by
  intro cs ds rest x htidy hread
  have hunsigned : (∀ c ∈ cs.head?, c ≠ '+' ∧ c ≠ '-') → (∀ c ∈ ds.head?, c ≠ '+' ∧ c ≠ '-') →
      Again (exponent negative significand start) ds x rest (ds.length + 1) := by
    intro hcs hds
    rw [exponent_of_unsigned _ _ _ hcs] at hread
    exact (survives_unsignedExponent _ _ _ _ htidy hread).congr (exponent_of_unsigned _ _ _ hds) le_rfl
  cases htidy using Tidied.by_head with
  | gap htidy hcs hds =>
      have hgap : ∀ {cs}, AtGap cs → ∀ c ∈ cs.head?, c ≠ '+' ∧ c ≠ '-' := by
        intro cs hcs c hc
        have hblank := hcs c hc
        refine ⟨?_, ?_⟩ <;> (rintro rfl; cases hblank)
      exact hunsigned (hgap hcs) (hgap hds)
  | char c htidy _ _ =>
      by_cases hplus : c = '+'
      · subst hplus
        rw [(exponent_of_sign _ _ _ _).1] at hread
        exact (survives_unsignedExponent _ _ _ _ htidy hread).congr (exponent_of_sign _ _ _ _).1 (by simp)
      · by_cases hminus : c = '-'
        · subst hminus
          rw [(exponent_of_sign _ _ _ _).2] at hread
          exact (survives_unsignedExponent _ _ _ _ htidy hread).congr (exponent_of_sign _ _ _ _).2 (by simp)
        · exact hunsigned (by simp [hplus, hminus]) (by simp [hplus, hminus])

theorem exponent?_of_head (h : ∀ c ∈ cs.head?, c ≠ 'e' ∧ c ≠ 'E') :
    exponent? negative significand start cs = scaled negative significand start cs := by
  cases cs with
  | nil => rfl
  | cons c cs =>
      obtain ⟨hlower, hupper⟩ := h c rfl
      simp [exponent?, hlower, hupper]

/-- An exponent, or its absence, is read alike after tidying. -/
theorem survives_exponent? : Survives (exponent? negative significand start) := by
  intro cs ds rest x htidy hread
  have hnone : (∀ c ∈ cs.head?, c ≠ 'e' ∧ c ≠ 'E') → (∀ c ∈ ds.head?, c ≠ 'e' ∧ c ≠ 'E') →
      Again (exponent? negative significand start) ds x rest (ds.length + 1) := by
    intro hcs hds
    rw [exponent?_of_head _ _ _ hcs] at hread
    exact (survives_scaled _ _ _ htidy hread).congr (exponent?_of_head _ _ _ hds) le_rfl
  cases htidy using Tidied.by_head with
  | gap htidy hcs hds =>
      exact hnone (fun c hc => (hcs.head_ne c hc).2) (fun c hc => (hds.head_ne c hc).2)
  | char c htidy _ _ =>
      by_cases hlower : c = 'e'
      · subst hlower
        exact (survives_exponent _ _ _ htidy hread).congr rfl (by simp)
      · by_cases hupper : c = 'E'
        · subst hupper
          exact (survives_exponent _ _ _ htidy hread).congr rfl (by simp)
        · exact hnone (by simp [hlower, hupper]) (by simp [hlower, hupper])

theorem survives_fractionFrom (some? : Bool) :
    Survives (fractionFrom negative significand start some?) := by
  intro cs ds rest x htidy hread
  -- Where a gap stops the digits, the number ends; without a digit it is refused.
  have hgap : ∀ {significand start cs}, AtGap cs →
      fractionFrom negative significand start true cs = scaled negative significand start cs := by
    intro significand start cs hcs
    cases cs with
    | nil => rfl
    | cons c cs =>
        rw [fractionFrom, digit?_of_isGap (hcs c rfl)]
        exact exponent?_of_head _ _ _ fun c hc => (hcs.head_ne c hc).2
  have hfails : ∀ {significand start cs}, AtGap cs →
      ∀ r, fractionFrom negative significand start false cs ≠ .ok r := by
    intro significand start cs hcs
    cases cs with
    | nil => nofun
    | cons c cs =>
        rw [fractionFrom, digit?_of_isGap (hcs c rfl)]
        nofun
  -- The digits are gone through on both texts at once.
  induction htidy using Tidied.by_head generalizing significand start some? with
  | gap htidy hcs hds =>
      cases some? with
      | false => exact absurd hread (hfails hcs _)
      | true =>
          rw [hgap hcs] at hread
          exact (survives_scaled _ _ _ htidy hread).congr (hgap hds) le_rfl
  | char c htidy _ ih =>
      cases hdigit : digit? c with
      | none =>
          simp only [fractionFrom, hdigit] at hread
          split_ifs at hread with hsome
          exact (survives_exponent? _ _ _ (htidy.same c) hread).congr
            (by simp only [fractionFrom, hdigit, if_pos hsome]) le_rfl
      | some d =>
          simp only [fractionFrom, hdigit] at hread
          split_ifs at hread with hsmall
          · exact (ih _ _ _ hread).congr (by simp only [fractionFrom, hdigit, if_pos hsmall])
              (by simp)
          · refine (survives_exponent? _ _ _ htidy.skipDigits hread).congr
              (by simp only [fractionFrom, hdigit, if_neg hsmall]) ?_
            exact Nat.succ_le_succ (Nat.le_succ_of_le (length_skipDigits_le _))

/-- Digits past the largest significand are counted alike after tidying. -/
theorem survives_longInteger (passed : Int) :
    Survives (longInteger negative significand passed) := by
  intro cs ds rest x htidy hread
  have hgap : ∀ {passed cs}, AtGap cs →
      longInteger negative significand passed cs = scaled negative significand passed cs := by
    intro passed cs hcs
    cases cs with
    | nil => rfl
    | cons c cs =>
        have hdot := (hcs.head_ne c rfl).1
        rw [longInteger, digit?_of_isGap (hcs c rfl), if_neg (by decide), if_neg hdot]
        exact exponent?_of_head _ _ _ fun c hc => (hcs.head_ne c hc).2
  induction htidy using Tidied.by_head generalizing passed with
  | gap htidy hcs hds =>
      rw [hgap hcs] at hread
      exact (survives_scaled _ _ _ htidy hread).congr (hgap hds) le_rfl
  | char c htidy _ ih =>
      rw [longInteger] at hread
      split_ifs at hread with hdigit hdot
      · exact (ih _ hread).congr (by rw [longInteger, if_pos hdigit]) (by simp)
      · exact (survives_fractionFrom _ _ _ _ htidy hread).congr
          (by rw [longInteger, if_neg hdigit, if_pos hdot]) (by simp)
      · exact (survives_exponent? _ _ _ (htidy.same c) hread).congr
          (by rw [longInteger, if_neg hdigit, if_neg hdot]) le_rfl

end

/-- A number that is not written with a point or an exponent. -/
def wholeNumber (negative : Bool) (significand : Nat) : Number :=
  if !negative then .integer significand
  else if significand = 0 || negativeLimit < significand then
    .double (Double.withSign true (UInt64.ofNat significand).toFloat)
  else .integer (-(significand : Int))

theorem numberTail_of_head {negative : Bool} {significand : Nat}
    (h : ∀ c ∈ cs.head?, c ≠ '.' ∧ c ≠ 'e' ∧ c ≠ 'E') :
    numberTail negative significand cs = .ok (wholeNumber negative significand, cs) := by
  have hwhole : ∀ cs, (if !negative then Except.ok (Number.integer significand, cs)
      else if significand = 0 || negativeLimit < significand then
        .ok (.double (Double.withSign true (UInt64.ofNat significand).toFloat), cs)
      else .ok (.integer (-(significand : Int)), cs) : Reading Number)
        = .ok (wholeNumber negative significand, cs) := by
    intro cs
    rw [wholeNumber]
    split_ifs <;> rfl
  rw [numberTail.eq_def]
  split
  · exact absurd rfl (h _ rfl).1
  · exact absurd rfl (h _ rfl).2.1
  · exact absurd rfl (h _ rfl).2.2
  · exact hwhole cs

/-- What follows the whole part of a number is read alike after tidying. -/
theorem survives_numberTail (negative : Bool) (significand : Nat) :
    Survives (numberTail negative significand) := by
  intro cs ds rest x htidy hread
  have hwhole : (∀ c ∈ cs.head?, c ≠ '.' ∧ c ≠ 'e' ∧ c ≠ 'E') →
      (∀ c ∈ ds.head?, c ≠ '.' ∧ c ≠ 'e' ∧ c ≠ 'E') →
      Again (numberTail negative significand) ds x rest (ds.length + 1) := by
    intro hcs hds
    rw [numberTail_of_head hcs] at hread
    cases hread
    exact ⟨ds, numberTail_of_head hds, htidy, Nat.lt_succ_self _⟩
  cases htidy using Tidied.by_head with
  | gap htidy hcs hds => exact hwhole hcs.head_ne hds.head_ne
  | char c htidy _ _ =>
      by_cases hdot : c = '.'
      · subst hdot
        exact (survives_fractionFrom _ _ _ _ htidy hread).congr rfl (by simp)
      · by_cases hlower : c = 'e'
        · subst hlower
          exact (survives_exponent _ _ _ htidy hread).congr rfl (by simp)
        · by_cases hupper : c = 'E'
          · subst hupper
            exact (survives_exponent _ _ _ htidy hread).congr rfl (by simp)
          · exact hwhole (by simp [hdot, hlower, hupper]) (by simp [hdot, hlower, hupper])

/-- The whole part of a number is read alike after tidying. -/
theorem survives_integerFrom (negative : Bool) (significand : Nat) :
    Survives (integerFrom negative significand) := by
  intro cs ds rest x htidy hread
  have hgap : ∀ {significand cs}, AtGap cs →
      integerFrom negative significand cs = numberTail negative significand cs := by
    intro significand cs hcs
    cases cs with
    | nil => rfl
    | cons c cs => rw [integerFrom, digit?_of_isGap (hcs c rfl)]
  induction htidy using Tidied.by_head generalizing significand with
  | gap htidy hcs hds =>
      rw [hgap hcs] at hread
      exact (survives_numberTail _ _ htidy hread).congr (hgap hds) le_rfl
  | char c htidy _ ih =>
      cases hdigit : digit? c with
      | none =>
          simp only [integerFrom, hdigit] at hread
          exact (survives_numberTail _ _ (htidy.same c) hread).congr
            (by simp only [integerFrom, hdigit]) le_rfl
      | some d =>
          simp only [integerFrom, hdigit] at hread
          split_ifs at hread with hsmall
          · exact (ih _ hread).congr (by simp only [integerFrom, hdigit, if_pos hsmall]) (by simp)
          · exact (survives_longInteger _ _ _ (htidy.same c) hread).congr
              (by simp only [integerFrom, hdigit, if_neg hsmall]) le_rfl

theorem number?_zero {negative : Bool} (h : ∀ c ∈ cs.head?, digit? c = none) :
    number? negative ('0' :: cs) = numberTail negative 0 cs := by
  cases cs with
  | nil => rfl
  | cons c cs => simp [number?, h c rfl]

/-- A number that does not start with zero starts with another digit. -/
theorem number?_of_ne_zero {negative : Bool} {r : Number × List Char} (hzero : c ≠ '0')
    (h : number? negative (c :: cs) = .ok r) :
    ∃ d, digit? c = some d ∧
      ∀ ds, number? negative (c :: ds) = integerFrom negative d ds := by
  rw [number?.eq_def] at h
  split at h
  · cases ‹_ :: _ = []›
  · exact absurd (List.cons.inj ‹_›).1 hzero
  · rename_i heq
    obtain ⟨rfl, rfl⟩ := List.cons.inj heq
    cases hdigit : digit? c with
    | none =>
        rw [hdigit] at h
        cases h
    | some d =>
        refine ⟨d, rfl, fun ds => ?_⟩
        simp [number?, hdigit]

/-- A number takes at least one character. -/
theorem again_number? {negative : Bool} {x : Number} (htidy : Tidied cs ds)
    (hread : number? negative cs = .ok (x, rest)) :
    Again (number? negative) ds x rest ds.length := by
  cases htidy using Tidied.by_head with
  | gap htidy hcs hds =>
      cases cs with
      | nil => cases hread
      | cons c cs =>
          have hgap := hcs c rfl
          obtain ⟨d, hdigit, _⟩ := number?_of_ne_zero (by rintro rfl; cases hgap) hread
          rw [digit?_of_isGap hgap] at hdigit
          cases hdigit
  | @char cs ds c htidy _ _ =>
      by_cases hzero : c = '0'
      · subst hzero
        have hcs : ∀ c ∈ cs.head?, digit? c = none := by
          intro c hc
          obtain ⟨more, rfl⟩ := List.head?_eq_some_iff.1 hc
          by_contra hdigit
          rw [number?, if_pos (Option.isSome_iff_ne_none.2 hdigit)] at hread
          cases hread
        have hds : ∀ c ∈ ds.head?, digit? c = none := by
          intro c hc
          rcases htidy.head c hc with hgap | hhead
          · exact digit?_of_isGap hgap
          · exact hcs c hhead
        rw [number?_zero hcs] at hread
        exact (survives_numberTail _ _ htidy hread).congr (number?_zero hds) le_rfl
      · obtain ⟨d, _, heq⟩ := number?_of_ne_zero hzero hread
        rw [heq] at hread
        exact (survives_integerFrom _ _ htidy hread).congr (heq ds) le_rfl

/-! ## Strings -/

/-- No line ends in the text. -/
def Solid (token : List Char) : Prop :=
  '\n' ∉ token ∧ '\r' ∉ token

/-- A token is kept. -/
theorem Tidied.append_inv {token : List Char} (h : Tidied (token ++ cs) ds) (htoken : Solid token) :
    ∃ more, ds = token ++ more ∧ Tidied cs more := by
  induction token generalizing ds with
  | nil => exact ⟨ds, rfl, h⟩
  | cons c token ih =>
      obtain ⟨hfeed, hreturn⟩ := htoken
      obtain ⟨more, rfl, hmore⟩ := h.cons_inv (fun heq => hfeed (by simp [heq]))
        (fun heq => hreturn (by simp [heq]))
      obtain ⟨left, rfl, hleft⟩ := ih hmore
        ⟨fun hmem => hfeed (.tail c hmem), fun hmem => hreturn (.tail c hmem)⟩
      exact ⟨left, rfl, hleft⟩

theorem solid_of_hexUnit? {a b c d : Char} {n : Nat} (h : hexUnit? a b c d = some n) :
    Solid [a, b, c, d] := by
  have hdigit : ∀ e ∈ [a, b, c, d], (hexDigit? e).isSome = true := by
    simp only [hexUnit?, Option.bind_eq_bind, Option.bind_eq_some_iff] at h
    obtain ⟨_, ha, _, hb, _, hc, _, hd, _⟩ := h
    simp [ha, hb, hc, hd]
  exact ⟨fun hmem => absurd (hdigit _ hmem) (by decide), fun hmem => absurd (hdigit _ hmem) (by decide)⟩

theorem Solid.append {token token' : List Char} (h : Solid token) (h' : Solid token') :
    Solid (token ++ token') :=
  ⟨by simp [h.1, h'.1], by simp [h.2, h'.2]⟩

/-- A string is read in steps: what is read of a token does not depend on what comes after it. -/
theorem again_of_step {read other : List Char → Reading α} {token : List Char} {x : α}
    (htoken : Solid token) (hstep : ∀ more, read (token ++ more) = other more)
    (htidy : Tidied (token ++ cs) ds)
    (hother : ∀ {ds}, Tidied cs ds → Again other ds x rest (ds.length + 1)) :
    Again read ds x rest (ds.length + 1) := by
  obtain ⟨more, rfl, hmore⟩ := htidy.append_inv htoken
  exact (hother hmore).congr (hstep more) (by simp)

/-- A string holds no raw line end, so it is read alike after tidying. -/
theorem survives_stringFrom (back : List Char) : Survives (stringFrom back) := by
  intro cs ds rest x htidy hread
  fun_induction stringFrom back cs generalizing ds with
  | case2 back cs =>
      cases hread
      obtain ⟨more, rfl, hmore⟩ := htidy.cons_inv (by decide) (by decide)
      exact ⟨more, rfl, hmore, Nat.lt_succ_of_lt (Nat.lt_succ_self _)⟩
  | case9 back a b c d n hn hlow hhigh e f g h cs m hm hpair ih =>
      have hsolid : Solid (['\\', 'u'] ++ [a, b, c, d] ++ (['\\', 'u'] ++ [e, f, g, h])) :=
        (Solid.append ⟨by decide, by decide⟩ (solid_of_hexUnit? hn)).append
          (.append ⟨by decide, by decide⟩ (solid_of_hexUnit? hm))
      refine again_of_step hsolid (fun more => ?_) htidy fun hmore => ih hmore hread
      simp [stringFrom, hn, hlow, hhigh, hm, hpair]
  | case14 back a b c d cs n hn hlow hhigh ih =>
      have hsolid : Solid (['\\', 'u'] ++ [a, b, c, d]) :=
        .append ⟨by decide, by decide⟩ (solid_of_hexUnit? hn)
      refine again_of_step hsolid (fun more => ?_) htidy fun hmore => ih hmore hread
      exact stringFrom_unit back more hn (by simpa using hlow) (by simpa using hhigh)
  | case16 back c cs _ e he ih =>
      have hsolid : Solid ['\\', c] := by
        refine ⟨?_, ?_⟩ <;> (intro hmem; simp at hmem; subst hmem; cases he)
      exact again_of_step hsolid (fun more => stringFrom_simple he) htidy fun hmore => ih hmore hread
  | case19 back c cs hquote hslash hplain ih =>
      have hsolid : Solid [c] := by
        refine ⟨?_, ?_⟩ <;> (intro hmem; simp at hmem; subst hmem; exact hplain (by decide))
      exact again_of_step hsolid (fun more => stringFrom_plain hquote hslash hplain) htidy
        fun hmore => ih hmore hread
  | _ => cases hread

/-! ## Lists and objects -/

/-- Where the first reader reads a value, the second reads it in each tidied text of fewer than `n`
characters, and takes at least one of them. -/
def Carries (n : Nat) (item item' : List Char → Reading α) : Prop :=
  ∀ {cs ds rest : List Char} {x : α}, Tidied cs ds → ds.length < n → item cs = .ok (x, rest) →
    Again item' ds x rest ds.length

/-- The reader does not read what no token begins with. -/
def Refuses (item : List Char → Reading α) : Prop :=
  ∀ {c : Char} {cs : List Char} {r : α × List Char}, item (c :: cs) = .ok r → ¬ Alien c

theorem length_le_of_skipGap {token : List Char} (h : skipGap cs = token) :
    token.length ≤ cs.length :=
  h ▸ (List.dropWhile_suffix isGap).length_le

section

variable {n : Nat} {item item' : List Char → Reading Json}

/-- A member is carried over when its value is. -/
theorem carries_member (hitem : Carries n item item') : Carries n (member item) (member item') := by
  intro cs ds rest x htidy hn hread
  rw [member] at hread
  split at hread
  · cases hread
  · rename_i name after hname
    obtain ⟨left, hleft, htidy, hlt⟩ := survives_stringFrom [] htidy hname
    split at hread
    · cases hread
    · rename_i colon hskip
      obtain ⟨more, hmore, htidy⟩ := htidy.skip_cons hskip (by decide)
      have hlength := length_le_of_skipGap hmore
      rw [List.length_cons] at hlength
      split at hread
      · cases hread
      · rename_i y rest' hy
        cases hread
        obtain ⟨left', hleft', htidy, hlt'⟩ := hitem htidy (by omega) hy
        refine ⟨left', ?_, htidy, by omega⟩
        simp only [member, hleft, hmore, hleft']
    · cases hread

/-- Induction on the fuel of the item loop; the remaining text bounds the fuel on the other side.
-/
theorem again_items (hitem : Carries n item item') (hrefuses : Refuses item) {fuel fuel' : Nat}
    {first : Bool} {back : List Json} {x : Json} (htidy : Tidied cs ds) (hn : ds.length < n)
    (hfuel : ds.length < fuel') (hread : itemsFrom item fuel first back cs = .ok (x, rest)) :
    Again (itemsFrom item' fuel' first back) ds x rest ds.length := by
  induction fuel generalizing fuel' first back cs ds with
  | zero => cases hread
  | succ fuel ih =>
      obtain ⟨fuel', rfl⟩ : ∃ more, fuel' = more + 1 := ⟨fuel' - 1, by omega⟩
      -- An item is read again, and so are those after it.
      have hmore : ∀ {y : Json} {before part after : List Char}, Tidied before part →
          part.length ≤ ds.length → item before = .ok (y, after) →
          itemsFrom item fuel false (y :: back) after = .ok (x, rest) →
          ∃ left, item' part = .ok (y, left) ∧
            Again (itemsFrom item' fuel' false (y :: back)) left x rest ds.length := by
        intro y before part after htidy hle hy hafter
        obtain ⟨left, hleft, htidy, hlt⟩ := hitem htidy (by omega) hy
        refine ⟨left, hleft, ?_⟩
        exact (ih htidy (by omega) (by omega) hafter).congr rfl (by omega)
      rw [itemsFrom] at hread
      split at hread
      · cases hread
      · rename_i hskip
        cases hread
        obtain ⟨more, hmore, htidy⟩ := htidy.skip_cons hskip (by decide)
        exact ⟨more, by simp [itemsFrom, hmore], htidy, length_le_of_skipGap hmore⟩
      · rename_i c after hclose hskip
        split_ifs at hread with hfirst hcomma
        · subst hfirst
          split at hread
          · cases hread
          · rename_i y after' hy
            obtain ⟨more, hskip', htidy⟩ := htidy.skip_cons hskip (hrefuses hy)
            obtain ⟨left, hleft, hagain⟩ :=
              hmore (htidy.same c) (length_le_of_skipGap hskip') hy hread
            exact hagain.congr (by simp [itemsFrom, hskip', hleft]) le_rfl
        · obtain ⟨more, hskip', htidy⟩ := htidy.skip_cons hskip (by subst hcomma; decide)
          have hlength := length_le_of_skipGap hskip'
          rw [List.length_cons] at hlength
          split at hread
          · cases hread
          · cases hread
          · rename_i hnil hbracket
            split at hread
            · cases hread
            · rename_i y after' hy
              cases hafter : skipGap after with
              | nil => exact absurd hafter hnil
              | cons d part =>
                  rw [hafter] at hy
                  obtain ⟨part', hpart', htidy⟩ := htidy.skip_cons hafter (hrefuses hy)
                  have hlength' := length_le_of_skipGap hpart'
                  obtain ⟨left, hleft, hagain⟩ := hmore (htidy.same d) (by omega) hy hread
                  have hd : d ≠ ']' := by
                    rintro rfl
                    exact hbracket _ hafter
                  refine hagain.congr ?_ le_rfl
                  simp [itemsFrom, hskip', hfirst, hcomma, hpart', hleft, hd]

/-- Induction on the fuel of the member loop, as for items. -/
theorem again_members (hitem : Carries n item item') {fuel fuel' : Nat} {first : Bool}
    {found : List (String × Json)} {x : Json} (htidy : Tidied cs ds) (hn : ds.length < n)
    (hfuel : ds.length < fuel') (hread : membersFrom item fuel first found cs = .ok (x, rest)) :
    Again (membersFrom item' fuel' first found) ds x rest ds.length := by
  induction fuel generalizing fuel' first found cs ds with
  | zero => cases hread
  | succ fuel ih =>
      obtain ⟨fuel', rfl⟩ : ∃ more, fuel' = more + 1 := ⟨fuel' - 1, by omega⟩
      -- A member is read again, and so are those after it.
      have hmore : ∀ {name : String} {y : Json} {before part after : List Char},
          Tidied before part → part.length < ds.length → member item before = .ok ((name, y), after) →
          membersFrom item fuel false (Assoc.insert name y found) after = .ok (x, rest) →
          ∃ left, member item' part = .ok ((name, y), left) ∧
            Again (membersFrom item' fuel' false (Assoc.insert name y found)) left x rest
              ds.length := by
        intro name y before part after htidy hle hy hafter
        obtain ⟨left, hleft, htidy, hlt⟩ := carries_member hitem htidy (by omega) hy
        refine ⟨left, hleft, ?_⟩
        exact (ih htidy (by omega) (by omega) hafter).congr rfl (by omega)
      rw [membersFrom] at hread
      split at hread
      · cases hread
      · rename_i hskip
        cases hread
        obtain ⟨more, hmore, htidy⟩ := htidy.skip_cons hskip (by decide)
        exact ⟨more, by simp [membersFrom, hmore], htidy, length_le_of_skipGap hmore⟩
      · rename_i c after hclose hskip
        split_ifs at hread with hfirst hquote hcomma
        · subst hfirst hquote
          split at hread
          · cases hread
          · rename_i name y after' hy
            obtain ⟨more, hskip', htidy⟩ := htidy.skip_cons hskip (by decide)
            obtain ⟨left, hleft, hagain⟩ := hmore htidy (length_le_of_skipGap hskip') hy hread
            exact hagain.congr (by simp [membersFrom, hskip', hleft]) le_rfl
        · subst hcomma
          obtain ⟨more, hskip', htidy⟩ := htidy.skip_cons hskip (by decide)
          have hlength := length_le_of_skipGap hskip'
          rw [List.length_cons] at hlength
          split at hread
          · cases hread
          · rename_i part hpart
            split at hread
            · cases hread
            · rename_i name y after' hy
              obtain ⟨part', hpart', htidy⟩ := htidy.skip_cons hpart (by decide)
              have hlength' := length_le_of_skipGap hpart'
              rw [List.length_cons] at hlength'
              obtain ⟨left, hleft, hagain⟩ := hmore htidy (by omega) hy hread
              refine hagain.congr ?_ le_rfl
              simp [membersFrom, hskip', hfirst, hpart', hleft]
          · cases hread
          · cases hread

end

/-! ## Values -/

/-- The characters that words, strings, lists and objects begin with. -/
def openers : List Char :=
  ['n', 't', 'f', '"', '[', '{']

theorem digit?_of_openers : ∀ c ∈ '-' :: openers, digit? c = none := by
  rw [openers]
  simp [digit?]

theorem value_of_sign {fuel levels : Nat} (hskip : skipGap cs = '-' :: rest) :
    value fuel levels cs = (number? true rest).map fun r => (.number r.1, r.2) := by
  rw [value.eq_def, hskip]
  cases h : number? true rest <;> simp [h, Except.map]

theorem value_of_digit {fuel levels : Nat} (hskip : skipGap cs = c :: rest)
    (hdigit : (digit? c).isSome = true) :
    value fuel levels cs = (number? false (c :: rest)).map fun r => (.number r.1, r.2) := by
  have hother : c ∉ '-' :: openers := by
    intro hmem
    rw [digit?_of_openers c hmem] at hdigit
    cases hdigit
  simp only [openers, List.mem_cons, List.not_mem_nil, or_false, not_or] at hother
  rw [value.eq_def, hskip]
  cases h : number? false (c :: rest) <;> simp [hother, hdigit, h, Except.map]

/-- No value begins with another character. -/
theorem value_of_other {fuel levels : Nat} {r : Json × List Char} (hskip : skipGap cs = c :: rest)
    (hopens : c ∉ '-' :: openers) (hdigit : digit? c = none) : value fuel levels cs ≠ .ok r := by
  simp only [openers, List.mem_cons, List.not_mem_nil, or_false, not_or] at hopens
  rw [value.eq_def, hskip]
  simp [hopens, hdigit]

/-- No value is read where an alien character stands. -/
theorem refuses_value (fuel levels : Nat) : Refuses (value fuel levels) := by
  rintro c cs r hread ⟨hgap, hdigit, htoken⟩
  have hopens : c ∉ '-' :: openers := by
    simp only [openers, List.mem_cons, List.not_mem_nil, or_false] at htoken ⊢
    tauto
  exact value_of_other (skipGap_cons hgap cs) hopens hdigit hread

theorem Again.map {β : Type} {read : List Char → Reading α} {other : List Char → Reading β}
    {f : α → β} {es : List Char} {x : β} {n m : Nat}
    (hagain : ∀ {y}, read cs = .ok (y, rest) → Again read ds y rest n)
    (hread : (read cs).map (fun r => (f r.1, r.2)) = .ok (x, rest))
    (heq : other es = (read ds).map fun r => (f r.1, r.2)) (hle : n ≤ m) :
    Again other es x rest m := by
  cases hcs : read cs with
  | error stop =>
      rw [hcs] at hread
      cases hread
  | ok r =>
      rw [hcs] at hread
      cases hread
      obtain ⟨left, hleft, htidy, hlt⟩ := hagain hcs
      exact ⟨left, by rw [heq, hleft]; rfl, htidy, Nat.lt_of_lt_of_le hlt hle⟩

/-- The readings of one level are carried over when those of the level below are. -/
theorem carries_of_below {n fuel levels : Nat}
    (hbelow : ∀ below, levels = below + 1 → Carries n (value fuel below) (value n below)) :
    Carries n (value fuel levels) (value n levels) := by
  intro cs ds rest x htidy hn hread
  -- A number is read from its sign or first digit on, which no tidying touches.
  have hnumber : ∀ {c : Char} {after : List Char}, skipGap cs = c :: after → c ∉ openers →
      Again (value n levels) ds x rest ds.length := by
    intro c after hskip hopens
    by_cases hminus : c = '-'
    · subst hminus
      obtain ⟨more, hmore, htidy⟩ := htidy.skip_cons hskip (by decide)
      rw [value_of_sign hskip] at hread
      exact Again.map (again_number? htidy) hread (value_of_sign hmore)
        (Nat.le_of_succ_le (length_le_of_skipGap hmore))
    · by_cases hdigit : (digit? c).isSome = true
      · obtain ⟨more, hmore, htidy⟩ := htidy.skip_cons hskip fun halien => by
          rw [halien.2.1] at hdigit
          cases hdigit
        rw [value_of_digit hskip hdigit] at hread
        exact Again.map (again_number? (htidy.same c)) hread (value_of_digit hmore hdigit)
          (length_le_of_skipGap hmore)
      · exact absurd hread (value_of_other hskip (by simp [hminus, hopens]) (by simpa using hdigit))
  -- The three literals are one case: letters that hold no line end.
  have hword : ∀ {w : Json} {c : Char} {letters after : List Char}, skipGap cs = c :: after →
      ¬ Alien c → '\n' ∉ letters ∧ '\r' ∉ letters →
      (∀ ds more, skipGap ds = c :: more → value n levels ds = word w letters more) →
      word w letters after = .ok (x, rest) → Again (value n levels) ds x rest ds.length := by
    intro w c letters after hskip halien hletters heq hread
    obtain ⟨more, hmore, htidy⟩ := htidy.skip_cons hskip halien
    exact (survives_word w letters hletters htidy hread).congr (heq ds more hmore)
      (length_le_of_skipGap hmore)
  rw [value.eq_def] at hread
  split at hread
  · cases hread
  · rename_i hskip
    exact hword hskip (by decide) (by decide)
      (fun ds more hmore => by rw [value.eq_def, hmore]; rfl) hread
  · rename_i hskip
    exact hword hskip (by decide) (by decide)
      (fun ds more hmore => by rw [value.eq_def, hmore]; rfl) hread
  · rename_i hskip
    exact hword hskip (by decide) (by decide)
      (fun ds more hmore => by rw [value.eq_def, hmore]; rfl) hread
  · rename_i hskip
    split at hread
    · cases hread
    · rename_i s after hs
      cases hread
      obtain ⟨more, hmore, htidy⟩ := htidy.skip_cons hskip (by decide)
      -- A string ends within what is left, so the fuel of the other side is enough.
      obtain ⟨left, hleft, htidy, hlt⟩ := survives_stringFrom [] htidy hs
      refine ⟨left, ?_, htidy, Nat.lt_of_lt_of_le hlt (length_le_of_skipGap hmore)⟩
      rw [value.eq_def, hmore]
      simp only [hleft]
  · rename_i hskip
    obtain ⟨more, hmore, htidy⟩ := htidy.skip_cons hskip (by decide)
    -- Only the brackets go a level down, where `hbelow` takes over.
    have hle : more.length < ds.length := length_le_of_skipGap hmore
    have hlt : more.length < n := Nat.lt_trans hle hn
    split at hread
    · cases hread
    · exact (again_items (hbelow _ rfl) (refuses_value _ _) htidy hlt hlt hread).congr
        (by rw [value.eq_def, hmore]; rfl) (Nat.le_of_lt hle)
  · rename_i hskip
    obtain ⟨more, hmore, htidy⟩ := htidy.skip_cons hskip (by decide)
    have hle : more.length < ds.length := length_le_of_skipGap hmore
    have hlt : more.length < n := Nat.lt_trans hle hn
    split at hread
    · cases hread
    · exact (again_members (hbelow _ rfl) htidy hlt hlt hread).congr
        (by rw [value.eq_def, hmore]; rfl) (Nat.le_of_lt hle)
  · rename_i c after hnull htrue hfalse hquote hlist hobject hskip
    refine hnumber hskip ?_
    simp only [openers, List.mem_cons, List.not_mem_nil, or_false, not_or]
    exact ⟨hnull, htrue, hfalse, hquote, hlist, hobject⟩

/-- Induction on the depth: every value is read again from the tidied text. -/
theorem carries_value (n fuel levels : Nat) : Carries n (value fuel levels) (value n levels) := by
  induction levels with
  | zero =>
      refine carries_of_below ?_
      intro below h
      cases h
  | succ levels ih =>
      refine carries_of_below ?_
      intro below h
      exact Nat.succ.inj h ▸ ih

/-- A text that opens with an alien character is refused, after any blanks. -/
theorem parseChars_alien {gap : List Char} {x : Json} (hgap : Blank gap) (hc : Alien c) :
    parseChars (gap ++ c :: cs) ≠ .ok x := by
  intro h
  rw [parseChars, value_append hgap] at h
  split at h
  · cases h
  · rename_i hvalue
    exact refuses_value _ _ hvalue hc

/-- What is read of a text is read of the tidied text too. -/
theorem parseChars_of_tidied {x : Json} (htidy : Tidied cs ds) (h : parseChars cs = .ok x) :
    parseChars ds = .ok x := by
  rw [parseChars] at h
  split at h
  · cases h
  · rename_i y rest hvalue
    split at h
    · rename_i hblank
      cases h
      obtain ⟨left, hleft, htidy, _⟩ := carries_value (ds.length + 1) _ _ htidy (by omega) hvalue
      simp only [parseChars, hleft, htidy.skip_nil hblank]
    · cases h

end Json
end ProjectConsistency
