import Mathlib.Tactic.IntervalCases
import ProjectConsistency.Json.Parser
import ProjectConsistency.Json.Printer

/-!
# Written — the parser reads every text that stands for a value

This file defines:

* `Json.Row` — parts with commas between them and blanks around them, up to a closing bracket;
* `Json.Entry` — a member of an object and how it is written;
* `Json.Written` — the texts that stand for a value;
* `Json.IsDocument` — such a text with blanks around it.

Blanks are free in such texts and members come in any order; strings and integers are spelled in
one way.  Characters and digits are read back one by one (`stringFrom_quote`, `value_integer`), rows
part by part (`itemsFrom_of_row`, `membersFrom_of_row`), and values by induction on how they are
written (`value_of_written`): what comes after a value ends it, as it is a blank, a comma or a
bracket.  So a document is parsed as the value that it holds (`parse_of_isDocument`).
-/

namespace ProjectConsistency
namespace Json

/-! ## Strings -/

/-- The two digits of a control character are read back as its code. -/
theorem hexUnit?_hexChar :
    ∀ n < 0x20, hexUnit? '0' '0' (hexChar (n / 16)) (hexChar (n % 16)) = some n := by
  decide

/-- A written code unit that is no surrogate is read as its character. -/
theorem stringFrom_unit (back rest : List Char) {a b c d : Char} {n : Nat}
    (hunit : hexUnit? a b c d = some n) (hlow : isLowSurrogate n = false)
    (hhigh : isHighSurrogate n = false) :
    stringFrom back ('\\' :: 'u' :: a :: b :: c :: d :: rest)
      = stringFrom (Char.ofNat n :: back) rest := by
  rw [stringFrom]
  simp [hunit, hlow, hhigh]

theorem stringFrom_simple {back rest : List Char} {c e : Char} (h : simpleEscape? c = some e) :
    stringFrom back ('\\' :: c :: rest) = stringFrom (e :: back) rest := by
  have hu : c ≠ 'u' := by
    rintro rfl
    cases h
  rw [stringFrom.eq_def]
  simp [h]

/-- Every character but a quote, a backslash and the controls is read as itself. -/
theorem stringFrom_plain {back rest : List Char} {c : Char} (hquote : c ≠ '"') (hslash : c ≠ '\\')
    (hplain : ¬ c.toNat < 0x20) : stringFrom back (c :: rest) = stringFrom (c :: back) rest := by
  rw [stringFrom, if_neg hplain]
  · exact hquote
  · exact hslash

/-- A character is read as it is written. -/
theorem stringFrom_escape (back rest : List Char) (c : Char) :
    stringFrom back (escape c ++ rest) = stringFrom (c :: back) rest := by
  fun_cases escape c with
  | case1 => exact stringFrom_simple rfl
  | case2 => exact stringFrom_simple rfl
  | case3 => exact stringFrom_simple rfl
  | case4 => exact stringFrom_simple rfl
  | case5 => exact stringFrom_simple rfl
  | case6 _ hcode =>
      have hc : c = Char.ofNat 8 := by rw [← hcode, Char.ofNat_toNat]
      rw [if_pos hcode, hc]
      exact stringFrom_simple rfl
  | case7 _ hother hcode =>
      have hc : c = Char.ofNat 12 := by rw [← hcode, Char.ofNat_toNat]
      rw [if_neg hother, if_pos hcode, hc]
      exact stringFrom_simple rfl
  | case8 _ hback hfeed hcontrol =>
      rw [if_neg hback, if_neg hfeed, if_pos hcontrol]
      have hlow : isLowSurrogate c.toNat = false := by simp [isLowSurrogate]; omega
      have hhigh : isHighSurrogate c.toNat = false := by simp [isHighSurrogate]; omega
      have hread := stringFrom_unit back rest (hexUnit?_hexChar _ hcontrol) hlow hhigh
      rwa [Char.ofNat_toNat] at hread
  | case9 _ hback hfeed hplain hquote hslash =>
      rw [if_neg hback, if_neg hfeed, if_neg hplain]
      exact stringFrom_plain hquote hslash hplain

/-- A string is read as it is written. -/
theorem stringFrom_quote (back cs rest : List Char) :
    stringFrom back (cs.flatMap escape ++ '"' :: rest)
      = .ok (String.ofList (back.reverse ++ cs), rest) := by
  induction cs generalizing back with
  | nil => simp [stringFrom]
  | cons c cs ih =>
      rw [List.flatMap_cons, List.append_assoc, stringFrom_escape, ih]
      simp

/-! ## Integers -/

/-- A decimal digit is read back as its value. -/
theorem digit?_digitChar {d : Nat} (h : d < 10) : digit? (Nat.digitChar d) = some d := by
  revert d
  decide

/-- Digits are read one after the other. -/
theorem integerFrom_toDigits (negative : Bool) {n : Nat} (h : n < wordLimit) (rest : List Char) :
    integerFrom negative 0 (Nat.toDigits 10 n ++ rest) = integerFrom negative n rest := by
  induction n using Nat.strongRecOn generalizing rest with
  | ind n ih =>
      by_cases hone : n < 10
      · rw [Nat.toDigits_of_lt_base hone, List.singleton_append, integerFrom, digit?_digitChar hone]
        simp [h]
      · -- All digits but the last are those of a tenth, which is read first.
        have hdigit : n % 10 < 10 := Nat.mod_lt n (by omega)
        have hparts : n / 10 * 10 + n % 10 = n := by omega
        rw [Nat.toDigits_of_base_le (by omega) (by omega), List.append_assoc,
          ih (n / 10) (by omega) (by omega), List.singleton_append, integerFrom,
          digit?_digitChar hdigit]
        simp [hparts, h]

/-- The digits of a number begin with one that is not zero, unless it is zero. -/
theorem toDigits_cons (n : Nat) :
    ∃ d rest, (0 < n → 0 < d) ∧ d < 10 ∧ Nat.toDigits 10 n = Nat.digitChar d :: rest := by
  induction n using Nat.strongRecOn with
  | ind n ih =>
      by_cases hone : n < 10
      · exact ⟨n, [], id, hone, Nat.toDigits_of_lt_base hone⟩
      · obtain ⟨d, rest, hpos, hlt, heq⟩ := ih (n / 10) (by omega)
        refine ⟨d, rest ++ [Nat.digitChar (n % 10)], fun _ => hpos (by omega), hlt, ?_⟩
        rw [Nat.toDigits_of_base_le (by omega) (by omega), heq, List.cons_append]

theorem text_ofNat (n : Nat) : (Number.integer n).text.toList = Nat.toDigits 10 n :=
  Nat.toList_repr

theorem text_negSucc (n : Nat) :
    (Number.integer (Int.negSucc n)).text.toList = '-' :: Nat.toDigits 10 (n + 1) := by
  change ("-" ++ Nat.repr (n + 1)).toList = _
  rw [String.toList_append, Nat.toList_repr]
  rfl

/-- What may come after a value: nothing, a blank, or what goes on or closes a list or an object. -/
def Ends (rest : List Char) : Prop :=
  ∀ c ∈ rest.head?, isGap c = true ∨ c = ',' ∨ c = ']' ∨ c = '}'

theorem Ends.cons {c : Char} {rest : List Char} (h : Ends (c :: rest)) :
    isGap c = true ∨ c = ',' ∨ c = ']' ∨ c = '}' :=
  h c (by simp)

/-- What comes after a value does not go on with a number. -/
theorem Ends.not_number {c : Char} {rest : List Char} (h : Ends (c :: rest)) :
    digit? c = none ∧ c ≠ '.' ∧ c ≠ 'e' ∧ c ≠ 'E' := by
  rcases h.cons with hgap | rfl | rfl | rfl
  · simp only [isGap, Bool.or_eq_true, beq_iff_eq] at hgap
    rcases hgap with ((rfl | rfl) | rfl) | rfl <;> decide
  all_goals decide

/-- A number ends where no digit follows. -/
theorem integerFrom_of_ends {negative : Bool} {n : Nat} {rest : List Char} (h : Ends rest) :
    integerFrom negative n rest = numberTail negative n rest := by
  cases rest with
  | nil => rfl
  | cons c rest => simp [integerFrom, h.not_number.1]

/-- A number that ends is whole, and within the limits keeps its sign. -/
theorem numberTail_of_ends {negative : Bool} {n : Nat} {rest : List Char} (h : Ends rest)
    (hn : negative = true → 0 < n ∧ n ≤ negativeLimit) :
    numberTail negative n rest = .ok (.integer (if negative then -(n : Int) else n), rest) := by
  have htail : numberTail negative n rest
      = if !negative then .ok (.integer n, rest)
        else if n = 0 || negativeLimit < n then
          .ok (.double (Double.withSign true (UInt64.ofNat n).toFloat), rest)
        else .ok (.integer (-(n : Int)), rest) := by
    cases rest with
    | nil => rfl
    | cons c rest =>
        obtain ⟨_, hdot, hlower, hupper⟩ := h.not_number
        rw [numberTail.eq_def]
        split
        · exact absurd (List.cons.inj ‹_›).1 hdot
        · exact absurd (List.cons.inj ‹_›).1 hlower
        · exact absurd (List.cons.inj ‹_›).1 hupper
        · rfl
  rw [htail]
  cases negative with
  | false => rfl
  | true =>
      obtain ⟨hpos, hle⟩ := hn rfl
      have hfits : ¬ (n = 0 ∨ negativeLimit < n) := by omega
      simp [hfits]

/-- A number is read as it is written, with or without a sign before it. -/
theorem number?_toDigits {negative : Bool} {n : Nat} {rest : List Char} (hn : n < wordLimit)
    (hnegative : negative = true → 0 < n ∧ n ≤ negativeLimit) (h : Ends rest) :
    number? negative (Nat.toDigits 10 n ++ rest)
      = .ok (.integer (if negative then -(n : Int) else n), rest) := by
  -- Zero is read on its own, since no digit may follow it.
  by_cases hzero : n = 0
  · subst hzero
    have hzero : number? negative ('0' :: rest) = numberTail negative 0 rest := by
      cases rest with
      | nil => rfl
      | cons c rest => simp [number?, h.not_number.1]
    rw [Nat.toDigits_zero, List.singleton_append, hzero, numberTail_of_ends h hnegative]
  · obtain ⟨d, more, hpos, hlt, heq⟩ := toDigits_cons n
    have hfirst : number? negative (Nat.digitChar d :: (more ++ rest))
        = integerFrom negative 0 (Nat.digitChar d :: (more ++ rest)) := by
      have hlimit : d < wordLimit := by
        unfold wordLimit
        omega
      have hne : Nat.digitChar d ≠ '0' := by
        rw [Ne, Nat.digitChar_eq_zero]
        exact Nat.ne_of_gt (hpos (Nat.pos_of_ne_zero hzero))
      rw [number?.eq_def, integerFrom, digit?_digitChar hlt]
      split
      · cases ‹_ :: _ = []›
      · exact absurd (List.cons.inj ‹_›).1 hne
      · rename_i heq
        obtain ⟨rfl, rfl⟩ := List.cons.inj heq
        simp [digit?_digitChar hlt, hlimit]
    rw [heq, List.cons_append, hfirst, ← List.cons_append, ← heq, integerFrom_toDigits _ hn,
      integerFrom_of_ends h, numberTail_of_ends h hnegative]

theorem value_digitChar {fuel levels d : Nat} {rest : List Char} (h : d < 10) :
    value fuel levels (Nat.digitChar d :: rest)
      = (number? false (Nat.digitChar d :: rest)).map fun r => (.number r.1, r.2) := by
  rw [value.eq_def]
  -- None of the ten digits is a blank or one of the other characters that a value begins with.
  have hdigit := digit?_digitChar h
  rcases hnumber : number? false (Nat.digitChar d :: rest) with _ | ⟨_, _⟩ <;>
    interval_cases d <;> simp [Nat.digitChar] at hdigit hnumber <;>
    simp [skipGap, isGap, Nat.digitChar, hdigit, hnumber, Except.map]

theorem value_minus {fuel levels : Nat} {rest : List Char} :
    value fuel levels ('-' :: rest)
      = (number? true rest).map fun r => (.number r.1, r.2) := by
  rw [value.eq_def]
  rcases h : number? true rest with _ | ⟨_, _⟩ <;> simp [skipGap, isGap, h, Except.map]

/-- An integer that fits 64 bits is read as it is written. -/
theorem value_integer {fuel levels : Nat} {n : Int} {rest : List Char}
    (hlow : -(negativeLimit : Int) ≤ n) (hhigh : n < wordLimit) (h : Ends rest) :
    value fuel levels ((Number.integer n).text.toList ++ rest)
      = .ok (.number (.integer n), rest) := by
  cases n with
  | ofNat m =>
      have hm : m < wordLimit := by simpa using hhigh
      have hnumber : number? false (Nat.toDigits 10 m ++ rest) = .ok (.integer m, rest) :=
        number?_toDigits hm nofun h
      obtain ⟨d, more, _, hlt, heq⟩ := toDigits_cons m
      change value fuel levels ((Number.integer m).text.toList ++ rest) = _
      rw [text_ofNat]
      rw [heq, List.cons_append] at hnumber ⊢
      rw [value_digitChar hlt, hnumber]
      rfl
  | negSucc m =>
      have hm : m + 1 ≤ negativeLimit := by omega
      have hword : m + 1 < wordLimit := Nat.lt_of_le_of_lt hm (by decide)
      have hnumber : number? true (Nat.toDigits 10 (m + 1) ++ rest)
          = .ok (.integer (-((m + 1 : Nat) : Int)), rest) :=
        number?_toDigits hword (fun _ => ⟨Nat.succ_pos m, hm⟩) h
      rw [text_negSucc, List.cons_append, value_minus, hnumber]
      rfl

/-! ## Written values -/

/-- Blanks between tokens. -/
def Blank (gap : List Char) : Prop :=
  ∀ c ∈ gap, isGap c = true

/-- Parts with commas between them and blanks around them, up to a closing bracket.  If `first` does
not hold, there was a part before. -/
inductive Row (close : Char) : Bool → List (List Char) → List Char → Prop where
  | close {first : Bool} {gap : List Char} (hgap : Blank gap) : Row close first [] (gap ++ [close])
  | first {gap part text : List Char} {parts : List (List Char)} (hgap : Blank gap)
      (rest : Row close false parts text) : Row close true (part :: parts) (gap ++ (part ++ text))
  | next {gap gap' part text : List Char} {parts : List (List Char)} (hgap : Blank gap)
      (hgap' : Blank gap') (rest : Row close false parts text) :
      Row close false (part :: parts) (gap ++ ',' :: (gap' ++ (part ++ text)))

/-- A member of an object: its name and its value, and how they are written. -/
structure Entry where
  name : String
  value : Json
  before : List Char
  after : List Char
  text : List Char

/-- The text of a member. -/
def Entry.chars (e : Entry) : List Char :=
  quoteChars e.name.toList ++ (e.before ++ ':' :: (e.after ++ e.text))

def Entry.member (e : Entry) : String × Json :=
  (e.name, e.value)

/-- The text is one of those that stand for the value, with at most `levels` levels of lists and
objects.  Members come in any order, and of equal names the last counts. -/
inductive Written : Nat → Json → List Char → Prop where
  | null (levels : Nat) : Written levels .null ['n', 'u', 'l', 'l']
  | true (levels : Nat) : Written levels (.bool true) ['t', 'r', 'u', 'e']
  | false (levels : Nat) : Written levels (.bool false) ['f', 'a', 'l', 's', 'e']
  | integer (levels : Nat) {n : Int} (low : -(negativeLimit : Int) ≤ n) (high : n < wordLimit) :
      Written levels (.number (.integer n)) (Number.integer n).text.toList
  | string (levels : Nat) (s : String) : Written levels (.string s) (quoteChars s.toList)
  | array {levels : Nat} {items : List (Json × List Char)} {text : List Char}
      (each : ∀ p ∈ items, Written levels p.1 p.2)
      (row : Row ']' true (items.map Prod.snd) text) :
      Written (levels + 1) (.array (items.map Prod.fst)) ('[' :: text)
  | object {levels : Nat} {entries : List Entry} {text : List Char}
      (each : ∀ e ∈ entries, Written levels e.value e.text)
      (blank : ∀ e ∈ entries, Blank e.before ∧ Blank e.after)
      (row : Row '}' true (entries.map Entry.chars) text) :
      Written (levels + 1) (.object (Assoc.ofList (entries.map Entry.member))) ('{' :: text)

/-! ## Blanks -/

theorem blank_nil : Blank [] :=
  nofun

theorem skipGap_append {gap : List Char} (h : Blank gap) (cs : List Char) :
    skipGap (gap ++ cs) = skipGap cs :=
  List.dropWhile_append_of_pos h

theorem skipGap_cons {c : Char} (h : isGap c = false) (cs : List Char) :
    skipGap (c :: cs) = c :: cs := by
  simp [skipGap, h]

theorem value_append {gap : List Char} (h : Blank gap) (fuel levels : Nat) (cs : List Char) :
    value fuel levels (gap ++ cs) = value fuel levels cs := by
  rw [value.eq_def, skipGap_append h, ← value.eq_def]

/-! ## Rows -/

/-- The text of a value begins with a character that opens no gap and closes nothing. -/
def Opens (part : List Char) : Prop :=
  ∃ c more, part = c :: more ∧ isGap c = false ∧ c ≠ ']' ∧ c ≠ '}'

namespace Row

variable {close : Char} {first : Bool} {parts : List (List Char)} {text : List Char}

/-- What comes after a part ends it. -/
theorem ends (h : Row close false parts text) (hclose : close = ']' ∨ close = '}')
    (rest : List Char) : Ends (text ++ rest) := by
  have hgap : ∀ {gap more : List Char} {c : Char}, Blank gap → (c = ',' ∨ c = ']' ∨ c = '}') →
      Ends (gap ++ c :: more) := by
    intro gap more c hgap hc d hd
    cases gap with
    | nil =>
        cases hd
        exact .inr hc
    | cons g gap =>
        cases hd
        exact .inl (hgap _ (by simp))
  cases h with
  | close hblank => simpa using hgap hblank (.inr hclose)
  | next hblank => simpa using hgap hblank (.inl rfl)

theorem length_lt_cons {part longer : List Char} (hopens : Opens part)
    (hlonger : part.length + text.length ≤ longer.length)
    (h : parts.length < text.length ∧ ∀ p ∈ parts, p.length < text.length) :
    (part :: parts).length < longer.length ∧ ∀ p ∈ part :: parts, p.length < longer.length := by
  obtain ⟨hlength, heach⟩ := h
  have hpart : 0 < part.length := by
    obtain ⟨c, more, rfl, _⟩ := hopens
    exact Nat.succ_pos _
  refine ⟨by rw [List.length_cons]; omega, ?_⟩
  intro p hp
  rcases List.mem_cons.1 hp with rfl | hp
  · omega
  · have hshort := heach p hp
    omega

/-- There are fewer parts than characters, and each is shorter than the row. -/
theorem length_lt (h : Row close first parts text) (hparts : ∀ part ∈ parts, Opens part) :
    parts.length < text.length ∧ ∀ part ∈ parts, part.length < text.length := by
  induction h with
  | close => simp
  | first _ _ ih =>
      obtain ⟨hpart, hparts⟩ := List.forall_mem_cons.1 hparts
      exact length_lt_cons hpart (by simp) (ih hparts)
  | next _ _ _ ih =>
      obtain ⟨hpart, hparts⟩ := List.forall_mem_cons.1 hparts
      exact length_lt_cons hpart (by simp; omega) (ih hparts)

end Row

/-! ## Lists -/

section

variable {item : List Char → Reading Json} {fuel : Nat} {back : List Json} {gap rest : List Char}

theorem itemsFrom_close {first : Bool} (hgap : Blank gap) :
    itemsFrom item (fuel + 1) first back (gap ++ ']' :: rest)
      = .ok (.array back.reverse, rest) := by
  rw [itemsFrom, skipGap_append hgap, skipGap_cons (by decide)]
  rfl

theorem itemsFrom_first {part after : List Char} {x : Json} (hgap : Blank gap) (hpart : Opens part)
    (hitem : item (part ++ rest) = .ok (x, after)) :
    itemsFrom item (fuel + 1) true back (gap ++ (part ++ rest))
      = itemsFrom item fuel false (x :: back) after := by
  obtain ⟨c, more, rfl, hc, hclose, _⟩ := hpart
  rw [List.cons_append] at hitem ⊢
  rw [itemsFrom, skipGap_append hgap, skipGap_cons hc]
  simp [hitem]

theorem itemsFrom_next {gap' part after : List Char} {x : Json} (hgap : Blank gap)
    (hgap' : Blank gap') (hpart : Opens part) (hitem : item (part ++ rest) = .ok (x, after)) :
    itemsFrom item (fuel + 1) false back (gap ++ ',' :: (gap' ++ (part ++ rest)))
      = itemsFrom item fuel false (x :: back) after := by
  obtain ⟨c, more, rfl, hc, hclose, _⟩ := hpart
  rw [List.cons_append] at hitem ⊢
  rw [itemsFrom, skipGap_append hgap, skipGap_cons (by decide)]
  simp [skipGap_append hgap', skipGap_cons hc, hitem, hclose]

/-- A list is read from a row of its items. -/
theorem itemsFrom_of_row {first : Bool} {items : List (Json × List Char)} {text : List Char}
    (hrow : Row ']' first (items.map Prod.snd) text) (hopens : ∀ p ∈ items, Opens p.2)
    (hitem : ∀ p ∈ items, ∀ rest, Ends rest → item (p.2 ++ rest) = .ok (p.1, rest))
    (hfuel : items.length < fuel) :
    itemsFrom item fuel first back (text ++ rest)
      = .ok (.array (back.reverse ++ items.map Prod.fst), rest) := by
  generalize hparts : items.map Prod.snd = parts at hrow
  induction hrow generalizing items fuel back with
  | close hgap =>
      obtain rfl := List.map_eq_nil_iff.1 hparts
      obtain ⟨fuel, rfl⟩ := Nat.exists_eq_add_of_lt hfuel
      rw [List.append_assoc, List.singleton_append, itemsFrom_close hgap]
      simp
  | first hgap hrest ih =>
      obtain ⟨p, items, rfl, rfl, rfl⟩ := List.map_eq_cons_iff.1 hparts
      obtain ⟨hopen, hopens⟩ := List.forall_mem_cons.1 hopens
      obtain ⟨hread, hitem⟩ := List.forall_mem_cons.1 hitem
      obtain ⟨fuel, rfl⟩ := Nat.exists_eq_add_of_lt hfuel
      have hends := hrest.ends (.inl rfl) rest
      rw [List.append_assoc, List.append_assoc, itemsFrom_first hgap hopen (hread _ hends),
        ih hopens hitem (by simp; omega) rfl]
      simp
  | next hgap hgap' hrest ih =>
      obtain ⟨p, items, rfl, rfl, rfl⟩ := List.map_eq_cons_iff.1 hparts
      obtain ⟨hopen, hopens⟩ := List.forall_mem_cons.1 hopens
      obtain ⟨hread, hitem⟩ := List.forall_mem_cons.1 hitem
      obtain ⟨fuel, rfl⟩ := Nat.exists_eq_add_of_lt hfuel
      have hends := hrest.ends (.inl rfl) rest
      rw [List.append_assoc, List.cons_append, List.append_assoc, List.append_assoc,
        itemsFrom_next hgap hgap' hopen (hread _ hends), ih hopens hitem (by simp; omega) rfl]
      simp

end

/-! ## Objects -/

section

variable {item : List Char → Reading Json} {fuel : Nat} {found : List (String × Json)}
  {gap rest : List Char}

/-- A member is read after the quote that opens its name. -/
theorem member_of_entry {e : Entry} (hbefore : Blank e.before)
    (hitem : item (e.after ++ (e.text ++ rest)) = .ok (e.value, rest)) :
    ∃ more, e.chars = '"' :: more ∧ member item (more ++ rest) = .ok (e.member, rest) := by
  refine ⟨e.name.toList.flatMap escape ++ '"' :: (e.before ++ ':' :: (e.after ++ e.text)),
    by simp [Entry.chars, quoteChars], ?_⟩
  rw [member, List.append_assoc, List.cons_append, stringFrom_quote]
  simp [skipGap_append hbefore, skipGap_cons, isGap, hitem, Entry.member]

theorem membersFrom_close {first : Bool} (hgap : Blank gap) :
    membersFrom item (fuel + 1) first found (gap ++ '}' :: rest) = .ok (.object found, rest) := by
  rw [membersFrom, skipGap_append hgap, skipGap_cons (by decide)]
  rfl

theorem membersFrom_first {more after : List Char} {name : String} {x : Json} (hgap : Blank gap)
    (hmember : member item more = .ok ((name, x), after)) :
    membersFrom item (fuel + 1) true found (gap ++ '"' :: more)
      = membersFrom item fuel false (Assoc.insert name x found) after := by
  rw [membersFrom, skipGap_append hgap, skipGap_cons (by decide)]
  simp [hmember]

theorem membersFrom_next {gap' more after : List Char} {name : String} {x : Json}
    (hgap : Blank gap) (hgap' : Blank gap')
    (hmember : member item more = .ok ((name, x), after)) :
    membersFrom item (fuel + 1) false found (gap ++ ',' :: (gap' ++ '"' :: more))
      = membersFrom item fuel false (Assoc.insert name x found) after := by
  rw [membersFrom, skipGap_append hgap, skipGap_cons (by decide)]
  simp [skipGap_append hgap', skipGap_cons, isGap, hmember]

/-- An object is read from a row of its members; of equal names the last counts. -/
theorem membersFrom_of_row {first : Bool} {entries : List Entry} {text : List Char}
    (hrow : Row '}' first (entries.map Entry.chars) text)
    (hblank : ∀ e ∈ entries, Blank e.before)
    (hitem : ∀ e ∈ entries, ∀ rest, Ends rest →
      item (e.after ++ (e.text ++ rest)) = .ok (e.value, rest))
    (hfuel : entries.length < fuel) :
    membersFrom item fuel first found (text ++ rest)
      = .ok (.object ((entries.map Entry.member).foldl (fun found e => Assoc.insert e.1 e.2 found)
          found), rest) := by
  generalize hparts : entries.map Entry.chars = parts at hrow
  -- Along the row: it is closed, or one more entry is read, the first without a comma.
  induction hrow generalizing entries fuel found with
  | close hgap =>
      obtain rfl := List.map_eq_nil_iff.1 hparts
      obtain ⟨fuel, rfl⟩ := Nat.exists_eq_add_of_lt hfuel
      rw [List.append_assoc, List.singleton_append, membersFrom_close hgap]
      simp
  | first hgap hrest ih =>
      obtain ⟨e, entries, rfl, rfl, rfl⟩ := List.map_eq_cons_iff.1 hparts
      obtain ⟨hbefore, hblank⟩ := List.forall_mem_cons.1 hblank
      obtain ⟨hread, hitem⟩ := List.forall_mem_cons.1 hitem
      obtain ⟨fuel, rfl⟩ := Nat.exists_eq_add_of_lt hfuel
      have hends := hrest.ends (.inr rfl) rest
      obtain ⟨more, hmore, hmember⟩ := member_of_entry hbefore (hread _ hends)
      rw [List.append_assoc, List.append_assoc, hmore, List.cons_append,
        membersFrom_first hgap hmember, ih hblank hitem (by simp; omega) rfl]
      simp [Entry.member]
  | next hgap hgap' hrest ih =>
      obtain ⟨e, entries, rfl, rfl, rfl⟩ := List.map_eq_cons_iff.1 hparts
      obtain ⟨hbefore, hblank⟩ := List.forall_mem_cons.1 hblank
      obtain ⟨hread, hitem⟩ := List.forall_mem_cons.1 hitem
      obtain ⟨fuel, rfl⟩ := Nat.exists_eq_add_of_lt hfuel
      have hends := hrest.ends (.inr rfl) rest
      obtain ⟨more, hmore, hmember⟩ := member_of_entry hbefore (hread _ hends)
      rw [List.append_assoc, List.cons_append, List.append_assoc, List.append_assoc, hmore,
        List.cons_append, membersFrom_next hgap hgap' hmember, ih hblank hitem (by simp; omega) rfl]
      simp [Entry.member]

end

/-! ## Values -/

theorem opens_digitChar :
    ∀ d < 10, isGap (Nat.digitChar d) = false ∧ Nat.digitChar d ≠ ']' ∧ Nat.digitChar d ≠ '}' := by
  decide

/-- The digits of an integer open a value. -/
theorem opens_integer (n : Int) : Opens (Number.integer n).text.toList := by
  cases n with
  | ofNat m =>
      obtain ⟨d, more, _, hlt, heq⟩ := toDigits_cons m
      exact ⟨_, _, (text_ofNat m).trans heq, opens_digitChar d hlt⟩
  | negSucc m => exact ⟨_, _, text_negSucc m, by decide⟩

/-- The text of a value opens it. -/
theorem Written.opens {levels : Nat} {x : Json} {text : List Char} (h : Written levels x text) :
    Opens text := by
  cases h with
  | integer => exact opens_integer _
  | _ => exact ⟨_, _, rfl, by decide⟩

theorem Entry.opens (e : Entry) : Opens e.chars :=
  ⟨_, _, rfl, by decide⟩

theorem Entry.length_text_le (e : Entry) : e.text.length ≤ e.chars.length := by
  simp only [chars, List.length_append, List.length_cons]
  omega

/-- A value is read from each text that stands for it, if enough levels are left. -/
theorem value_of_written {levels : Nat} {x : Json} {text : List Char} (h : Written levels x text)
    {fuel : Nat} (hfuel : text.length < fuel) {rest : List Char} (hrest : Ends rest) :
    value fuel levels (text ++ rest) = .ok (x, rest) := by
  induction h generalizing rest with
  | null =>
      rw [value.eq_def]
      rfl
  | true =>
      rw [value.eq_def]
      rfl
  | false =>
      rw [value.eq_def]
      rfl
  | integer levels low high => exact value_integer low high hrest
  | string levels s =>
      rw [value.eq_def]
      simp [quoteChars, skipGap_cons, isGap, stringFrom_quote]
  | @array levels items text each row ih =>
      have hopens : ∀ part ∈ items.map Prod.snd, Opens part :=
        List.forall_mem_map.2 fun p hp => (each p hp).opens
      obtain ⟨hlength, hshort⟩ := row.length_lt hopens
      rw [List.length_map] at hlength
      rw [List.length_cons] at hfuel
      rw [value.eq_def, List.cons_append, skipGap_cons (by decide)]
      -- The fuel exceeds the length of the row, so it is enough for the items and for each of them.
      refine itemsFrom_of_row row (List.forall_mem_map.1 hopens) ?_ (by omega)
      intro p hp rest hrest
      have hpart := List.forall_mem_map.1 hshort p hp
      exact ih p hp (by omega) hrest
  | @object levels entries text each blank row ih =>
      obtain ⟨hlength, hshort⟩ := row.length_lt (List.forall_mem_map.2 fun e _ => e.opens)
      rw [List.length_map] at hlength
      rw [List.length_cons] at hfuel
      rw [value.eq_def, List.cons_append, skipGap_cons (by decide)]
      refine membersFrom_of_row row (fun e he => (blank e he).1) ?_ (by omega)
      intro e he rest hrest
      have hpart := List.forall_mem_map.1 hshort e he
      have htext := e.length_text_le
      rw [value_append (blank e he).2]
      exact ih e he (by omega) hrest

/-- The text holds the value and nothing else but blanks. -/
def IsDocument (x : Json) (text : String) : Prop :=
  ∃ before chars after, Blank before ∧ Blank after ∧ Written levelLimit x chars ∧
    text = String.ofList (before ++ (chars ++ after))

/-- A written value, alone in its text, is a document. -/
theorem Written.isDocument {x : Json} {text : String} (h : Written levelLimit x text.toList) :
    IsDocument x text :=
  ⟨[], text.toList, [], blank_nil, blank_nil, h, by simp⟩

/-- A text that holds a value is parsed as this value. -/
theorem parse_of_isDocument {x : Json} {text : String} (h : IsDocument x text) :
    parse text = .ok x := by
  obtain ⟨before, chars, after, hbefore, hafter, hwritten, rfl⟩ := h
  -- What comes after the value is blank or nothing.
  have hends : Ends after := by
    intro c hc
    exact .inl (hafter c (List.mem_of_mem_head? hc))
  have hfuel : chars.length < (before ++ (chars ++ after)).length + 1 := by
    simp only [List.length_append]
    omega
  have hskip : skipGap after = [] := by simpa [skipGap] using skipGap_append hafter []
  rw [parse, String.toList_ofList, parseChars, value_append hbefore,
    value_of_written hwritten hfuel hends]
  simp [hskip]

end Json
end ProjectConsistency
