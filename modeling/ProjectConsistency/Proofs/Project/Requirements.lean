import ProjectConsistency.Project.Manifest
import ProjectConsistency.Proofs.Assoc.Ascending
import ProjectConsistency.Proofs.Text.LineEnds

/-!
# Requirements — a list of requirements is read as it is written

This file defines:

* `Manifest.Requirement` — a name with extras, a version specifier, a marker and a comment;
* `Manifest.Gaps`, `Manifest.Requirement.written` — the white space between them, and the line;
* `Manifest.PassedOver` — a line that is blank, a comment or an option;
* `Manifest.Listed` — the lines of a list of requirements, with other lines between them;
* `Manifest.readLine?` — what is read from one line.

The code cuts and trims by turns, and trimming between the cuts makes no difference: neither a mark nor
a comparison is white space (`trim_before`, `cutOperator_trim`, `requirement_trim`).  So the parts of a
line are cut off one after the other from the line as it is written (`readLine?_written`), and the
requirements of a text are those of its lines (`ofRequirements_listed`).  A text with a line feed at its
end is no case of its own: it has one more line, which is blank.
-/

namespace ProjectConsistency
namespace Manifest

open Text

/-! ## Cutting at a mark -/

section

variable {stop : Char} {cs : List Char}

/-- What precedes a mark begins with any text that does not hold it. -/
theorem before_append (h : stop ∉ cs) (ds : List Char) :
    before stop (cs ++ ds) = cs ++ before stop ds := by
  refine List.takeWhile_append_of_pos fun c hc => ?_
  have hne : c ≠ stop := by
    rintro rfl
    exact h hc
  simpa using hne

theorem before_of_not_mem (h : stop ∉ cs) : before stop cs = cs := by
  simpa [before] using before_append h []

theorem before_mark (stop : Char) (cs : List Char) : before stop (stop :: cs) = [] := by
  simp [before]

/-- What comes behind the mark does not matter. -/
theorem before_append_of_mem (h : stop ∈ cs) (ds : List Char) :
    before stop (cs ++ ds) = before stop cs := by
  obtain ⟨front, back, rfl, hfront⟩ := List.eq_append_cons_of_mem h
  rw [List.append_assoc, List.cons_append, before_append hfront, before_append hfront, before_mark,
    before_mark]

/-- White space at the ends makes no difference to what is cut off. -/
theorem trim_before (hstop : isBlank stop = false) (cs : List Char) :
    trim (before stop (trim cs)) = trim (before stop cs) := by
  obtain ⟨lead, tail, heq, hlead, htail⟩ := exists_eq_trimWhere isBlank cs
  rw [← trim] at heq
  conv_rhs => rw [heq, before_append (not_mem_of_all hlead hstop), trim_append_left hlead]
  by_cases hmem : stop ∈ trim cs
  · rw [before_append_of_mem hmem]
  · rw [before_append hmem, before_of_not_mem hmem, before_of_not_mem (not_mem_of_all htail hstop),
      trim_append_right htail]

end

/-! ## Cutting at a comparison -/

def isNameChar (c : Char) : Bool :=
  c.isAlphanum || c == '.' || c == '_' || c == '-'

def IsPlain (c : Char) : Prop :=
  ∀ op ∈ operators, c ∉ op

instance : DecidablePred IsPlain :=
  fun c => inferInstanceAs (Decidable (∀ op ∈ operators, c ∉ op))

theorem toNat_of_isAlphanum {c : Char} (h : c.isAlphanum = true) :
    48 ≤ c.toNat ∧ c.toNat ≤ 122 := by
  have hranges : ((decide ('A'.val ≤ c.val ∧ c.val ≤ 'Z'.val) ||
      (decide ('a'.val ≤ c.val) && decide (c.val ≤ 'z'.val))) ||
      (decide ('0'.val ≤ c.val) && decide (c.val ≤ '9'.val))) = true := h
  simp [UInt32.le_iff_toNat_le] at hranges
  omega

theorem isBlank_of_isNameChar {c : Char} (h : isNameChar c = true) : isBlank c = false := by
  have hcode : 45 ≤ c.toNat ∧ c.toNat ≤ 122 := by
    simp only [isNameChar, Bool.or_eq_true, beq_iff_eq] at h
    rcases h with ((h | rfl) | rfl) | rfl
    · have hrange := toNat_of_isAlphanum h
      omega
    · decide
    · decide
    · decide
  simp [isBlank]
  omega

theorem operator_ne_nil : ∀ op ∈ operators, op ≠ [] := by decide

theorem isPlain_of_class {p : Char → Bool} (hp : operators.all (fun op => op.all fun c => !p c) = true)
    {c : Char} (hc : p c = true) : IsPlain c := by
  intro op hop hmem
  have hnone := List.all_eq_true.1 (List.all_eq_true.1 hp op hop) c hmem
  simp [hc] at hnone

theorem isPlain_of_blank {c : Char} (h : isBlank c = true) : IsPlain c :=
  isPlain_of_class (by decide) h

theorem isPlain_of_name {c : Char} (h : isNameChar c = true) : IsPlain c :=
  isPlain_of_class (by decide) h

/-- A text starts with an operator when one of them is its prefix. -/
theorem startsOperator_iff {cs : List Char} :
    startsOperator cs = true ↔ ∃ op ∈ operators, op <+: cs := by
  simp [startsOperator, startsWith]

/-- A comparison does not reach into a text that begins with another character. -/
theorem startsOperator_append {tail : List Char} (h : ∀ c ∈ tail.head?, IsPlain c) (cs : List Char) :
    startsOperator (cs ++ tail) = startsOperator cs := by
  rw [Bool.eq_iff_iff, startsOperator_iff, startsOperator_iff]
  refine exists_congr fun op => and_congr_right fun hop => ?_
  refine ⟨fun hstart => ?_, fun hstart => hstart.trans (List.prefix_append cs tail)⟩
  -- A comparison that is longer than the text would hold the first character of what follows.
  rcases List.prefix_or_prefix_of_prefix hstart (List.prefix_append cs tail) with
    hshort | ⟨more, rfl⟩
  · exact hshort
  · cases more with
    | nil => exact (List.append_nil cs).symm ▸ List.prefix_rfl
    | cons c more =>
        obtain ⟨rest, rfl⟩ := (List.prefix_append_right_inj cs).1 hstart
        exact absurd (by simp) (h c rfl _ hop)

/-- The cut falls before an operator. -/
theorem cutOperator_of_starts {cs : List Char} (h : startsOperator cs = true) :
    cutOperator cs = ([], cs) := by
  cases cs with
  | nil => rfl
  | cons c cs => rw [cutOperator, if_pos h]

/-- A character that starts no operator stays in front of the cut. -/
theorem cutOperator_of_not_starts {c : Char} {cs : List Char} (h : startsOperator (c :: cs) = false) :
    cutOperator (c :: cs) = (c :: (cutOperator cs).1, (cutOperator cs).2) := by
  rw [cutOperator, if_neg (by simp [h])]

/-- The two sides of the cut make up the text. -/
theorem cutOperator_join (cs : List Char) : (cutOperator cs).1 ++ (cutOperator cs).2 = cs := by
  induction cs with
  | nil => rfl
  | cons c cs ih =>
      cases h : startsOperator (c :: cs) with
      | true => rw [cutOperator_of_starts h, List.nil_append]
      | false => rw [cutOperator_of_not_starts h, List.cons_append, ih]

/-- Characters that are in no comparison are passed over. -/
theorem cutOperator_plain {cs : List Char} (h : ∀ c ∈ cs, IsPlain c) (tail : List Char) :
    cutOperator (cs ++ tail) = (cs ++ (cutOperator tail).1, (cutOperator tail).2) := by
  induction cs with
  | nil => rfl
  | cons c cs ih =>
      obtain ⟨hc, hcs⟩ := List.forall_mem_cons.1 h
      have hnot : startsOperator (c :: (cs ++ tail)) = false := by
        rw [← Bool.not_eq_true, startsOperator_iff]
        rintro ⟨op, hop, hstart⟩
        obtain ⟨first, more, rfl⟩ := List.exists_cons_of_ne_nil (operator_ne_nil op hop)
        obtain ⟨rfl, _⟩ := List.cons_prefix_cons.1 hstart
        exact hc _ hop List.mem_cons_self
      rw [List.cons_append, cutOperator_of_not_starts hnot, ih hcs, List.cons_append]

/-- A text without a comparison is passed over, if none reaches into what follows. -/
theorem cutOperator_free {cs tail : List Char} (hfree : ∀ op ∈ operators, ¬ op <:+: cs)
    (htail : ∀ c ∈ tail.head?, IsPlain c) :
    cutOperator (cs ++ tail) = (cs ++ (cutOperator tail).1, (cutOperator tail).2) := by
  induction cs with
  | nil => rfl
  | cons c cs ih =>
      have hnot : startsOperator (c :: (cs ++ tail)) = false := by
        rw [← List.cons_append, startsOperator_append htail, ← Bool.not_eq_true, startsOperator_iff]
        rintro ⟨op, hop, hstart⟩
        exact hfree op hop hstart.isInfix
      have hrest : ∀ op ∈ operators, ¬ op <:+: cs :=
        fun op hop hpart => hfree op hop (hpart.trans (List.suffix_cons c cs).isInfix)
      rw [List.cons_append, cutOperator_of_not_starts hnot, ih hrest, List.cons_append]

/-- White space at the end stays on the side where the text ends. -/
theorem cutOperator_blank {tail : List Char} (h : ∀ c ∈ tail, isBlank c = true) (cs : List Char) :
    cutOperator (cs ++ tail)
      = if (cutOperator cs).2 = [] then (cs ++ tail, [])
        else ((cutOperator cs).1, (cutOperator cs).2 ++ tail) := by
  have hhead : ∀ c ∈ tail.head?, IsPlain c :=
    fun c hc => isPlain_of_blank (h c (List.mem_of_mem_head? hc))
  induction cs with
  | nil =>
      have htail := cutOperator_plain (fun c hc => isPlain_of_blank (h c hc)) []
      simpa [cutOperator] using htail
  | cons c cs ih =>
      have hstarts := startsOperator_append hhead (c :: cs)
      cases hc : startsOperator (c :: cs) with
      | true =>
          rw [hc] at hstarts
          rw [cutOperator_of_starts hstarts, cutOperator_of_starts hc]
          rfl
      | false =>
          rw [hc] at hstarts
          rw [List.cons_append] at hstarts ⊢
          rw [cutOperator_of_not_starts hstarts, cutOperator_of_not_starts hc, ih]
          dsimp only
          split <;> rfl

/-- White space at the ends makes no difference to the two sides. -/
theorem cutOperator_trim (cs : List Char) :
    trim (cutOperator (trim cs)).1 = trim (cutOperator cs).1 ∧
      trim (cutOperator (trim cs)).2 = trim (cutOperator cs).2 ∧
      ((cutOperator (trim cs)).2 = [] ↔ (cutOperator cs).2 = []) := by
  obtain ⟨lead, tail, heq, hlead, htail⟩ := exists_eq_trimWhere isBlank cs
  rw [← trim] at heq
  -- What is trimmed at the start falls to the first side, and at the end to the side that ends there.
  have hcut : cutOperator cs
      = (lead ++ (cutOperator (trim cs ++ tail)).1, (cutOperator (trim cs ++ tail)).2) := by
    conv_lhs => rw [heq]
    exact cutOperator_plain (fun c hc => isPlain_of_blank (hlead c hc)) _
  have hjoin := cutOperator_join (trim cs)
  rw [hcut, cutOperator_blank htail]
  by_cases hnone : (cutOperator (trim cs)).2 = []
  · rw [hnone, List.append_nil] at hjoin
    rw [if_pos hnone, hnone, hjoin]
    refine ⟨?_, rfl, Iff.rfl⟩
    rw [trim_append_left hlead, trim_append_right htail]
  · rw [if_neg hnone]
    refine ⟨?_, ?_, by simp [hnone]⟩
    · rw [trim_append_left hlead]
    · rw [trim_append_right htail]

/-- A line is cut up as it is written, and only the parts are trimmed. -/
theorem requirement_trim (line : List Char) :
    requirement (trim line)
      = (trim (before '[' (cutOperator (before ';' line)).1),
         if (cutOperator (before ';' line)).2 = [] then ['*']
         else trim (cutOperator (before ';' line)).2) := by
  obtain ⟨hname, hversion, hnone⟩ := cutOperator_trim (before ';' line)
  rw [requirement, trim_before (by decide)]
  dsimp only
  rw [hname, trim_before (by decide), hversion]
  simp only [List.isEmpty_iff, hnone]

/-! ## Lines -/

/-- What is read from a line: a name and a version specifier, if it holds a requirement. -/
def readLine? (line : List Char) : Option (List Char × List Char) :=
  let freed := trim (before '#' line)
  if isRequirement freed && !(requirement freed).1.isEmpty then some (requirement freed) else none

theorem requirementLines_eq (cs : List Char) :
    requirementLines cs = (lines cs).filterMap readLine? := by
  rw [requirementLines]
  induction lines cs with
  | nil => rfl
  | cons line ls ih =>
      simp only [List.map_cons, List.filterMap_cons, readLine?]
      cases hline : isRequirement (trim (before '#' line)) with
      | false => simpa [hline] using ih
      | true =>
          cases hname : (requirement (trim (before '#' line))).1.isEmpty with
          | true => simpa [hline, hname] using ih
          | false => simpa [hline, hname] using ih

/-- A carriage return at the end of a line changes nothing. -/
theorem readLine?_dropReturn (line : List Char) : readLine? (dropReturn line) = readLine? line := by
  have hfreed : trim (before '#' (dropReturn line)) = trim (before '#' line) := by
    rw [← trim_before (by decide) (dropReturn line), trim_dropReturn, trim_before (by decide)]
  rw [readLine?, readLine?, hfreed]

/-- Lines with a line feed between each two are read one by one. -/
theorem requirementLines_joinLines {ls : List (List Char)} (h : ∀ line ∈ ls, '\n' ∉ line) :
    requirementLines (joinLines ls) = ls.filterMap readLine? := by
  rw [requirementLines_eq]
  induction ls with
  | nil => rfl
  | cons line rest ih =>
      obtain ⟨hline, hrest⟩ := List.forall_mem_cons.1 h
      cases rest with
      | nil =>
          have hjoin : joinLines [line] = line := by simp [joinLines]
          rw [hjoin]
          by_cases hne : line = []
          · subst hne
            rfl
          · rw [lines_of_feed_not_mem hline hne]
      | cons next rest =>
          have hjoin : joinLines (line :: next :: rest) = line ++ '\n' :: joinLines (next :: rest) := by
            simp [joinLines]
          rw [hjoin, lines_line hline, List.filterMap_cons, readLine?_dropReturn, ih hrest]
          conv_rhs => rw [List.filterMap_cons]

/-- White space in a line. -/
structure Gap where
  text : List Char
  blank : ∀ c ∈ text, isBlank c = true

theorem Gap.not_mem (gap : Gap) {c : Char} (hc : isBlank c = false) : c ∉ gap.text :=
  not_mem_of_all gap.blank hc

theorem Gap.isPlain (gap : Gap) : ∀ c ∈ gap.text, IsPlain c :=
  fun c hc => isPlain_of_blank (gap.blank c hc)

/-- A line that holds no requirement: it is blank, a comment or an option. -/
inductive PassedOver : List Char → Prop where
  | blank (gap : Gap) : PassedOver gap.text
  | comment (indent : Gap) (text : List Char) : PassedOver (indent.text ++ '#' :: text)
  | option (indent : Gap) (text : List Char) : PassedOver (indent.text ++ '-' :: text)

/-- Blank lines, comments and options declare nothing. -/
theorem readLine?_of_passedOver {line : List Char} (h : PassedOver line) : readLine? line = none := by
  have hskipped : isRequirement (trim (before '#' line)) = false := by
    cases h with
    | blank gap =>
        rw [before_of_not_mem (gap.not_mem (by decide)), trim, trimWhere_of_all gap.blank]
        rfl
    | comment indent text =>
        rw [before_append (indent.not_mem (by decide)), before_mark, List.append_nil, trim,
          trimWhere_of_all indent.blank]
        rfl
    | option indent text =>
        have hdash : before '#' ('-' :: text) = '-' :: before '#' text :=
          List.takeWhile_cons_of_pos (by decide)
        rw [before_append (indent.not_mem (by decide)), hdash, trim_append_left indent.blank, trim,
          trimWhere_cons (by decide)]
        rfl
  rw [readLine?, hskipped]
  rfl

/-! ## Requirements -/

/-- A requirement: a name, and parts that may be missing. -/
structure Requirement where
  name : List Char
  /-- What is written between square brackets. -/
  extras : Option (List Char) := none
  /-- A comparison and what follows it. -/
  specifier : Option (List Char) := none
  /-- What is written behind a semicolon. -/
  marker : Option (List Char) := none
  /-- What is written behind a hash. -/
  comment : Option (List Char) := none
  name_head : name.head?.any Char.isAlphanum = true
  name_chars : name.all isNameChar = true
  extras_free : ∀ text ∈ extras, (∀ op ∈ operators, ¬ op <:+: text) ∧ '#' ∉ text ∧ ';' ∉ text
  specifier_compares : ∀ text ∈ specifier, (∃ op ∈ operators, op <+: text) ∧ '#' ∉ text ∧ ';' ∉ text

/-- The white space before the parts of a requirement. -/
structure Gaps where
  indent : Gap
  extras : Gap
  specifier : Gap
  marker : Gap
  comment : Gap

def behind (mark : Char) (part : Option (List Char)) : List Char :=
  part.elim [] (mark :: ·)

def bracketed (part : Option (List Char)) : List Char :=
  part.elim [] fun text => '[' :: (text ++ [']'])

namespace Requirement

/-- The name and the extras, with the white space around them. -/
def front (r : Requirement) (gaps : Gaps) : List Char :=
  gaps.indent.text ++ (r.name ++ (gaps.extras.text ++ (bracketed r.extras ++ gaps.specifier.text)))

/-- The marker and the comment. -/
def back (r : Requirement) (gaps : Gaps) : List Char :=
  behind ';' r.marker ++ (gaps.comment.text ++ behind '#' r.comment)

def written (r : Requirement) (gaps : Gaps) : List Char :=
  r.front gaps ++ (r.specifier.getD [] ++ (gaps.marker.text ++ r.back gaps))

/-- The version specifier, or a star if there is none. -/
def version (r : Requirement) : List Char :=
  r.specifier.elim ['*'] trim

/-- What is declared. -/
def entry (r : Requirement) : String × String :=
  (String.ofList r.name, String.ofList r.version)

variable (r : Requirement) (gaps : Gaps)

theorem isNameChar_of_mem : ∀ c ∈ r.name, isNameChar c = true :=
  List.all_eq_true.1 r.name_chars

theorem not_mem_name {c : Char} (hc : isNameChar c = false) : c ∉ r.name :=
  not_mem_of_all r.isNameChar_of_mem hc

theorem trim_name : trim r.name = r.name :=
  trimWhere_of_none fun c hc => isBlank_of_isNameChar (r.isNameChar_of_mem c hc)

/-- What stands before the brackets is the name. -/
theorem trim_before_front {ending : List Char} (h : ∀ c ∈ ending, isBlank c = true) :
    trim (before '[' (r.front gaps ++ ending)) = r.name := by
  have hrest : ∀ c ∈ before '[' (bracketed r.extras ++ (gaps.specifier.text ++ ending)),
      isBlank c = true := by
    cases r.extras with
    | none =>
        intro c hc
        have hmem : c ∈ gaps.specifier.text ++ ending := List.takeWhile_subset _ hc
        exact (List.mem_append.1 hmem).elim (gaps.specifier.blank c) (h c)
    | some text =>
        rw [bracketed, Option.elim_some, List.cons_append, before_mark]
        simp
  have hblank : ∀ c ∈ gaps.extras.text
      ++ before '[' (bracketed r.extras ++ (gaps.specifier.text ++ ending)), isBlank c = true :=
    List.forall_mem_append.2 ⟨gaps.extras.blank, hrest⟩
  rw [front]
  simp only [List.append_assoc]
  rw [before_append (gaps.indent.not_mem (by decide)), before_append (r.not_mem_name (by decide)),
    before_append (gaps.extras.not_mem (by decide)), trim_append_left gaps.indent.blank,
    trim_append_right hblank, trim_name]

/-- No comparison stands in the extras, or reaches over their brackets. -/
theorem cutOperator_bracketed (tail : List Char) :
    cutOperator (bracketed r.extras ++ tail)
      = (bracketed r.extras ++ (cutOperator tail).1, (cutOperator tail).2) := by
  cases hextras : r.extras with
  | none => rfl
  | some text =>
      have hopen : ∀ rest, cutOperator ('[' :: rest) = ('[' :: (cutOperator rest).1, (cutOperator rest).2) :=
        cutOperator_plain (List.forall_mem_singleton.2 (by decide))
      have hclose : cutOperator (']' :: tail) = (']' :: (cutOperator tail).1, (cutOperator tail).2) :=
        cutOperator_plain (List.forall_mem_singleton.2 (by decide)) tail
      have hhead : ∀ c ∈ (']' :: tail).head?, IsPlain c := by
        simpa using (by decide : IsPlain ']')
      rw [bracketed, Option.elim_some, List.cons_append, List.append_assoc, List.singleton_append, hopen,
        cutOperator_free (r.extras_free text hextras).1 hhead, hclose]
      simp

/-- No operator starts within the name, its extras or the gaps around them. -/
theorem cutOperator_front (tail : List Char) :
    cutOperator (r.front gaps ++ tail)
      = (r.front gaps ++ (cutOperator tail).1, (cutOperator tail).2) := by
  have hname : ∀ c ∈ r.name, IsPlain c := fun c hc => isPlain_of_name (r.isNameChar_of_mem c hc)
  rw [front]
  simp only [List.append_assoc]
  rw [cutOperator_plain gaps.indent.isPlain, cutOperator_plain hname,
    cutOperator_plain gaps.extras.isPlain, cutOperator_bracketed,
    cutOperator_plain gaps.specifier.isPlain]

/-- Behind the version specifier there is nothing but white space up to the first mark. -/
theorem blank_before_back :
    ∀ c ∈ before ';' (before '#' (r.back gaps)), isBlank c = true := by
  rw [back]
  cases r.marker with
  | none =>
      have hcomment : before '#' (behind '#' r.comment) = [] := by
        cases r.comment with
        | none => rfl
        | some text => exact before_mark '#' text
      rw [behind, Option.elim_none, List.nil_append, before_append (gaps.comment.not_mem (by decide)),
        hcomment, List.append_nil, before_of_not_mem (gaps.comment.not_mem (by decide))]
      exact gaps.comment.blank
  | some text =>
      have hmarker : ∀ rest, before '#' (';' :: rest) = ';' :: before '#' rest :=
        fun rest => List.takeWhile_cons_of_pos (by decide)
      rw [behind, Option.elim_some, List.cons_append, hmarker, before_mark]
      simp

/-- Neither the name and the extras nor the version specifier hold a mark. -/
theorem not_mem_parts {mark : Char} (hmark : mark = '#' ∨ mark = ';') :
    mark ∉ r.front gaps ∧ mark ∉ r.specifier.getD [] ∧ mark ∉ gaps.marker.text := by
  have hblank : isBlank mark = false := by rcases hmark with rfl | rfl <;> decide
  have hname : isNameChar mark = false := by rcases hmark with rfl | rfl <;> decide
  have hextras : mark ∉ bracketed r.extras := by
    cases hextras : r.extras with
    | none => simp [bracketed]
    | some text =>
        obtain ⟨_, hhash, hsemicolon⟩ := r.extras_free text hextras
        rcases hmark with rfl | rfl <;> simp [bracketed, *]
  have hspecifier : mark ∉ r.specifier.getD [] := by
    cases hspecifier : r.specifier with
    | none => simp
    | some text =>
        obtain ⟨_, hhash, hsemicolon⟩ := r.specifier_compares text hspecifier
        rcases hmark with rfl | rfl <;> simp [*]
  have hfront : mark ∉ r.front gaps := by
    simp [front, gaps.indent.not_mem hblank, r.not_mem_name hname, gaps.extras.not_mem hblank, hextras,
      gaps.specifier.not_mem hblank]
  exact ⟨hfront, hspecifier, gaps.marker.not_mem hblank⟩

/-- Neither a comment nor a marker begins within the name and the specifier. -/
theorem before_written {mark : Char} (hmark : mark = '#' ∨ mark = ';') (tail : List Char) :
    before mark (r.front gaps ++ (r.specifier.getD [] ++ (gaps.marker.text ++ tail)))
      = r.front gaps ++ (r.specifier.getD [] ++ (gaps.marker.text ++ before mark tail)) := by
  obtain ⟨hfront, hspecifier, hgap⟩ := r.not_mem_parts gaps hmark
  rw [before_append hfront, before_append hspecifier, before_append hgap]

/-- The parts are cut off one after the other. -/
theorem requirement_written :
    requirement (trim (before '#' (r.written gaps))) = (r.name, r.version) := by
  have hending : ∀ c ∈ gaps.marker.text ++ before ';' (before '#' (r.back gaps)), isBlank c = true :=
    List.forall_mem_append.2 ⟨gaps.marker.blank, r.blank_before_back gaps⟩
  -- Both marks are cut off behind the version specifier, which leaves white space there.
  rw [requirement_trim, written, before_written _ _ (.inl rfl), before_written _ _ (.inr rfl),
    cutOperator_front]
  generalize gaps.marker.text ++ before ';' (before '#' (r.back gaps)) = ending at hending ⊢
  rw [version]
  cases hspecifier : r.specifier with
  | none =>
      have hcut := cutOperator_plain (fun c hc => isPlain_of_blank (hending c hc)) []
      rw [List.append_nil] at hcut
      rw [Option.getD_none, List.nil_append, hcut]
      simp [cutOperator, r.trim_before_front gaps hending]
  | some text =>
      obtain ⟨⟨op, hop, hstart⟩, _⟩ := r.specifier_compares text hspecifier
      have hstarts : startsOperator (text ++ ending) = true :=
        startsOperator_iff.2 ⟨op, hop, hstart.trans (List.prefix_append text ending)⟩
      have hne : text ++ ending ≠ [] := by
        intro hnil
        rw [hnil] at hstarts
        cases hstarts
      rw [Option.getD_some, cutOperator_of_starts hstarts, r.trim_before_front gaps (by simp),
        if_neg hne, trim_append_right hending]
      rfl

/-- A requirement is read as it is written. -/
theorem readLine?_written : readLine? (r.written gaps) = some (r.name, r.version) := by
  obtain ⟨c, rest, hname, hc⟩ : ∃ c rest, r.name = c :: rest ∧ c.isAlphanum = true := by
    have hhead := r.name_head
    cases hname : r.name with
    | nil => simp [hname] at hhead
    | cons c rest => exact ⟨c, rest, rfl, by simpa [hname] using hhead⟩
  have hdash : c ≠ '-' := by
    rintro rfl
    cases hc
  have hblank : isBlank c = false := isBlank_of_isNameChar (r.isNameChar_of_mem c (by simp [hname]))
  -- The line begins with the name, so it is neither empty nor an option.
  have hline : isRequirement (trim (before '#' (r.written gaps))) = true := by
    rw [written, before_written _ _ (.inl rfl), front]
    simp only [List.append_assoc]
    rw [trim_append_left gaps.indent.blank, hname, List.cons_append, trim, trimWhere_cons hblank]
    simp [isRequirement, hdash]
  simp [readLine?, hline, requirement_written, hname]

end Requirement

/-! ## Lists of requirements -/

/-- The lines of a list of requirements, one for each, with other lines before, between and behind
them. -/
inductive Listed : List Requirement → List (List Char) → Prop where
  | nil : Listed [] []
  | requirement {rs : List Requirement} {ls : List (List Char)} (r : Requirement) (gaps : Gaps)
      (rest : Listed rs ls) : Listed (r :: rs) (r.written gaps :: ls)
  | passed {rs : List Requirement} {ls : List (List Char)} {line : List Char} (h : PassedOver line)
      (rest : Listed rs ls) : Listed rs (line :: ls)

/-- Read line by line, a written list gives its requirements in order. -/
theorem Listed.filterMap_readLine? {rs : List Requirement} {ls : List (List Char)} (h : Listed rs ls) :
    ls.filterMap readLine? = rs.map fun r => (r.name, r.version) := by
  induction h with
  | nil => rfl
  | requirement r gaps _ ih => simp [r.readLine?_written gaps, ih]
  | passed h _ ih => simp [readLine?_of_passedOver h, ih]

/--
A list of requirements, with any white space between their parts and any lines between them that hold
none, declares each name with its version specifier, and a name that occurs more than once with the
last one.  It declares nothing else.
-/
theorem ofRequirements_listed {rs : List Requirement} {ls : List (List Char)} (h : Listed rs ls)
    (hfeed : ∀ line ∈ ls, '\n' ∉ line) :
    let manifest := ofRequirements (String.ofList (joinLines ls))
    manifest.name = none ∧ manifest.dependencies.development = [] ∧
      Assoc.Ascending manifest.dependencies.production ∧
      ∀ name, Assoc.find? name manifest.dependencies.production
        = Assoc.find? name (rs.map Requirement.entry).reverse := by
  have hproduction : (ofRequirements (String.ofList (joinLines ls))).dependencies.production
      = Assoc.ofList (rs.map Requirement.entry) := by
    rw [ofRequirements, String.toList_ofList, requirementLines_joinLines hfeed, h.filterMap_readLine?,
      List.map_map]
    rfl
  intro manifest
  refine ⟨rfl, rfl, ?_, fun name => ?_⟩
  · rw [hproduction]
    exact Assoc.ascending_ofList _
  · rw [hproduction, Assoc.find?_ofList]

def sampleRequirements : List Requirement :=
  [{ name := "Flask".toList, extras := some "async=1".toList, specifier := some ">= 2.0, !=2.1 ".toList
     marker := some " python_version < '3'".toList, comment := some " old".toList
     name_head := by decide, name_chars := by decide
     extras_free := by decide +kernel, specifier_compares := by decide +kernel },
   { name := "six".toList, name_head := by decide, name_chars := by decide
     extras_free := by decide, specifier_compares := by decide },
   { name := "Flask".toList, specifier := some "===3".toList
     name_head := by decide, name_chars := by decide
     extras_free := by decide, specifier_compares := by decide +kernel }]

def sampleLines : List (List Char) :=
  ["# web", "-r base.txt", "  Flask [async=1]>= 2.0, !=2.1 ; python_version < '3'# old", "", "six\r",
    "Flask===3", ""].map String.toList

theorem listed_sample : Listed sampleRequirements sampleLines := by
  let empty : Gap := ⟨[], by simp⟩
  let narrow : Gap := ⟨" ".toList, by simp [isBlank]⟩
  let wide : Gap := ⟨"  ".toList, by simp [isBlank]⟩
  let returned : Gap := ⟨"\r".toList, by simp [isBlank]⟩
  exact .passed (.comment empty " web".toList) <|
    .passed (.option empty "r base.txt".toList) <|
    .requirement _ ⟨wide, narrow, empty, empty, empty⟩ <|
    .passed (.blank empty) <|
    .requirement _ ⟨empty, empty, empty, empty, returned⟩ <|
    .requirement _ ⟨empty, empty, empty, empty, empty⟩ <|
    .passed (.blank empty) .nil

theorem ofRequirements_listed_sample :
    let declared := (ofRequirements (String.ofList (joinLines sampleLines))).dependencies.production
    Listed sampleRequirements sampleLines ∧ (∀ line ∈ sampleLines, '\n' ∉ line) ∧
      Assoc.find? "Flask" declared = some "===3" ∧ Assoc.find? "six" declared = some "*" ∧
      Assoc.find? "web" declared = none := by
  intro declared
  have hfeed : ∀ line ∈ sampleLines, '\n' ∉ line := by decide +kernel
  obtain ⟨_, _, _, hfind⟩ := ofRequirements_listed listed_sample hfeed
  exact ⟨listed_sample, hfeed, (hfind "Flask").trans (by decide +kernel),
    (hfind "six").trans (by decide +kernel), (hfind "web").trans (by decide +kernel)⟩

end Manifest
end ProjectConsistency
