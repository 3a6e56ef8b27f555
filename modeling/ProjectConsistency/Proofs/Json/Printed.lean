import ProjectConsistency.Proofs.Assoc.Ascending
import ProjectConsistency.Proofs.Json.Written

/-!
# Printed — what is printed can be parsed

This file defines:

* `Json.Plain` — values of limited depth without doubles, the names of each object in order.

Both ways to print a plain value give one of the texts that stand for it (`written_compact`,
`written_prettyAt`), each by induction on the value: the parts of a list or an object come in a row,
with the same blanks between them.  So what is printed is parsed as the value itself
(`parse_printed`).
-/

namespace ProjectConsistency
namespace Json

/-! ## Rows -/

theorem intercalate_cons (sep part : List Char) (parts : List (List Char)) :
    sep.intercalate (part :: parts) = part ++ parts.flatMap (sep ++ ·) := by
  induction parts generalizing part with
  | nil => simp
  | cons next parts ih =>
      rw [List.intercalate_cons_cons, ih]
      simp

/-- Parts with a comma and the same blanks between them are a row. -/
theorem Row.of_intercalate {close : Char} {parts : List (List Char)} {gap sep last : List Char}
    (hgap : Blank gap) (hsep : Blank sep) (hlast : Blank last) (hne : parts ≠ []) :
    Row close true parts (gap ++ ((',' :: sep).intercalate parts ++ (last ++ [close]))) := by
  have hrest : ∀ parts : List (List Char),
      Row close false parts (parts.flatMap ((',' :: sep) ++ ·) ++ (last ++ [close])) := by
    intro parts
    induction parts with
    | nil => exact .close hlast
    | cons part parts ih => simpa using Row.next blank_nil hsep ih
  cases parts with
  | nil => exact absurd rfl hne
  | cons part parts =>
      rw [intercalate_cons, List.append_assoc]
      exact .first hgap (hrest parts)

/-! ## Plain values -/

/-- The value has at most `levels` levels of lists and objects, names in ascending order, and
integers of 64 bits but no other numbers. -/
inductive Plain : Nat → Json → Prop where
  | null (levels : Nat) : Plain levels .null
  | bool (levels : Nat) (b : Bool) : Plain levels (.bool b)
  | integer (levels : Nat) {n : Int} (low : -(negativeLimit : Int) ≤ n) (high : n < wordLimit) :
      Plain levels (.number (.integer n))
  | string (levels : Nat) (s : String) : Plain levels (.string s)
  | array {levels : Nat} {items : List Json} (each : ∀ x ∈ items, Plain levels x) :
      Plain (levels + 1) (.array items)
  | object {levels : Nat} {members : List (String × Json)} (ascending : Assoc.Ascending members)
      (value : ∀ key x, (key, x) ∈ members → Plain levels x) :
      Plain (levels + 1) (.object members)

section

variable {levels : Nat} {text : List Char} {write : Json → List Char}

theorem written_bool (levels : Nat) (b : Bool) :
    Written levels (.bool b) (if b then "true" else "false").toList := by
  cases b with
  | true => exact .true levels
  | false => exact .false levels

/-- A list is written if its items are, in a row. -/
theorem written_array {items : List Json} (each : ∀ x ∈ items, Written levels x (write x))
    (row : Row ']' true (items.map write) text) :
    Written (levels + 1) (.array items) ('[' :: text) := by
  have hitems : (items.map fun x => (x, write x)).map Prod.fst = items := by
    simp [Function.comp_def]
  have htexts : (items.map fun x => (x, write x)).map Prod.snd = items.map write := by simp
  have hwritten : Written (levels + 1) (.array ((items.map fun x => (x, write x)).map Prod.fst))
      ('[' :: text) := .array (List.forall_mem_map.2 each) (htexts ▸ row)
  rwa [hitems] at hwritten

/-- An object is written if its values are, in a row of its members. -/
theorem written_object {members : List (String × Json)} {after : List Char}
    (ascending : Assoc.Ascending members) (hafter : Blank after)
    (each : ∀ key x, (key, x) ∈ members → Written levels x (write x))
    (row : Row '}' true
      (members.map fun (key, x) => quoteChars key.toList ++ ':' :: (after ++ write x)) text) :
    Written (levels + 1) (.object members) ('{' :: text) := by
  -- Nothing stands before the colons, and after them the same blanks.
  let entry : String × Json → Entry := fun (key, x) => ⟨key, x, [], after, write x⟩
  have hmembers : Assoc.ofList ((members.map entry).map Entry.member) = members := by
    rw [List.map_map]
    have hid : Entry.member ∘ entry = id := rfl
    rw [hid, List.map_id, ascending.ofList_eq]
  have hchars : (members.map entry).map Entry.chars
      = members.map fun (key, x) => quoteChars key.toList ++ ':' :: (after ++ write x) := by
    rw [List.map_map]
    rfl
  have hwritten : Written (levels + 1)
      (.object (Assoc.ofList ((members.map entry).map Entry.member))) ('{' :: text) :=
    .object (List.forall_mem_map.2 fun e he => each e.1 e.2 he)
      (List.forall_mem_map.2 fun _ _ => ⟨blank_nil, hafter⟩) (hchars ▸ row)
  rwa [hmembers] at hwritten

end

/-! ## Without blanks -/

theorem compactItems_eq (items : List Json) : compactItems items = items.map compact := by
  induction items with
  | nil => rfl
  | cons x rest ih => rw [compactItems, ih, List.map_cons]

theorem compactMembers_eq (members : List (String × Json)) :
    compactMembers members = members.map fun (key, x) => quote key ++ ":" ++ compact x := by
  induction members with
  | nil => rfl
  | cons entry rest ih =>
      obtain ⟨key, x⟩ := entry
      rw [compactMembers, ih, List.map_cons]

/-- Parts with commas between them are a row. -/
theorem Row.of_commas (close : Char) (parts : List (List Char)) :
    Row close true parts ([','].intercalate parts ++ [close]) := by
  cases parts with
  | nil => exact .close blank_nil
  | cons part parts => exact Row.of_intercalate blank_nil blank_nil blank_nil (by simp)

/-- A plain value is written by its compact text. -/
theorem written_compact {levels : Nat} {x : Json} (h : Plain levels x) :
    Written levels x (compact x).toList := by
  induction h with
  | null levels => exact .null levels
  | bool levels b => exact written_bool levels b
  | integer levels low high => exact .integer levels low high
  | string levels s =>
      have hquote : (compact (.string s)).toList = quoteChars s.toList := String.toList_ofList
      exact hquote ▸ .string levels s
  | @array levels items _ ih =>
      have htext : (compact (.array items)).toList
          = '[' :: ([','].intercalate (items.map fun x => (compact x).toList) ++ [']']) := by
        simp [compact, compactItems_eq, String.toList_intercalate, Function.comp_def]
      rw [htext]
      exact written_array ih (.of_commas _ _)
  | @object levels members ascending _ ih =>
      have htext : (compact (.object members)).toList
          = '{' :: ([','].intercalate (members.map fun (key, x) =>
              quoteChars key.toList ++ ':' :: ([] ++ (compact x).toList)) ++ ['}']) := by
        simp [compact, compactMembers_eq, String.toList_intercalate, Function.comp_def, quote]
      rw [htext]
      exact written_object ascending blank_nil ih (.of_commas _ _)

/-! ## With a line for each item -/

theorem prettyItems_eq (level : Nat) (items : List Json) :
    prettyItems level items = items.map (prettyAt level) := by
  induction items with
  | nil => rfl
  | cons x rest ih => rw [prettyItems, ih, List.map_cons]

theorem prettyMembers_eq (level : Nat) (members : List (String × Json)) :
    prettyMembers level members
      = members.map fun (key, x) => quote key ++ ": " ++ prettyAt level x := by
  induction members with
  | nil => rfl
  | cons entry rest ih =>
      obtain ⟨key, x⟩ := entry
      rw [prettyMembers, ih, List.map_cons]

/-- Between the lines of a printed value stand only blanks. -/
theorem blank_indentation (level : Nat) : Blank ('\n' :: (indentation level).toList) := by
  intro c hc
  rcases List.mem_cons.1 hc with rfl | hc
  · rfl
  · rw [indentation, String.toList_ofList] at hc
    rw [List.eq_of_mem_replicate hc]
    rfl

/-- A block is a row after its opening bracket. -/
theorem row_block (level : Nat) (opening closing : String) {o c : Char}
    (hopening : opening.toList = [o]) (hclosing : closing.toList = [c]) (parts : List String) :
    ∃ text, (block level opening closing parts).toList = o :: text ∧
      Row c true (parts.map String.toList) text := by
  cases parts with
  | nil => exact ⟨[c], by simp [block, hopening, hclosing], .close blank_nil⟩
  | cons part parts =>
      refine ⟨_, ?_, Row.of_intercalate (blank_indentation (level + 1))
        (blank_indentation (level + 1)) (blank_indentation level) (by simp)⟩
      simp [block, hopening, hclosing, String.toList_intercalate]

/-- A plain value is written by its indented text, at any level. -/
theorem written_prettyAt {levels : Nat} {x : Json} (h : Plain levels x) (level : Nat) :
    Written levels x (prettyAt level x).toList := by
  induction h generalizing level with
  | null levels =>
      rw [prettyAt]
      exact .null levels
  | bool levels b =>
      rw [prettyAt]
      exact written_bool levels b
  | integer levels low high =>
      rw [prettyAt]
      exact .integer levels low high
  | string levels s =>
      rw [prettyAt, quote, String.toList_ofList]
      exact .string levels s
  | @array levels items _ ih =>
      obtain ⟨text, htext, hrow⟩ := row_block level "[" "]" (o := '[') (c := ']') rfl rfl
        (items.map (prettyAt (level + 1)))
      rw [prettyAt, prettyItems_eq, htext]
      refine written_array (fun x hx => ih x hx (level + 1)) ?_
      simpa [Function.comp_def] using hrow
  | @object levels members ascending _ ih =>
      obtain ⟨text, htext, hrow⟩ := row_block level "\x7b" "\x7d" (o := '{') (c := '}') rfl rfl
        (members.map fun (key, x) => quote key ++ ": " ++ prettyAt (level + 1) x)
      rw [prettyAt, prettyMembers_eq, htext]
      have hspace : Blank [' '] := by simp [Blank, isGap]
      refine written_object ascending hspace (fun key x hx => ih key x hx (level + 1)) ?_
      simpa [quote, Function.comp_def] using hrow

/-- What is printed is a document, both ways. -/
theorem isDocument_printed {x : Json} (h : Plain levelLimit x) :
    IsDocument x (compact x) ∧ IsDocument x (pretty x) :=
  ⟨(written_compact h).isDocument, (written_prettyAt h 0).isDocument⟩

/-- What is printed is parsed as what it was printed from. -/
theorem parse_printed {x : Json} (h : Plain levelLimit x) :
    parse (compact x) = .ok x ∧ parse (pretty x) = .ok x :=
  ⟨parse_of_isDocument (isDocument_printed h).1, parse_of_isDocument (isDocument_printed h).2⟩

end Json
end ProjectConsistency
