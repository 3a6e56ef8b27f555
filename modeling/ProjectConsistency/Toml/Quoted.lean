import ProjectConsistency.Toml.Trivia

/-!
# Quoted strings of TOML

A string stands between quotation marks, where a backslash escapes, or between apostrophes, where
nothing does. Three of either let the string run over several lines; a line end directly after the
opening is dropped, and up to two of the marks may stand before the closing ones. In a string of
several lines with quotation marks, a backslash at the end of a line drops the blanks and line ends
that follow.

- `escapedChar?`: an escape after its backslash.
- `basicFrom`, `literalFrom`: strings on one line, after the opening mark.
- `longBasic`, `longLiteral`: strings of several lines, after the opening marks.
- `quoted?`: any string.
-/

namespace ProjectConsistency
namespace Toml

/-- What a reader returns: a result and the rest of the text, or nothing if the text is no TOML. -/
abbrev Reading (α : Type) := Option (α × List Char)

/-! ## Escapes -/

def hexDigit? (c : Char) : Option Nat :=
  if '0' ≤ c ∧ c ≤ '9' then some (c.toNat - 48)
  else if 'a' ≤ c ∧ c ≤ 'f' then some (c.toNat - 87)
  else if 'A' ≤ c ∧ c ≤ 'F' then some (c.toNat - 55)
  else none

def hexValue? (digits : List Char) : Option Nat :=
  digits.foldlM (fun n c => (hexDigit? c).map fun d => n * 16 + d) 0

/-- The character of hexadecimal digits, unless it is a surrogate or too large. -/
def scalar? (digits : List Char) : Option Char :=
  (hexValue? digits).bind fun n => if n.isValidChar then some (Char.ofNat n) else none

def simpleEscape? (c : Char) : Option Char :=
  match c with
  | 'b' => some (Char.ofNat 8)
  | 't' => some '\t'
  | 'n' => some '\n'
  | 'f' => some (Char.ofNat 12)
  | 'r' => some '\r'
  | 'e' => some (Char.ofNat 27)
  | '"' => some '"'
  | '\\' => some '\\'
  | _ => none

/-! ## Strings on one line -/

/-- Reads on after an opening quotation mark; `back` holds the characters read, last first. -/
def basicFrom (back : List Char) : List Char → Reading (List Char)
  | [] => none
  | '"' :: rest => some (back.reverse, rest)
  | '\\' :: 'x' :: a :: b :: rest =>
      match scalar? [a, b] with
      | some c => basicFrom (c :: back) rest
      | none => none
  | '\\' :: 'u' :: a :: b :: c :: d :: rest =>
      match scalar? [a, b, c, d] with
      | some c => basicFrom (c :: back) rest
      | none => none
  | '\\' :: 'U' :: a :: b :: c :: d :: e :: f :: g :: h :: rest =>
      match scalar? [a, b, c, d, e, f, g, h] with
      | some c => basicFrom (c :: back) rest
      | none => none
  | '\\' :: c :: rest =>
      match simpleEscape? c with
      | some c => basicFrom (c :: back) rest
      | none => none
  | c :: rest => if c = '\\' || isControl c then none else basicFrom (c :: back) rest

/-- Reads on after an opening apostrophe. -/
def literalFrom (back : List Char) : List Char → Reading (List Char)
  | [] => none
  | '\'' :: rest => some (back.reverse, rest)
  | c :: rest => if isControl c then none else literalFrom (c :: back) rest

/-! ## Strings of several lines -/

/-- Whether a string of several lines is at a backslash that ends a line. -/
inductive Joint where
  /-- It is not. -/
  | text
  /-- After the backslash, before the end of the line. -/
  | opened
  /-- After the end of the line. -/
  | joined
  deriving DecidableEq

/-- Reads on in a string of several lines between quotation marks. -/
def longBasicFrom (joint : Joint) (back : List Char) : List Char → Reading (List Char)
  | [] => none
  | '"' :: '"' :: '"' :: rest =>
      if joint = .opened then none
      else match rest with
        | '"' :: '"' :: rest' => some (('"' :: '"' :: back).reverse, rest')
        | '"' :: rest' => some (('"' :: back).reverse, rest')
        | _ => some (back.reverse, rest)
  | '\r' :: '\n' :: rest =>
      if joint = .text then longBasicFrom .text ('\n' :: '\r' :: back) rest
      else longBasicFrom .joined back rest
  | '\n' :: rest =>
      if joint = .text then longBasicFrom .text ('\n' :: back) rest
      else longBasicFrom .joined back rest
  | ' ' :: rest =>
      if joint = .text then longBasicFrom .text (' ' :: back) rest
      else longBasicFrom joint back rest
  | '\t' :: rest =>
      if joint = .text then longBasicFrom .text ('\t' :: back) rest
      else longBasicFrom joint back rest
  | '\\' :: 'x' :: a :: b :: rest =>
      match joint, scalar? [a, b] with
      | .opened, _ => none
      | _, some c => longBasicFrom .text (c :: back) rest
      | _, none => none
  | '\\' :: 'u' :: a :: b :: c :: d :: rest =>
      match joint, scalar? [a, b, c, d] with
      | .opened, _ => none
      | _, some c => longBasicFrom .text (c :: back) rest
      | _, none => none
  | '\\' :: 'U' :: a :: b :: c :: d :: e :: f :: g :: h :: rest =>
      match joint, scalar? [a, b, c, d, e, f, g, h] with
      | .opened, _ => none
      | _, some c => longBasicFrom .text (c :: back) rest
      | _, none => none
  | '\\' :: ' ' :: rest => if joint = .opened then none else longBasicFrom .opened back rest
  | '\\' :: '\t' :: rest => if joint = .opened then none else longBasicFrom .opened back rest
  | '\\' :: '\n' :: rest => if joint = .opened then none else longBasicFrom .joined back rest
  | '\\' :: '\r' :: '\n' :: rest =>
      if joint = .opened then none else longBasicFrom .joined back rest
  | '\\' :: c :: rest =>
      match joint, simpleEscape? c with
      | .opened, _ => none
      | _, some c => longBasicFrom .text (c :: back) rest
      | _, none => none
  | c :: rest =>
      if joint = .opened || c = '\\' || isControl c then none
      else longBasicFrom .text (c :: back) rest

/-- Reads on in a string of several lines between apostrophes. -/
def longLiteralFrom (back : List Char) : List Char → Reading (List Char)
  | [] => none
  | '\'' :: '\'' :: '\'' :: rest =>
      match rest with
      | '\'' :: '\'' :: rest' => some (('\'' :: '\'' :: back).reverse, rest')
      | '\'' :: rest' => some (('\'' :: back).reverse, rest')
      | _ => some (back.reverse, rest)
  | '\r' :: '\n' :: rest => longLiteralFrom ('\n' :: '\r' :: back) rest
  | '\n' :: rest => longLiteralFrom ('\n' :: back) rest
  | c :: rest => if isControl c then none else longLiteralFrom (c :: back) rest

def dropLineEnd : List Char → List Char
  | '\n' :: rest => rest
  | '\r' :: '\n' :: rest => rest
  | cs => cs

/-- Reads a string; it may run over several lines only if `long` allows it. -/
def quoted? (long : Bool) : List Char → Reading (List Char)
  | '"' :: '"' :: '"' :: rest =>
      if long then longBasicFrom .text [] (dropLineEnd rest) else some ([], '"' :: rest)
  | '\'' :: '\'' :: '\'' :: rest =>
      if long then longLiteralFrom [] (dropLineEnd rest) else some ([], '\'' :: rest)
  | '"' :: rest => basicFrom [] rest
  | '\'' :: rest => literalFrom [] rest
  | _ => none

end Toml
end ProjectConsistency
