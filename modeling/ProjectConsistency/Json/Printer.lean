import ProjectConsistency.Json.Basic
import ProjectConsistency.Decimal.Shortest

/-!
# Writing JSON

- `quote`: a string with its quotes and escapes.
- `compact`: a value without blanks.
- `Layout`, `pretty`: a value with one item or member a line, indented by two spaces a level, where
  the members of an object come in the order given.
-/

namespace ProjectConsistency
namespace Json

/-! ## Strings and numbers -/

def hexChar (n : Nat) : Char :=
  if n < 10 then Char.ofNat (48 + n) else Char.ofNat (87 + n)

def escape (c : Char) : List Char :=
  match c with
  | '"' => ['\\', '"']
  | '\\' => ['\\', '\\']
  | '\n' => ['\\', 'n']
  | '\r' => ['\\', 'r']
  | '\t' => ['\\', 't']
  | _ =>
      if c.toNat = 8 then ['\\', 'b']
      else if c.toNat = 12 then ['\\', 'f']
      else if c.toNat < 0x20 then
        ['\\', 'u', '0', '0', hexChar (c.toNat / 16), hexChar (c.toNat % 16)]
      else [c]

def quoteChars (cs : List Char) : List Char :=
  '"' :: (cs.flatMap escape ++ ['"'])

def quote (s : String) : String :=
  String.ofList (quoteChars s.toList)

namespace Number

def text : Number → String
  | integer n => toString n
  | double x => x.exponentText

end Number

/-! ## Compact -/

mutual

def compact : Json → String
  | null => "null"
  | bool b => if b then "true" else "false"
  | number n => n.text
  | string s => quote s
  | array items => "[" ++ ",".intercalate (compactItems items) ++ "]"
  | object members => "\x7b" ++ ",".intercalate (compactMembers members) ++ "\x7d"

def compactItems : List Json → List String
  | [] => []
  | x :: rest => compact x :: compactItems rest

def compactMembers : List (String × Json) → List String
  | [] => []
  | (name, x) :: rest => (quote name ++ ":" ++ compact x) :: compactMembers rest

end

/-! ## Pretty -/

/-- The start of a line at a level. -/
def indentation (level : Nat) : String :=
  String.ofList (List.replicate (2 * level) ' ')

/-- Parts of a list or object on lines of their own, between an opening and a closing bracket. -/
def block (level : Nat) (opening closing : String) (parts : List String) : String :=
  if parts.isEmpty then opening ++ closing
  else
    opening ++ "\n" ++ indentation (level + 1)
      ++ (",\n" ++ indentation (level + 1)).intercalate parts
      ++ "\n" ++ indentation level ++ closing

mutual

/-- A value whose first line is continued at the given level. -/
def prettyAt (level : Nat) : Json → String
  | null => "null"
  | bool b => if b then "true" else "false"
  | number n => n.text
  | string s => quote s
  | array items => block level "[" "]" (prettyItems (level + 1) items)
  | object members => block level "\x7b" "\x7d" (prettyMembers (level + 1) members)

def prettyItems (level : Nat) : List Json → List String
  | [] => []
  | x :: rest => prettyAt level x :: prettyItems level rest

def prettyMembers (level : Nat) : List (String × Json) → List String
  | [] => []
  | (name, x) :: rest => (quote name ++ ": " ++ prettyAt level x) :: prettyMembers level rest

end

def pretty (value : Json) : String :=
  prettyAt 0 value

end Json
end ProjectConsistency
