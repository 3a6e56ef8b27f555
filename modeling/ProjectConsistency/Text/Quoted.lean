/-!
# Quoted texts in messages

A text in a message stands in quotation marks. Quotation marks, backslashes, and characters that do
not show are escaped.

- `isHidden`: a character that does not show by itself.
- `quoted`: the text in quotation marks.
-/

namespace ProjectConsistency
namespace Text

/-- Ranges of characters that do not show: controls, marks of direction, combining marks, blanks
other than the space, and characters for private use. -/
def hiddenRanges : List (Nat × Nat) := [
  (0, 0x1F), (0x7F, 0xA0), (0xAD, 0xAD), (0x300, 0x36F), (0x483, 0x489), (0x591, 0x5BD),
  (0x610, 0x61A), (0x64B, 0x65F), (0x670, 0x670), (0x1680, 0x1680), (0x180B, 0x180F),
  (0x1AB0, 0x1ACE), (0x1DC0, 0x1DFF), (0x2000, 0x200F), (0x2028, 0x202F), (0x205F, 0x206F),
  (0x20D0, 0x20F0), (0x3000, 0x3000), (0x302A, 0x302F), (0x3099, 0x309A), (0xD800, 0xF8FF),
  (0xFE00, 0xFE0F), (0xFE20, 0xFE2F), (0xFEFF, 0xFEFF), (0xFFF0, 0xFFFB), (0xFFFE, 0xFFFF),
  (0xE0000, 0x10FFFF)]

def isHidden (c : Char) : Bool :=
  hiddenRanges.any fun (low, high) => low ≤ c.toNat && c.toNat ≤ high

/-- How a character is written between quotation marks. -/
def quotedChar (c : Char) : List Char :=
  match c with
  | '"' => ['\\', '"']
  | '\\' => ['\\', '\\']
  | '\n' => ['\\', 'n']
  | '\r' => ['\\', 'r']
  | '\t' => ['\\', 't']
  | _ =>
      if c.toNat = 0 then ['\\', '0']
      else if isHidden c then ['\\', 'u', '{'] ++ Nat.toDigits 16 c.toNat ++ ['}']
      else [c]

def quoted (s : String) : String :=
  String.ofList ('"' :: (s.toList.flatMap quotedChar ++ ['"']))

end Text
end ProjectConsistency
