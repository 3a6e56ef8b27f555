/-!
# Lines

A line ends at a line feed. A carriage return directly before the line feed belongs to the line
end; any other carriage return belongs to the line. Text after the last line feed is a line of its
own, unless it is empty.

- `lines`: the lines of a text, without their ends.
- `joinLines`: lines with a line feed between each two.
-/

namespace ProjectConsistency
namespace Text

/-- The line whose characters, last first, are `back`, when a line feed follows it. -/
def endedLine : List Char → List Char
  | '\r' :: back => back.reverse
  | back => back.reverse

/-- Collects lines: `back` is the open line and `found` the finished lines, both last first. -/
def linesFrom (back : List Char) (found : List (List Char)) : List Char → List (List Char)
  | [] => if back.isEmpty then found.reverse else (back.reverse :: found).reverse
  | '\n' :: rest => linesFrom [] (endedLine back :: found) rest
  | c :: rest => linesFrom (c :: back) found rest

def lines (cs : List Char) : List (List Char) :=
  linesFrom [] [] cs

def joinLines (ls : List (List Char)) : List Char :=
  ['\n'].intercalate ls

end Text
end ProjectConsistency
