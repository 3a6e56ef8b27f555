/-!
# Blanks, comments and line ends of TOML texts

A line ends with a line feed, which may follow a carriage return; a carriage return is allowed
nowhere else. A comment runs to the end of its line and holds no control characters but tabs.

- `skipBlanks`: past spaces and tabs.
- `skipTrivia`: past blanks, comments and line ends.
- `lineEnd`: past blanks, a comment and the end of the line.
-/

namespace ProjectConsistency
namespace Toml

/-- A space or a tab. -/
def isGap (c : Char) : Bool :=
  c == ' ' || c == '\t'

def isControl (c : Char) : Bool :=
  (c.toNat < 0x20 && c != '\t') || c.toNat == 0x7F

/-- The text from its first character that is no space or tab on. -/
def skipBlanks (cs : List Char) : List Char :=
  cs.dropWhile isGap

/-- Passes blanks, comments and line ends; `inComment` tells whether a comment is open. -/
def triviaFrom (inComment : Bool) : List Char → Option (List Char)
  | [] => some []
  | '\n' :: rest => triviaFrom false rest
  | '\r' :: '\n' :: rest => triviaFrom false rest
  | c :: rest =>
      if inComment then if isControl c then none else triviaFrom true rest
      else if c = '#' then triviaFrom true rest
      else if isGap c then triviaFrom false rest
      else some (c :: rest)

/-- The text from its next token on. -/
def skipTrivia (cs : List Char) : Option (List Char) :=
  triviaFrom false cs

/-- Passes the rest of a line and its end; `inComment` tells whether a comment is open. -/
def lineEndFrom (inComment : Bool) : List Char → Option (List Char)
  | [] => some []
  | '\n' :: rest => some rest
  | '\r' :: '\n' :: rest => some rest
  | c :: rest =>
      if inComment then if isControl c then none else lineEndFrom true rest
      else if c = '#' then lineEndFrom true rest
      else if isGap c then lineEndFrom false rest
      else none

/-- The text after the current line, of which only blanks and a comment are left. -/
def lineEnd (cs : List Char) : Option (List Char) :=
  lineEndFrom false cs

end Toml
end ProjectConsistency
