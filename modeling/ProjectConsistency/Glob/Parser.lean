import ProjectConsistency.Glob.Pattern

/-!
# Reading glob patterns

`?` is any byte and `*` any bytes. `**` stands for whole folders when it fills the place between
two slashes, a slash and an end, or the start and a slash. Brackets hold a class, negated by a
leading `!` or `^`; a `]` directly after the opening stands for itself. Braces hold branches with
commas between them and may be nested. A backslash takes the character after it literally.

- `Piece`, `pieces`: characters, escaped characters and classes.
- `Frame`, `tokens`: tokens, with the alternations that are still open.
- `parse?`: a whole pattern. A class or alternation left open, a closing brace without an opening
  one, a range that runs backwards, and a backslash at the end are refused.
-/

namespace ProjectConsistency
namespace Glob

/-! ## Pieces -/

/-- A character, an escaped character, or a class. -/
inductive Piece where
  | plain (c : Char)
  | escaped (c : Char)
  | byteClass (cls : ByteClass)
  deriving DecidableEq, Repr

/-- A class that is not closed yet: its ranges, last first, and whether the last one is growing. -/
structure OpenClass where
  negated : Bool
  ranges : List (Char × Char)
  growing : Bool

namespace OpenClass

/-- A class of which nothing is read yet. -/
def start (negated : Bool) : OpenClass :=
  ⟨negated, [], false⟩

/-- Takes a character into the class, as the end of the growing range or as a range of its own. -/
def take (c : Char) (cls : OpenClass) : Option OpenClass :=
  match cls.growing, cls.ranges with
  | true, (low, _) :: ranges => if c < low then none else some ⟨cls.negated, (low, c) :: ranges, false⟩
  | _, ranges => some ⟨cls.negated, (c, c) :: ranges, false⟩

/-- Takes the next character; a hyphen after a range lets it grow. -/
def next (c : Char) (cls : OpenClass) : Option OpenClass :=
  if c = '-' && !cls.ranges.isEmpty && !cls.growing then some { cls with growing := true }
  else cls.take c

/-- The closed class; a hyphen that let a range grow stands for itself when nothing follows. -/
def close (cls : OpenClass) : ByteClass :=
  let ranges := if cls.growing then ('-', '-') :: cls.ranges else cls.ranges
  ⟨cls.negated, ranges.reverse⟩

end OpenClass

/-- The pieces of a text, the first of which may finish a class. -/
def piecesFrom : Option OpenClass → List Char → Option (List Piece)
  | none, [] => some []
  | none, '[' :: '!' :: rest => piecesFrom (some (.start true)) rest
  | none, '[' :: '^' :: rest => piecesFrom (some (.start true)) rest
  | none, '[' :: rest => piecesFrom (some (.start false)) rest
  | none, '\\' :: c :: rest => (piecesFrom none rest).map (.escaped c :: ·)
  | none, c :: rest => if c = '\\' then none else (piecesFrom none rest).map (.plain c :: ·)
  | some _, [] => none
  | some cls, c :: rest =>
      if c = ']' && !cls.ranges.isEmpty then
        (piecesFrom none rest).map (.byteClass cls.close :: ·)
      else match cls.next c with
        | some cls' => piecesFrom (some cls') rest
        | none => none

def pieces (cs : List Char) : Option (List Piece) :=
  piecesFrom none cs

/-! ## Tokens -/

/-- An open alternation: its finished branches and the tokens before it, both last first. -/
structure Frame where
  branches : List (List Token)
  before : List Token

/-- Replaces the token before a `**` that fills a place between slashes. -/
def replaceLast (token : Token) : List Token → List Token
  | .folders :: back => .folders :: back
  | .inside :: back => .inside :: back
  | _ :: back => token :: back
  | [] => [token]

/-- A `**` may fill a place between slashes after the character `prev`. -/
def canFill (prev : Option Char) (nested : Bool) : Bool :=
  prev = some '/' || (nested && (prev = some ',' || prev = some '{'))

/-- The branch of an alternation ends before the rest. -/
def branchEnds (nested : Bool) : List Piece → Bool
  | [] => true
  | .plain c :: _ => nested && (c = ',' || c = '}')
  | _ => false

/--
Reads tokens. `prev` is the character of the text before the piece, `back` holds the tokens of the
open branch, last first, and `frames` the open alternations, innermost first.
-/
def tokensFrom (prev : Option Char) (back : List Token) (frames : List Frame) :
    List Piece → Option (List Token)
  | [] => if frames.isEmpty then some back.reverse else none
  | .plain '*' :: .plain '*' :: .plain '/' :: rest =>
      if back.isEmpty then tokensFrom (some '/') [.folders] frames rest
      else if canFill prev (!frames.isEmpty) then
        tokensFrom (some '/') (replaceLast .between back) frames rest
      else tokensFrom (some '/') (.literal '/' :: .many :: .many :: back) frames rest
  | .plain '*' :: .plain '*' :: rest =>
      if back.isEmpty then
        tokensFrom (some '*') (if rest.isEmpty then [.folders] else [.many, .many]) frames rest
      else if canFill prev (!frames.isEmpty) && branchEnds (!frames.isEmpty) rest then
        tokensFrom (some '*') (replaceLast .inside back) frames rest
      else tokensFrom (some '*') (.many :: .many :: back) frames rest
  | .plain '*' :: rest => tokensFrom (some '*') (.many :: back) frames rest
  | .plain '?' :: rest => tokensFrom (some '?') (.one :: back) frames rest
  | .plain '{' :: rest => tokensFrom (some '{') [] (⟨[], back⟩ :: frames) rest
  | .plain '}' :: rest =>
      match frames with
      | [] => none
      | frame :: outer =>
          let branches := (back.reverse :: frame.branches).reverse
          tokensFrom (some '}') (.oneOf branches :: frame.before) outer rest
  | .plain ',' :: rest =>
      match frames with
      | [] => tokensFrom (some ',') (.literal ',' :: back) [] rest
      | frame :: outer =>
          tokensFrom (some ',') [] (⟨back.reverse :: frame.branches, frame.before⟩ :: outer) rest
  | .plain c :: rest => tokensFrom (some c) (.literal c :: back) frames rest
  | .escaped c :: rest => tokensFrom (some c) (.literal c :: back) frames rest
  | .byteClass cls :: rest => tokensFrom (some ']') (.byteClass cls :: back) frames rest

/-- Reads a whole pattern. -/
def parse? (cs : List Char) : Option Pattern :=
  (pieces cs).bind (tokensFrom none [] [])

end Glob
end ProjectConsistency
