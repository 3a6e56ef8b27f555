/-!
# Errors of JSON texts

- `Json.Fault`: why a text is not JSON.
- `Json.SyntaxError`: the fault with its line and column. Columns count bytes.
- `Json.positionAt`: line and column of a byte offset.
-/

namespace ProjectConsistency
namespace Json

inductive Fault where
  | endInValue
  | endInList
  | endInObject
  | endInString
  | expectedValue
  | expectedWord
  | expectedListSeparator
  | expectedMemberSeparator
  | expectedColon
  | nameNotString
  | trailingComma
  | trailingCharacters
  | invalidNumber
  | numberOutOfRange
  | invalidEscape
  | brokenSurrogatePair
  | loneSurrogate
  | controlCharacter
  | tooDeep
  deriving DecidableEq, Repr

namespace Fault

def message : Fault → String
  | endInValue => "EOF while parsing a value"
  | endInList => "EOF while parsing a list"
  | endInObject => "EOF while parsing an object"
  | endInString => "EOF while parsing a string"
  | expectedValue => "expected value"
  | expectedWord => "expected ident"
  | expectedListSeparator => "expected `,` or `]`"
  | expectedMemberSeparator => "expected `,` or `\x7d`"
  | expectedColon => "expected `:`"
  | nameNotString => "key must be a string"
  | trailingComma => "trailing comma"
  | trailingCharacters => "trailing characters"
  | invalidNumber => "invalid number"
  | numberOutOfRange => "number out of range"
  | invalidEscape => "invalid escape"
  | brokenSurrogatePair => "unexpected end of hex escape"
  | loneSurrogate => "lone leading surrogate in hex escape"
  | controlCharacter => "control character (\\u0000-\\u001F) found while parsing a string"
  | tooDeep => "recursion limit exceeded"

end Fault

structure SyntaxError where
  fault : Fault
  line : Nat
  column : Nat
  deriving DecidableEq, Repr

namespace SyntaxError

def message (e : SyntaxError) : String :=
  e.fault.message ++ " at line " ++ toString e.line ++ " column " ++ toString e.column

end SyntaxError

def byteLength (cs : List Char) : Nat :=
  cs.foldl (fun n c => n + c.utf8Size) 0

/-- Line and column after `offset` more bytes, counted on from a line and column. -/
def positionFrom (line column : Nat) : Nat → List Char → Nat × Nat
  | _, [] => (line, column)
  | 0, _ => (line, column)
  | offset + 1, c :: rest =>
      if c = '\n' then positionFrom (line + 1) 0 offset rest
      else if c.utf8Size ≤ offset + 1 then
        positionFrom line (column + c.utf8Size) (offset + 1 - c.utf8Size) rest
      else (line, column + offset + 1)
termination_by _ cs => cs.length

/-- Line, from one, and column, from zero, of a byte offset. -/
def positionAt (offset : Nat) (cs : List Char) : Nat × Nat :=
  positionFrom 1 0 offset cs

end Json
end ProjectConsistency
