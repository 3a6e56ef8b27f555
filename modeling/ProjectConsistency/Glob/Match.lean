import ProjectConsistency.Glob.Pattern

/-!
# Matching names against glob patterns

What a token leaves of a name is again the end of that name, so a set of rests is a list of ends,
longest first and each once. A token maps such a set to another one.

- `Rests`: the sets, with union and the rests that any bytes leave.
- `Token.advance`: the rests after a token.
- `Pattern.isMatch`: some way through the pattern leaves nothing.
-/

namespace ProjectConsistency
namespace Glob

/-! ## Rests of a name -/

/-- Ends of one name, longest first and each once. -/
abbrev Rests := List (List UInt8)

def slash : UInt8 := 47

namespace Rests

def union : Rests → Rests → Rests
  | [], ys => ys
  | xs, [] => xs
  | x :: xs, y :: ys =>
      if x.length = y.length then x :: union xs ys
      else if y.length < x.length then x :: union xs (y :: ys)
      else y :: union (x :: xs) ys
termination_by xs ys => xs.length + ys.length

def ends : List UInt8 → Rests
  | [] => [[]]
  | b :: rest => (b :: rest) :: ends rest

/-- The ends of a name that come after one of its slashes. -/
def afterSlash : List UInt8 → Rests
  | [] => []
  | b :: rest => if b = slash then rest :: afterSlash rest else afterSlash rest

/-- What is left after any bytes. -/
def skip (rests : Rests) : Rests :=
  rests.head?.elim [] ends

/-- What is left after any bytes that end in a slash. -/
def skipFolders (rests : Rests) : Rests :=
  rests.head?.elim [] afterSlash

/-- What is left after the given bytes. -/
def drop (bytes : List UInt8) (rests : Rests) : Rests :=
  rests.filterMap fun rest =>
    if bytes.isPrefixOf rest then some (rest.drop bytes.length) else none

/-- What is left after one byte of a class. -/
def dropOne (p : UInt8 → Bool) (rests : Rests) : Rests :=
  rests.filterMap fun
    | b :: rest => if p b then some rest else none
    | [] => none

end Rests

/-! ## Tokens -/

mutual

/-- The token asks for nothing: an alternation whose branches all ask for nothing. -/
def Token.isVoid : Token → Bool
  | .oneOf branches => areVoid branches
  | _ => false

/-- All tokens of a branch ask for nothing. -/
def isVoid : List Token → Bool
  | [] => true
  | t :: rest => t.isVoid && isVoid rest

def areVoid : List (List Token) → Bool
  | [] => true
  | branch :: rest => isVoid branch && areVoid rest

end

mutual

def Token.advance (rests : Rests) : Token → Rests
  | .literal c => rests.drop (bytesOf c)
  | .one => rests.dropOne fun _ => true
  | .many => rests.skip
  | .byteClass cls => rests.dropOne cls.holds
  | .folders => rests.union rests.skipFolders
  | .inside => (rests.drop [slash]).skip
  | .between => (rests.drop [slash]).union (rests.drop [slash]).skipFolders
  | .oneOf branches => if areVoid branches then rests else advanceAny rests branches

def advanceAll (rests : Rests) : List Token → Rests
  | [] => rests
  | t :: rest => advanceAll (t.advance rests) rest

/-- The rests after one of the branches, of those that ask for something. -/
def advanceAny (rests : Rests) : List (List Token) → Rests
  | [] => []
  | branch :: others =>
      if isVoid branch then advanceAny rests others
      else (advanceAll rests branch).union (advanceAny rests others)

end

namespace Pattern

/-- The pattern matches the whole name. A pattern that is nothing but `**` matches every name. -/
def isMatch (pattern : Pattern) (name : List UInt8) : Bool :=
  match pattern with
  | [.folders] => true
  | _ => (advanceAll [name] pattern).contains []

end Pattern

end Glob
end ProjectConsistency
