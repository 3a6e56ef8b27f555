import ProjectConsistency.Text.Utf8

/-!
# Names of entries

The name of an entry can be any bytes but zeros and slashes. A name is kept as text: a byte that is
part of no character is written as two characters, the one with the number zero, which is in no name,
and the one with the number of the byte.

- `RawName.stray`: a byte that is part of no character.
- `RawName.isText`: there is no such byte in the name.
- `RawName.bytes`: the bytes of a name.
- `RawName.shown`: a name as it is shown, with replacement characters for what is no text.
-/

namespace ProjectConsistency
namespace RawName

/-- The character before the number of a byte that is part of no character. -/
def mark : Char := Char.ofNat 0

/-- A byte that is part of no character. -/
def stray (b : UInt8) : String :=
  String.ofList [mark, Char.ofNat b.toNat]

def isText (name : String) : Bool :=
  !name.toList.contains mark

def bytesFrom : List Char → List UInt8
  | [] => []
  | [c] => String.utf8EncodeChar c
  | c :: d :: rest =>
      if c = mark then d.toNat.toUInt8 :: bytesFrom rest
      else String.utf8EncodeChar c ++ bytesFrom (d :: rest)

def bytes (name : String) : List UInt8 :=
  if isText name then name.toUTF8.data.toList else bytesFrom name.toList

def shown (name : String) : String :=
  if isText name then name else Text.decodeLossy ⟨(bytes name).toArray⟩

end RawName
end ProjectConsistency
