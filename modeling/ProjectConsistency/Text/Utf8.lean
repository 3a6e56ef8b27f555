/-!
# Reading bytes as text

- `decode?`: the text of a byte sequence, if it is well-formed UTF-8.
- `decodeLossy`: the text of any byte sequence. Each longest piece that could begin a character but
  does not finish one, and each byte that can begin none, is read as the replacement character.
-/

namespace ProjectConsistency
namespace Text

/-- The character that stands for bytes that are no text. -/
def replacement : Char := Char.ofNat 0xFFFD

/-- What a first byte asks for: how many continuation bytes follow, and the range of the first. -/
def leadByte (b : Nat) : Option (Nat × Nat × Nat) :=
  if 0xC2 ≤ b && b ≤ 0xDF then some (1, 0x80, 0xBF)
  else if b == 0xE0 then some (2, 0xA0, 0xBF)
  else if b == 0xED then some (2, 0x80, 0x9F)
  else if 0xE1 ≤ b && b ≤ 0xEF then some (2, 0x80, 0xBF)
  else if b == 0xF0 then some (3, 0x90, 0xBF)
  else if 0xF1 ≤ b && b ≤ 0xF3 then some (3, 0x80, 0xBF)
  else if b == 0xF4 then some (3, 0x80, 0x8F)
  else none

/-- The part of a first byte that belongs to the code point. -/
def leadBits (owed b : Nat) : Nat :=
  match owed with
  | 1 => b % 0x20
  | 2 => b % 0x10
  | _ => b % 0x08

/--
Decodes with a pending character: `owed` continuation bytes are still missing, the next one must
lie between `low` and `high`, and `code` holds the bits read. `owed = 0` means nothing is pending.
The characters read so far, last first, are `back`.
-/
def decodeFrom (owed low high code : Nat) (back : List Char) : List UInt8 → List Char
  | [] => (if owed = 0 then back else replacement :: back).reverse
  | byte :: rest =>
      let b := byte.toNat
      if owed ≠ 0 && low ≤ b && b ≤ high then
        let code' := code * 64 + b % 64
        if owed = 1 then decodeFrom 0 0 0 0 (Char.ofNat code' :: back) rest
        else decodeFrom (owed - 1) 0x80 0xBF code' back rest
      else
        let back' := if owed = 0 then back else replacement :: back
        if b < 0x80 then decodeFrom 0 0 0 0 (Char.ofNat b :: back') rest
        else match leadByte b with
          | some (owed', low', high') =>
              decodeFrom owed' low' high' (leadBits owed' b) back' rest
          | none => decodeFrom 0 0 0 0 (replacement :: back') rest

/-- The text of a byte sequence, with replacement characters for what is no text. -/
def decodeLossy (bytes : ByteArray) : String :=
  String.ofList (decodeFrom 0 0 0 0 [] bytes.toList)

/-- The text of a well-formed byte sequence. -/
def decode? (bytes : ByteArray) : Option String :=
  String.fromUTF8? bytes

end Text
end ProjectConsistency
