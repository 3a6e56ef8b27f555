/-!
# White space

- `isBlank`: the Unicode property White_Space.
- `trimStart`, `trim`: a text without the white space at its ends.
- `trimEndWhere`, `trimWhere`: the same for any class of characters.
-/

namespace ProjectConsistency
namespace Text

/-- A white-space character. -/
def isBlank (c : Char) : Bool :=
  let n := c.toNat
  (9 ≤ n && n ≤ 13) || n == 0x20 || n == 0x85 || n == 0xA0 || n == 0x1680
    || (0x2000 ≤ n && n ≤ 0x200A) || n == 0x2028 || n == 0x2029 || n == 0x202F
    || n == 0x205F || n == 0x3000

/-- A text without its longest suffix of characters of a class. -/
def trimEndWhere (p : Char → Bool) (cs : List Char) : List Char :=
  (cs.reverse.dropWhile p).reverse

/-- A text without the characters of a class at both ends. -/
def trimWhere (p : Char → Bool) (cs : List Char) : List Char :=
  trimEndWhere p (cs.dropWhile p)

/-- A text without leading white space. -/
def trimStart (cs : List Char) : List Char :=
  cs.dropWhile isBlank

/-- A text without white space at both ends. -/
def trim (cs : List Char) : List Char :=
  trimWhere isBlank cs

end Text
end ProjectConsistency
