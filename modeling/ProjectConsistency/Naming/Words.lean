import ProjectConsistency.Text.Numeric
import ProjectConsistency.Text.LetterCase

/-!
# The words of a name

A name is cut at every character that is not alphanumeric. Inside a run of alphanumeric characters
a capital starts a new word after a lower-case character, after a number, and after a capital when
a lower-case character follows it. So `myFile` is `my File`, `v2Api` is `v2 Api` and `HTMLParser`
is `HTML Parser`.

- `startsWord`: the boundary rule for two neighbours and the character after them.
- `splitWords`: the words.
-/

namespace ProjectConsistency
namespace Naming

open Text

/-- The character after the boundary, if any, is lower case. -/
def nextIsLowercase : List Char → Bool
  | c :: _ => isLowercase c
  | [] => false

/-- A capital `c` directly after `prev` starts a word when `rest` follows it. -/
def startsWord (prev c : Char) (rest : List Char) : Bool :=
  isUppercase c &&
    (isLowercase prev || isNumeric prev || (isUppercase prev && nextIsLowercase rest))

/-- A word, unless it is empty, before other words. -/
def consWord (back : List Char) (words : List (List Char)) : List (List Char) :=
  if back.isEmpty then words else back.reverse :: words

/-- The words of a text, where `back` is the open word, last character first. -/
def wordsFrom (back : List Char) : List Char → List (List Char)
  | [] => consWord back []
  | c :: rest =>
      if isAlphanumeric c then
        match back with
        | prev :: _ =>
            if startsWord prev c rest then back.reverse :: wordsFrom [c] rest
            else wordsFrom (c :: back) rest
        | [] => wordsFrom [c] rest
      else consWord back (wordsFrom [] rest)

def splitWords (name : List Char) : List (List Char) :=
  wordsFrom [] name

end Naming
end ProjectConsistency
