import ProjectConsistency.Naming.Casing
import ProjectConsistency.Naming.Words
import ProjectConsistency.Text.CaseMapping
import ProjectConsistency.Text.Split

/-!
# Checking and changing the case of a name

- `isCompliant`: a name follows a convention.
- `convert`: the name in a convention. A compliant name and a name without words stay as they are.
- `splitStem`: a file name cut before its first dot. Only the stem is held to a convention.
-/

namespace ProjectConsistency
namespace Naming

open Text

/-! ## Compliance -/

/-- A character of a word in lower case: a number, or a letter that is not a capital. -/
def isLowerOrDigit (c : Char) : Bool :=
  isNumeric c || (isAlphabetic c && !isUppercase c)

/-- A character of a word in upper case: a number, or a letter that is not a small one. -/
def isUpperOrDigit (c : Char) : Bool :=
  isNumeric c || (isAlphabetic c && !isLowercase c)

/-- Non-empty words of one class of characters with a separator between each two. -/
def isSeparated (sep : Char) (p : Char → Bool) (name : List Char) : Bool :=
  (splitOn sep name).all fun word => !word.isEmpty && word.all p

/-- Alphanumeric throughout, with a first character of the given class. -/
def isJoined (p : Char → Bool) : List Char → Bool
  | [] => false
  | c :: rest => (c :: rest).all isAlphanumeric && p c

/-- The name follows the convention. The empty name follows none. -/
def isCompliant (name : List Char) (casing : Casing) : Bool :=
  !name.isEmpty && match casing with
    | .kebab => isSeparated '-' isLowerOrDigit name
    | .snake => isSeparated '_' isLowerOrDigit name
    | .screamingSnake => isSeparated '_' isUpperOrDigit name
    | .camel => isJoined isLowerOrDigit name
    | .pascal => isJoined isUpperOrDigit name

/-! ## Conversion -/

def capitalize (word : List Char) : List Char :=
  match lower word with
  | c :: rest => upperChar c ++ rest
  | [] => []

def joinWords (casing : Casing) (words : List (List Char)) : List Char :=
  match casing with
  | .kebab => ['-'].intercalate (words.map lower)
  | .snake => ['_'].intercalate (words.map lower)
  | .screamingSnake => ['_'].intercalate (words.map upper)
  | .camel => match words with
    | first :: rest => lower first ++ rest.flatMap capitalize
    | [] => []
  | .pascal => words.flatMap capitalize

def convert (name : List Char) (casing : Casing) : List Char :=
  if isCompliant name casing then name
  else match splitWords name with
    | [] => name
    | words => joinWords casing words

/-! ## File names -/

/-- A file name cut before its first dot: the stem and the chain of extensions. -/
def splitStem (name : List Char) : List Char × List Char :=
  (name.takeWhile (· ≠ '.'), name.dropWhile (· ≠ '.'))

end Naming
end ProjectConsistency
