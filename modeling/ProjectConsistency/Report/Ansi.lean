/-!
# Colours of a terminal

- `Ansi.Style`: a colour or a weight; `Style.code`: the control sequence that turns it on.
- `Ansi.paint`: a text in a style, if colours are on.
- `Ansi.strip`: a text without control sequences.
-/

namespace ProjectConsistency
namespace Ansi

/-- The character that begins a control sequence. -/
def escape : Char := Char.ofNat 27

/-- A colour or a weight. -/
inductive Style where
  | red
  | green
  | yellow
  | cyan
  | bold
  | dim
  deriving DecidableEq, Repr

def sequence (number : String) : String :=
  String.ofList [escape] ++ "[" ++ number ++ "m"

/-- The control sequence that turns all styles off. -/
def reset : String :=
  sequence "0"

namespace Style

/-- The control sequence that turns a style on. -/
def code : Style → String
  | red => sequence "31"
  | green => sequence "32"
  | yellow => sequence "33"
  | cyan => sequence "36"
  | bold => sequence "1"
  | dim => sequence "2"

end Style

def paint (colours : Bool) (styles : List Style) (text : String) : String :=
  if colours then String.join (styles.map Style.code) ++ text ++ reset else text

/-- A text without control sequences; `inside` tells whether one is open. -/
def stripFrom (inside : Bool) : List Char → List Char
  | [] => []
  | c :: rest =>
      if inside then stripFrom (c ≠ 'm') rest
      else if c = escape then stripFrom true rest
      else c :: stripFrom false rest

/-- A text without control sequences. -/
def strip (text : String) : String :=
  String.ofList (stripFrom false text.toList)

end Ansi
end ProjectConsistency
