import ProjectConsistency.Toml.Quoted
import ProjectConsistency.Toml.Value

/-!
# Unquoted scalars of TOML

- `digits?`: digits of a base, with single underscores between them.
- `integer?`: an integer of 64 bits, decimal with a sign or in base 2, 8 or 16 with its mark.
- `float?`: a decimal with a fraction or an exponent, an infinity, or a NaN. A decimal too large for
  a double is refused.
- `datetime?`: a date, a time, or both with or without an offset; seconds may be left out.
- `scalar?`: any of these, or a truth value, as the whole of a text.
-/

namespace ProjectConsistency
namespace Toml

/-! ## Digits -/

def digitIn? (base : Nat) (c : Char) : Option Nat :=
  (hexDigit? c).filter (· < base)

/--
Reads on in a run of digits after a digit. An underscore counts only between two digits; `none`
stands for an underscore without a digit after it. The result holds the value and the length.
-/
def digitsFrom (base value count : Nat) : List Char → Option (Nat × Nat × List Char)
  | '_' :: c :: rest =>
      match digitIn? base c with
      | some d => digitsFrom base (value * base + d) (count + 1) rest
      | none => none
  | c :: rest =>
      match digitIn? base c with
      | some d => digitsFrom base (value * base + d) (count + 1) rest
      | none => if c = '_' then none else some (value, count, c :: rest)
  | [] => some (value, count, [])

/-- Reads a run of digits: its value, its length and the rest. -/
def digits? (base : Nat) : List Char → Option (Nat × Nat × List Char)
  | c :: rest => (digitIn? base c).bind fun d => digitsFrom base d 1 rest
  | [] => none

/-! ## Integers -/

/-- The integer, if it fits 64 bits. -/
def fit? (n : Int) : Option Toml :=
  if -9223372036854775808 ≤ n ∧ n ≤ 9223372036854775807 then some (.integer n) else none

/-- A run of digits that is the whole text. -/
def allDigits? (base : Nat) (cs : List Char) : Option Nat :=
  match digits? base cs with
  | some (n, _, []) => some n
  | _ => none

/-- The sign of a number and what follows it. -/
def sign (cs : List Char) : Bool × List Char :=
  match cs with
  | '+' :: rest => (false, rest)
  | '-' :: rest => (true, rest)
  | _ => (false, cs)

def signed (negative : Bool) (n : Nat) : Int :=
  if negative then -n else n

def noLeadingZero : List Char → Bool
  | '0' :: c :: _ => !(c.isDigit || c == '_')
  | _ => true

def integer? (cs : List Char) : Option Toml :=
  match cs with
  | '0' :: 'x' :: rest => (allDigits? 16 rest).bind fun n => fit? n
  | '0' :: 'o' :: rest => (allDigits? 8 rest).bind fun n => fit? n
  | '0' :: 'b' :: rest => (allDigits? 2 rest).bind fun n => fit? n
  | _ =>
      let (negative, rest) := sign cs
      if noLeadingZero rest then (allDigits? 10 rest).bind fun n => fit? (signed negative n)
      else none

/-! ## Floats -/

def infinity (negative : Bool) : Double :=
  ⟨if negative then 0xFFF0000000000000 else 0x7FF0000000000000⟩

def notANumber (negative : Bool) : Double :=
  ⟨if negative then 0xFFF8000000000000 else 0x7FF8000000000000⟩

/-- Reads an exponent after its letter, as the whole of a text. -/
def exponent? (cs : List Char) : Option Int :=
  let (negative, rest) := sign cs
  (allDigits? 10 rest).map (signed negative)

/-- Reads a float after its sign. -/
def magnitude? (negative : Bool) (cs : List Char) : Option Double :=
  if cs = ['i', 'n', 'f'] then some (infinity negative)
  else if cs = ['n', 'a', 'n'] then some (notANumber negative)
  else if !noLeadingZero cs then none
  else match digits? 10 cs with
    | some (whole, _, '.' :: rest) =>
        match digits? 10 rest with
        | some (part, places, rest') =>
            let significand := whole * Nat.pow 10 places + part
            match rest' with
            | [] => Double.nearest? negative significand (-(places : Int))
            | c :: rest'' =>
                if c = 'e' || c = 'E' then
                  (exponent? rest'').bind fun e => Double.nearest? negative significand (e - places)
                else none
        | none => none
    | some (whole, _, c :: rest) =>
        if c = 'e' || c = 'E' then
          (exponent? rest).bind fun e => Double.nearest? negative whole e
        else none
    | _ => none

def float? (cs : List Char) : Option Toml :=
  let (negative, rest) := sign cs
  (magnitude? negative rest).map .float

/-! ## Dates and times -/

/-- The number of two decimal digits, if it lies between the bounds. -/
def pair? (low high : Nat) (a b : Char) : Option Nat :=
  (allDigits? 10 [a, b]).filter fun n => low ≤ n && n ≤ high

/-- The year has a twenty-ninth of February. -/
def isLeapYear (year : Nat) : Bool :=
  year % 4 == 0 && (year % 100 != 0 || year % 400 == 0)

def daysIn (year month : Nat) : Nat :=
  if month = 2 then if isLeapYear year then 29 else 28
  else if month = 4 || month = 6 || month = 9 || month = 11 then 30
  else 31

/-- Reads a date; the result is the date as it is usually written. -/
def date? : List Char → Option (List Char × List Char)
  | y₁ :: y₂ :: y₃ :: y₄ :: '-' :: m₁ :: m₂ :: '-' :: d₁ :: d₂ :: rest => do
      let century ← pair? 0 99 y₁ y₂
      let year ← pair? 0 99 y₃ y₄
      let month ← pair? 1 12 m₁ m₂
      let _ ← pair? 1 (daysIn (century * 100 + year) month) d₁ d₂
      some ([y₁, y₂, y₃, y₄, '-', m₁, m₂, '-', d₁, d₂], rest)
  | _ => none

/-- The decimals of a second, to nine places and without trailing zeros. -/
def decimals (digits : List Char) : List Char :=
  match ((digits.take 9).reverse.dropWhile (· = '0')).reverse with
  | [] => []
  | shown => '.' :: shown

/-- Reads a time; the result is the time as it is usually written. -/
def time? : List Char → Option (List Char × List Char)
  | h₁ :: h₂ :: ':' :: m₁ :: m₂ :: rest => do
      let _ ← pair? 0 23 h₁ h₂
      let _ ← pair? 0 59 m₁ m₂
      match rest with
      | ':' :: s₁ :: s₂ :: rest' =>
          let _ ← pair? 0 60 s₁ s₂
          match rest' with
          | '.' :: c :: rest'' =>
              if c.isDigit then
                some ([h₁, h₂, ':', m₁, m₂, ':', s₁, s₂]
                  ++ decimals ((c :: rest'').takeWhile Char.isDigit),
                  (c :: rest'').dropWhile Char.isDigit)
              else none
          | _ => some ([h₁, h₂, ':', m₁, m₂, ':', s₁, s₂], rest')
      | _ => some ([h₁, h₂, ':', m₁, m₂, ':', '0', '0'], rest)
  | _ => none

/-- Reads an offset, which may be left out, as the whole of a text. -/
def offset? : List Char → Option (List Char)
  | [] => some []
  | ['Z'] => some ['Z']
  | ['z'] => some ['Z']
  | [s, h₁, h₂, ':', m₁, m₂] =>
      if s = '+' || s = '-' then do
        let _ ← pair? 0 23 h₁ h₂
        let _ ← pair? 0 59 m₁ m₂
        some [s, h₁, h₂, ':', m₁, m₂]
      else none
  | _ => none

/-- Reads a date, a time, or both. -/
def datetime? (cs : List Char) : Option Toml :=
  match date? cs with
  | some (date, []) => some (.datetime (String.ofList date))
  | some (date, c :: rest) =>
      if c = 'T' || c = 't' || c = ' ' then do
        let (time, rest') ← time? rest
        let offset ← offset? rest'
        some (.datetime (String.ofList (date ++ ['T'] ++ time ++ offset)))
      else none
  | none =>
      match time? cs with
      | some (time, []) => some (.datetime (String.ofList time))
      | _ => none

/-! ## Scalars -/

def scalarValue? (cs : List Char) : Option Toml :=
  if cs = ['t', 'r', 'u', 'e'] then some (.boolean true)
  else if cs = ['f', 'a', 'l', 's', 'e'] then some (.boolean false)
  else (integer? cs).or ((float? cs).or (datetime? cs))

def isScalarChar (c : Char) : Bool :=
  c.isAlphanum || c == '_' || c == '-' || c == '+' || c == '.' || c == ':'

/-- Reads an unquoted scalar; a date may be separated from its time by a space. -/
def bare? (cs : List Char) : Reading Toml :=
  let first := cs.takeWhile isScalarChar
  match cs.dropWhile isScalarChar with
  | ' ' :: c :: rest =>
      if c.isDigit && (date? first).any fun (_, left) => left.isEmpty then
        (scalarValue? (first ++ ' ' :: (c :: rest).takeWhile isScalarChar)).map
          ((·, (c :: rest).dropWhile isScalarChar))
      else (scalarValue? first).map ((·, ' ' :: c :: rest))
  | rest => (scalarValue? first).map ((·, rest))

end Toml
end ProjectConsistency
