import ProjectConsistency.Json.Basic
import ProjectConsistency.Json.Error

/-!
# Reading JSON

The grammar is the standard one: no comments, no trailing commas, strings with paired surrogates
only, and at most 127 levels of lists and objects. An integer that does not fit 64 bits and minus
zero are read as doubles; a number too large for a double is an error. Of equal member names the
last counts.

- `Stop`: a fault, with the text that was left when it was met.
- `string`, `number`, `value`: the readers; each returns what it read and what is left.
- `parse`: a whole text.
-/

namespace ProjectConsistency
namespace Json

/-- A fault met `past` bytes into the rest of the text. -/
structure Stop where
  fault : Fault
  rest : List Char
  past : Nat

/-- What a reader returns: a result and the rest of the text. -/
abbrev Reading (α : Type) := Except Stop (α × List Char)

namespace Stop

def here (fault : Fault) (rest : List Char) : Stop :=
  ⟨fault, rest, 0⟩

/-- A fault shown by the next byte of the text. -/
def ahead (fault : Fault) (rest : List Char) : Stop :=
  ⟨fault, rest, 1⟩

def toSyntaxError (text : List Char) (stop : Stop) : SyntaxError :=
  let total := byteLength text
  let offset := min total (total - byteLength stop.rest + stop.past)
  let (line, column) := positionAt offset text
  ⟨stop.fault, line, column⟩

end Stop

/-! ## Blanks and words -/

/-- A blank between tokens. -/
def isGap (c : Char) : Bool :=
  c == ' ' || c == '\n' || c == '\t' || c == '\r'

def skipGap (cs : List Char) : List Char :=
  cs.dropWhile isGap

def word (value : Json) : List Char → List Char → Reading Json
  | [], rest => .ok (value, rest)
  | _ :: _, [] => .error (.here .endInValue [])
  | w :: ws, c :: rest =>
      if w = c then word value ws rest else .error (.ahead .expectedWord (c :: rest))

/-! ## Strings -/

/-- The value of a hexadecimal digit. -/
def hexDigit? (c : Char) : Option Nat :=
  if '0' ≤ c ∧ c ≤ '9' then some (c.toNat - 48)
  else if 'a' ≤ c ∧ c ≤ 'f' then some (c.toNat - 87)
  else if 'A' ≤ c ∧ c ≤ 'F' then some (c.toNat - 55)
  else none

def hexUnit? (a b c d : Char) : Option Nat := do
  let a ← hexDigit? a
  let b ← hexDigit? b
  let c ← hexDigit? c
  let d ← hexDigit? d
  return ((a * 16 + b) * 16 + c) * 16 + d

/-- The fault of four bytes that are no hexadecimal unit. -/
def unitStop (cs : List Char) : Stop :=
  if byteLength cs < 4 then .here .endInString [] else ⟨.invalidEscape, cs, 4⟩

def simpleEscape? (c : Char) : Option Char :=
  match c with
  | '"' => some '"'
  | '\\' => some '\\'
  | '/' => some '/'
  | 'b' => some (Char.ofNat 8)
  | 'f' => some (Char.ofNat 12)
  | 'n' => some '\n'
  | 'r' => some '\r'
  | 't' => some '\t'
  | _ => none

def isHighSurrogate (n : Nat) : Bool :=
  0xD800 ≤ n && n ≤ 0xDBFF

def isLowSurrogate (n : Nat) : Bool :=
  0xDC00 ≤ n && n ≤ 0xDFFF

def pairedChar (high low : Nat) : Char :=
  Char.ofNat ((high - 0xD800) * 0x400 + (low - 0xDC00) + 0x10000)

/-- Reads on after an opening quote; `back` holds the characters read, last first. -/
def stringFrom (back : List Char) : List Char → Reading String
  | [] => .error (.here .endInString [])
  | '"' :: rest => .ok (String.ofList back.reverse, rest)
  | '\\' :: rest =>
      match rest with
      | [] => .error (.here .endInString [])
      | 'u' :: units =>
          match units with
          | a :: b :: c :: d :: rest' =>
              match hexUnit? a b c d with
              | none => .error (unitStop units)
              | some n =>
                  if isLowSurrogate n then .error (.here .loneSurrogate rest')
                  else if isHighSurrogate n then
                    match rest' with
                    | [] => .error (.here .endInString [])
                    | '\\' :: rest'' =>
                        match rest'' with
                        | [] => .error (.here .endInString [])
                        | 'u' :: units' =>
                            match units' with
                            | e :: f :: g :: h :: rest''' =>
                                match hexUnit? e f g h with
                                | none => .error (unitStop units')
                                | some m =>
                                    if isLowSurrogate m then
                                      stringFrom (pairedChar n m :: back) rest'''
                                    else .error (.here .loneSurrogate rest''')
                            | _ => .error (unitStop units')
                        | _ => .error (.ahead .brokenSurrogatePair rest'')
                    | _ => .error (.ahead .brokenSurrogatePair rest')
                  else stringFrom (Char.ofNat n :: back) rest'
          | _ => .error (unitStop units)
      | c :: rest' =>
          match simpleEscape? c with
          | some e => stringFrom (e :: back) rest'
          | none => .error (.ahead .invalidEscape rest)
  | c :: rest =>
      if c.toNat < 0x20 then .error (.ahead .controlCharacter (c :: rest))
      else stringFrom (c :: back) rest

/-! ## Numbers -/

def digit? (c : Char) : Option Nat :=
  if '0' ≤ c ∧ c ≤ '9' then some (c.toNat - 48) else none

/-- The first integer that does not fit 64 bits. -/
def wordLimit : Nat := 18446744073709551616

/-- The largest magnitude of a negative integer that fits 64 bits. -/
def negativeLimit : Nat := 9223372036854775808

/-- The first exponent that does not fit 32 bits with a sign. -/
def exponentLimit : Nat := 2147483648

/-- A double read before `rest`. -/
def scaled (negative : Bool) (significand : Nat) (exponent : Int) (rest : List Char) :
    Reading Number :=
  match Double.scale? negative significand exponent with
  | some x => .ok (.double x, rest)
  | none => .error (.here .numberOutOfRange rest)

/-- The text from its first character that is no digit on. -/
def skipDigits (cs : List Char) : List Char :=
  cs.dropWhile fun c => (digit? c).isSome

/-- Reads the digits of an exponent; an exponent of 32 bits or more decides the number at once. -/
def exponentFrom (negative : Bool) (significand : Nat) (start : Int) (positive : Bool) (e : Nat) :
    List Char → Reading Number
  | [] => scaled negative significand (if positive then start + e else start - e) []
  | c :: rest =>
      match digit? c with
      | none => scaled negative significand (if positive then start + e else start - e) (c :: rest)
      | some d =>
          if e * 10 + d < exponentLimit then
            exponentFrom negative significand start positive (e * 10 + d) rest
          else if significand ≠ 0 && positive then .error (.here .numberOutOfRange rest)
          else .ok (.double (Double.withSign negative 0), skipDigits rest)

/-- Reads an exponent after its letter. -/
def exponent (negative : Bool) (significand : Nat) (start : Int) (cs : List Char) :
    Reading Number :=
  let (positive, cs) := match cs with
    | '+' :: rest => (true, rest)
    | '-' :: rest => (false, rest)
    | _ => (true, cs)
  match cs with
  | [] => .error (.here .endInValue [])
  | c :: rest =>
      match digit? c with
      | none => .error (.ahead .invalidNumber cs)
      | some d => exponentFrom negative significand start positive d rest

def exponent? (negative : Bool) (significand : Nat) (start : Int) (cs : List Char) :
    Reading Number :=
  match cs with
  | 'e' :: rest => exponent negative significand start rest
  | 'E' :: rest => exponent negative significand start rest
  | _ => scaled negative significand start cs

/-- Reads the digits after a point; digits past 64 bits are passed over. -/
def fractionFrom (negative : Bool) (significand : Nat) (start : Int) (some? : Bool) :
    List Char → Reading Number
  | [] =>
      if some? then scaled negative significand start []
      else .error (.here .endInValue [])
  | c :: rest =>
      match digit? c with
      | none =>
          if some? then exponent? negative significand start (c :: rest)
          else .error (.ahead .invalidNumber (c :: rest))
      | some d =>
          if significand * 10 + d < wordLimit then
            fractionFrom negative (significand * 10 + d) (start - 1) true rest
          else exponent? negative significand start (skipDigits rest)

/-- Reads on in an integer of more than 64 bits, counting the digits passed over. -/
def longInteger (negative : Bool) (significand : Nat) (passed : Int) :
    List Char → Reading Number
  | [] => scaled negative significand passed []
  | c :: rest =>
      if (digit? c).isSome then longInteger negative significand (passed + 1) rest
      else if c = '.' then fractionFrom negative significand passed false rest
      else exponent? negative significand passed (c :: rest)

def numberTail (negative : Bool) (significand : Nat) (cs : List Char) : Reading Number :=
  match cs with
  | '.' :: rest => fractionFrom negative significand 0 false rest
  | 'e' :: rest => exponent negative significand 0 rest
  | 'E' :: rest => exponent negative significand 0 rest
  | _ =>
      if !negative then .ok (.integer significand, cs)
      else if significand = 0 || negativeLimit < significand then
        .ok (.double (Double.withSign true (UInt64.ofNat significand).toFloat), cs)
      else .ok (.integer (-(significand : Int)), cs)

def integerFrom (negative : Bool) (significand : Nat) : List Char → Reading Number
  | [] => numberTail negative significand []
  | c :: rest =>
      match digit? c with
      | none => numberTail negative significand (c :: rest)
      | some d =>
          if significand * 10 + d < wordLimit then integerFrom negative (significand * 10 + d) rest
          else longInteger negative significand 0 (c :: rest)

def number? (negative : Bool) (cs : List Char) : Reading Number :=
  match cs with
  | [] => .error (.here .endInValue [])
  | '0' :: rest =>
      match rest with
      | c :: _ =>
          if (digit? c).isSome then .error (.ahead .invalidNumber rest)
          else numberTail negative 0 rest
      | [] => numberTail negative 0 []
  | c :: rest =>
      match digit? c with
      | some d => integerFrom negative d rest
      | none => .error (.ahead .invalidNumber cs)

/-! ## Lists and objects -/

/--
Reads the items of a list, each with `item`. An item takes at least one character, so `fuel` steps
suffice when the text is no longer than that.
-/
def itemsFrom (item : List Char → Reading Json) :
    Nat → Bool → List Json → List Char → Reading Json
  | 0, _, _, cs => .error (.here .endInList cs)
  | fuel + 1, first, back, cs =>
      match skipGap cs with
      | [] => .error (.here .endInList [])
      | ']' :: rest => .ok (.array back.reverse, rest)
      | c :: rest =>
          if first then
            match item (c :: rest) with
            | .error stop => .error stop
            | .ok (x, rest') => itemsFrom item fuel false (x :: back) rest'
          else if c = ',' then
            match skipGap rest with
            | [] => .error (.here .endInValue [])
            | ']' :: rest' => .error (.ahead .trailingComma (']' :: rest'))
            | rest' =>
                match item rest' with
                | .error stop => .error stop
                | .ok (x, rest'') => itemsFrom item fuel false (x :: back) rest''
          else .error (.ahead .expectedListSeparator (c :: rest))

/-- Reads a member after the opening quote of its name, its value with `item`. -/
def member (item : List Char → Reading Json) (cs : List Char) : Reading (String × Json) :=
  match stringFrom [] cs with
  | .error stop => .error stop
  | .ok (name, rest) =>
      match skipGap rest with
      | [] => .error (.here .endInObject [])
      | ':' :: rest' =>
          match item rest' with
          | .error stop => .error stop
          | .ok (x, rest'') => .ok ((name, x), rest'')
      | rest' => .error (.ahead .expectedColon rest')

/-- Reads the members of an object, each value with `item`. -/
def membersFrom (item : List Char → Reading Json) :
    Nat → Bool → List (String × Json) → List Char → Reading Json
  | 0, _, _, cs => .error (.here .endInObject cs)
  | fuel + 1, first, found, cs =>
      match skipGap cs with
      | [] => .error (.here .endInObject [])
      | '}' :: rest => .ok (.object found, rest)
      | c :: rest =>
          if first then
            if c = '"' then
              match member item rest with
              | .error stop => .error stop
              | .ok ((name, x), rest') =>
                  membersFrom item fuel false (Assoc.insert name x found) rest'
            else .error (.ahead .nameNotString (c :: rest))
          else if c = ',' then
            match skipGap rest with
            | [] => .error (.here .endInValue [])
            | '"' :: rest' =>
                match member item rest' with
                | .error stop => .error stop
                | .ok ((name, x), rest'') =>
                    membersFrom item fuel false (Assoc.insert name x found) rest''
            | '}' :: rest' => .error (.ahead .trailingComma ('}' :: rest'))
            | rest' => .error (.ahead .nameNotString rest')
          else .error (.ahead .expectedMemberSeparator (c :: rest))

/-! ## Values -/

/-- Reads a value with at most `levels` levels of lists and objects, from at most `fuel` characters. -/
def value (fuel : Nat) (levels : Nat) (cs : List Char) : Reading Json :=
  match skipGap cs with
  | [] => .error (.here .endInValue [])
  | 'n' :: rest => word .null ['u', 'l', 'l'] rest
  | 't' :: rest => word (.bool true) ['r', 'u', 'e'] rest
  | 'f' :: rest => word (.bool false) ['a', 'l', 's', 'e'] rest
  | '"' :: rest =>
      match stringFrom [] rest with
      | .error stop => .error stop
      | .ok (s, rest') => .ok (.string s, rest')
  | '[' :: rest =>
      match levels with
      | 0 => .error (.ahead .tooDeep ('[' :: rest))
      | levels + 1 => itemsFrom (value fuel levels) fuel true [] rest
  | '{' :: rest =>
      match levels with
      | 0 => .error (.ahead .tooDeep ('{' :: rest))
      | levels + 1 => membersFrom (value fuel levels) fuel true [] rest
  | c :: rest =>
      let read := if c = '-' then some (number? true rest)
        else if (digit? c).isSome then some (number? false (c :: rest))
        else none
      match read with
      | some (.ok (n, rest')) => .ok (.number n, rest')
      | some (.error stop) => .error stop
      | none => .error (.ahead .expectedValue (c :: rest))

/-- The levels of lists and objects a text may have. -/
def levelLimit : Nat := 127

/-- Reads a text that is one value with blanks around it. -/
def parseChars (cs : List Char) : Except SyntaxError Json :=
  match value (cs.length + 1) levelLimit cs with
  | .error stop => .error (stop.toSyntaxError cs)
  | .ok (v, rest) =>
      match skipGap rest with
      | [] => .ok v
      | rest' => .error ((Stop.ahead .trailingCharacters rest').toSyntaxError cs)

/-- Reads a text that is one value with blanks around it. -/
def parse (text : String) : Except SyntaxError Json :=
  parseChars text.toList

end Json
end ProjectConsistency
