import ProjectConsistency.Assoc
import ProjectConsistency.Decimal.Double

/-!
# JSON values

- `Json.Number`: an integer that fits 64 bits, signed or unsigned, or a double.
- `Json`: a value. The members of an object stand in ascending order of their names, each once.
- `Json.find?`, `Json.lookup`: the value of a member, and of a chain of members.
-/

namespace ProjectConsistency

/-- A number as it is read: an integer of 64 bits, or else a double. -/
inductive Json.Number where
  | integer (n : Int)
  | double (x : Double)
  deriving DecidableEq, Repr

inductive Json where
  | null
  | bool (b : Bool)
  | number (n : Json.Number)
  | string (s : String)
  | array (items : List Json)
  | object (members : List (String × Json))
  deriving Repr

namespace Json

instance : Inhabited Json := ⟨null⟩

def ofInt (n : Int) : Json :=
  number (.integer n)

def ofNat (n : Nat) : Json :=
  ofInt n

def ofMembers (members : List (String × Json)) : Json :=
  object (Assoc.ofList members)

def ofStrings (texts : List String) : Json :=
  array (texts.map string)

def members? : Json → Option (List (String × Json))
  | object members => some members
  | _ => none

def string? : Json → Option String
  | string s => some s
  | _ => none

def find? (name : String) (value : Json) : Option Json :=
  value.members?.bind (Assoc.find? name)

/-- The value reached through a chain of members. -/
def lookup : List String → Json → Option Json
  | [], value => some value
  | name :: rest, value => (value.find? name).bind (lookup rest)

end Json

end ProjectConsistency
