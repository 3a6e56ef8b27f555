import ProjectConsistency.Decimal.Shortest
import ProjectConsistency.Json.Basic
import ProjectConsistency.Text.Quoted

/-!
# Values of the wrong shape

- `Fault`: why a value does not have the shape that its place asks for.
- `Mismatch`: a fault with the keys that lead to it, as far as they are reported.
- `Fault.message`: the wording, for a layout of floating-point numbers.
-/

namespace ProjectConsistency
namespace Standards

/-- Why a value does not have the shape that its place asks for. -/
inductive Fault where
  | wrongType (found : Json) (expected : String)
  | wrongInteger (found : Int) (expected : String)
  | notSingleKey
  | unknownField (name : String) (known : List String)
  | unknownVariant (name : String) (known : List String)
  /-- A list in the place of a record has more items than the record has fields. -/
  | tooLong (length : Nat) (expected : String)
  | noRule
  deriving Repr

/-- The kind of a value, and the value itself if it is short. -/
def kindOf (layout : Double → String) : Json → String
  | .null => "null"
  | .bool b => "boolean `" ++ (if b then "true" else "false") ++ "`"
  | .number (.integer n) => "integer `" ++ toString n ++ "`"
  | .number (.double x) => "floating point `" ++ layout x ++ "`"
  | .string s => "string " ++ Text.quoted s
  | .array _ => "sequence"
  | .object _ => "map"

/-- The names that are possible. -/
def oneOf (known : List String) : String :=
  match known.map fun name => "`" ++ name ++ "`" with
  | [a] => a
  | [a, b] => a ++ " or " ++ b
  | names => "one of " ++ ", ".intercalate names

namespace Fault

def message (layout : Double → String) : Fault → String
  | wrongType found expected =>
      "invalid type: " ++ kindOf layout found ++ ", expected " ++ expected
  | wrongInteger found expected =>
      "invalid value: integer `" ++ toString found ++ "`, expected " ++ expected
  | notSingleKey => "invalid value: map, expected map with a single key"
  | unknownField name known => "unknown field `" ++ name ++ "`, expected " ++ oneOf known
  | unknownVariant name known => "unknown variant `" ++ name ++ "`, expected " ++ oneOf known
  | tooLong length expected =>
      "invalid length " ++ toString length ++ ", expected " ++ expected
  | noRule => "data did not match any variant of untagged enum ConfigFileRuleRepr"

end Fault

/-- A fault and the keys that lead to it. -/
structure Mismatch where
  fault : Fault
  path : List String := []
  deriving Repr

namespace Mismatch

def under (key : String) (m : Mismatch) : Mismatch :=
  { m with path := key :: m.path }

/-- The mismatch without the keys that lead to it. -/
def withoutPath (m : Mismatch) : Mismatch :=
  { m with path := [] }

/-- The wording for a document: the fault and a line with its place. -/
def message (m : Mismatch) : String :=
  m.fault.message Double.plainText ++ "\n" ++
    (if m.path.isEmpty then "" else "in `" ++ ".".intercalate m.path ++ "`\n")

end Mismatch

end Standards
end ProjectConsistency
