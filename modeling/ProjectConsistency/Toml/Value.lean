import ProjectConsistency.Assoc
import ProjectConsistency.Decimal.Double

/-!
# TOML values

- `Toml`: a value. The entries of a table stand in ascending order of their keys, each once. A date
  or time is held as the text in which it is usually written.
- `Toml.find?`: the value at a key of a table.
-/

namespace ProjectConsistency

inductive Toml where
  | string (s : String)
  | integer (n : Int)
  | float (x : Double)
  | boolean (b : Bool)
  | datetime (text : String)
  | array (items : List Toml)
  | table (entries : List (String × Toml))
  deriving Repr

namespace Toml

instance : Inhabited Toml := ⟨table []⟩

def entries? : Toml → Option (List (String × Toml))
  | table entries => some entries
  | _ => none

def string? : Toml → Option String
  | string s => some s
  | _ => none

def find? (key : String) (value : Toml) : Option Toml :=
  value.entries?.bind (Assoc.find? key)

end Toml

end ProjectConsistency
