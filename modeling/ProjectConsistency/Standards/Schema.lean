import ProjectConsistency.Standards.Mismatch
import ProjectConsistency.Standards.Model
import ProjectConsistency.Toml.Value

/-!
# The schema of standards documents

A record is written as a table with some of its fields, or as a list with the values of its first
fields in order. A table with another key is refused. Only the long form of a rule for a
configuration file is always a table, and there other keys are passed over. Choices are written as
a text, or as a table with the text as its only key and nothing below it; in the long form not even
an empty table may stand there.

- `text`, `flag`, `count`, `texts`, `textSet`, `choice`: readers of single values.
- `record`: the reader of a record from a setter of its fields.
- `naming`, `structural`, `style`, `docs`, `config`, `scanner`, `formatter`: the sections.
- `settings`: all of a document. The places of faults inside the rules are not reported.
- `Toml.toJson`: documents as the values that the readers take.
-/

namespace ProjectConsistency

mutual

/-- The same value in JSON; a date or time becomes a text. -/
def Toml.toJson : Toml → Json
  | .string s => .string s
  | .integer n => .number (.integer n)
  | .float x => .number (.double x)
  | .boolean b => .bool b
  | .datetime text => .string text
  | .array items => .array (Toml.itemsToJson items)
  | .table entries => .object (Toml.entriesToJson entries)

def Toml.itemsToJson : List Toml → List Json
  | [] => []
  | x :: rest => x.toJson :: Toml.itemsToJson rest

def Toml.entriesToJson : List (String × Toml) → List (String × Json)
  | [] => []
  | (key, x) :: rest => (key, x.toJson) :: Toml.entriesToJson rest

end

namespace Standards
namespace Schema

/-- The result of reading a value. -/
abbrev Read (α : Type) := Except Mismatch α

def wrongType {α : Type} (found : Json) (expected : String) : Read α :=
  .error { fault := .wrongType found expected }

/-! ## Single values -/

def text : Json → Read String
  | .string s => .ok s
  | other => wrongType other "a string"

def flag : Json → Read Bool
  | .bool b => .ok b
  | other => wrongType other "a boolean"

def count : Json → Read Nat
  | .number (.integer n) =>
      if n < 0 then .error { fault := .wrongInteger n "usize" } else .ok n.toNat
  | other => wrongType other "usize"

/-- A list of texts, where `expected` names the kind of list. -/
def textsOf (expected : String) : Json → Read (List String)
  | .array items => items.mapM text
  | other => wrongType other expected

def texts (value : Json) : Read (List String) :=
  textsOf "a sequence" value

def textSet (value : Json) : Read (List String) :=
  (textsOf "a set" value).map Uniques.ofList

/-- A collection with a text as the key of each value. -/
def keyed {α : Type} (item : Json → Read α) : Json → Read (List (String × α))
  | .object members => members.mapM fun (key, x) => (item x).map ((key, ·))
  | other => wrongType other "a map"

/-- A text that may be left out. -/
def optionalText : Json → Read (Option String)
  | .null => .ok none
  | other => (text other).map some

/-! ## Choices -/

/-- The value of a known text. -/
def known {α : Type} (options : List (String × α)) (name : String) : Read α :=
  match Assoc.find? name options with
  | some x => .ok x
  | none => .error { fault := .unknownVariant name (Assoc.keys options) }

def absent : Json → Read Unit
  | .null => .ok ()
  | other => wrongType other "unit"

/-- No value, or a table with nothing in it. -/
def nothing : Json → Read Unit
  | .object [] => .ok ()
  | other => absent other

/-- One of some texts; `below` reads what stands below a text that is the key of a table. -/
def choiceOver {α : Type} (below : Json → Read Unit) (options : List (String × α)) : Json → Read α
  | .string s => known options s
  | .object [(key, x)] => do
      let chosen ← known options key
      below x
      return chosen
  | .object _ => .error { fault := .notSingleKey }
  | other => wrongType other "string or map"

/-- One of some texts. -/
def choice {α : Type} (options : List (String × α)) (value : Json) : Read α :=
  choiceOver nothing options value

def casings : List (String × Casing) := [
  ("kebab", .kebab), ("kebab-case", .kebab),
  ("camel", .camel), ("camel-case", .camel), ("camelCase", .camel),
  ("PascalCase", .pascal), ("pascal", .pascal), ("pascal-case", .pascal),
  ("snake", .snake), ("snake-case", .snake), ("snake_case", .snake),
  ("SCREAMING_SNAKE_CASE", .screamingSnake), ("screaming-snake", .screamingSnake),
  ("screaming-snake-case", .screamingSnake)]

def quoteStyles : List (String × QuoteStyle) :=
  [("single", .single), ("double", .double)]

def severities : List (String × Severity) :=
  Severity.all.map fun s => (s.title, s)

/-! ## Records -/

/-- Sets a field of a record. -/
abbrev Setter (α : Type) := String → Json → α → Read α

/-- Sets the fields of a record from members; a key that is no field is refused. -/
def setMembers {α : Type} (fields : List String) (set : Setter α) (record : α) :
    List (String × Json) → Read α
  | [] => .ok record
  | (key, x) :: rest =>
      if key ∈ fields then
        match set key x record with
        | .ok record' => setMembers fields set record' rest
        | .error m => .error (m.under key)
      else .error { fault := .unknownField key fields }

/-- Sets the fields of a record in order; items that are left over are returned. -/
def setItems {α : Type} (set : Setter α) (record : α) :
    List String → List Json → Read (α × List Json)
  | key :: fields, x :: rest => do
      let record' ← set key x record
      setItems set record' fields rest
  | _, rest => .ok (record, rest)

/-- How long a list in the place of a record may be. -/
def lengthText (nested : Bool) (fields : List String) : String :=
  if !nested then "fewer elements in array"
  else if fields.length = 1 then "1 element in sequence"
  else toString fields.length ++ " elements in sequence"

/-- A record with a name and fields, changed by a setter from what it is when nothing is written. -/
def record {α : Type} (nested : Bool) (name : String) (fields : List String) (set : Setter α)
    (start : α) : Json → Read α
  | .object members => setMembers fields set start members
  | .array items => do
      let (result, rest) ← setItems set start fields items
      if rest.isEmpty then return result
      else throw { fault := .tooLong items.length (lengthText nested fields) }
  | other => wrongType other ("struct " ++ name)

/-! ## Sections -/

def naming : Json → Read NamingRules :=
  record true "NamingRules"
    ["fileCasing", "directoryCasing", "variableCasing", "constantCasing", "exemptNames"]
    (fun key x r => match key with
      | "fileCasing" => do return { r with fileCasing := ← choice casings x }
      | "directoryCasing" => do return { r with directoryCasing := ← choice casings x }
      | "variableCasing" => do return { r with variableCasing := ← choice casings x }
      | "constantCasing" => do return { r with constantCasing := ← choice casings x }
      | "exemptNames" => do return { r with exemptNames := ← textSet x }
      | _ => .ok r)
    {}

def structural : Json → Read StructureRules :=
  record true "StructureRules"
    ["requiredDirectories", "requiredFiles", "recommendedFiles", "maxDepth"]
    (fun key x r => match key with
      | "requiredDirectories" => do return { r with requiredDirectories := ← keyed text x }
      | "requiredFiles" => do return { r with requiredFiles := ← textSet x }
      | "recommendedFiles" => do return { r with recommendedFiles := ← textSet x }
      | "maxDepth" => do return { r with maxDepth := ← count x }
      | _ => .ok r)
    {}

def style : Json → Read StyleRules :=
  record true "StyleRules"
    ["indentWidth", "quoteStyle", "requireTrailingComma", "extensions", "quoteExtensions"]
    (fun key x r => match key with
      | "indentWidth" => do return { r with indentWidth := ← count x }
      | "quoteStyle" => do return { r with quoteStyle := ← choice quoteStyles x }
      | "requireTrailingComma" => do return { r with requireTrailingComma := ← flag x }
      | "extensions" => do return { r with extensions := ← textSet x }
      | "quoteExtensions" => do return { r with quoteExtensions := ← textSet x }
      | _ => .ok r)
    {}

def docs : Json → Read DocRules :=
  record true "DocRules" ["requiredFiles", "requiredReadmeSections"]
    (fun key x r => match key with
      | "requiredFiles" => do return { r with requiredFiles := ← textSet x }
      | "requiredReadmeSections" => do return { r with requiredSections := ← textSet x }
      | _ => .ok r)
    {}

/-- Sets a field of the rule for a configuration file; other keys are passed over. -/
def setRule : Setter ConfigFileRule := fun key x r =>
  match key with
  | "requiredKeys" => do return { r with requiredKeys := ← texts x }
  | "missingKeySeverity" => do return { r with severity := ← choiceOver absent severities x }
  | _ => .ok r

/-- The long form of the rule for a configuration file. -/
def longRule : Json → Read ConfigFileRule
  | .object members => members.foldlM (fun r (key, x) => setRule key x r) {}
  | _ => .error { fault := .noRule }

/-- The rule for a configuration file: a list of keys, or the long form. -/
def fileRule (value : Json) : Read ConfigFileRule :=
  match texts value with
  | .ok keys => .ok { requiredKeys := keys }
  | .error _ =>
      match longRule value with
      | .ok rule => .ok rule
      | .error _ => .error { fault := .noRule }

def config : Json → Read ConfigRules :=
  record true "ConfigRules" ["perFile"]
    (fun key x r => match key with
      | "perFile" => do return { r with perFile := ← keyed fileRule x }
      | _ => .ok r)
    {}

def scanner : Json → Read ScannerSettings :=
  record false "ScannerSettings" ["exclude", "followLinks"]
    (fun key x r => match key with
      | "exclude" => do return { r with exclude := ← texts x }
      | "followLinks" => do return { r with followLinks := ← flag x }
      | _ => .ok r)
    {}

def formatter : Json → Read FormatterSettings :=
  record false "FormatterSettings" ["command"]
    (fun key x r => match key with
      | "command" => do return { r with command := ← texts x }
      | _ => .ok r)
    {}

/-! ## Documents -/

/-- Sets the name of the preset and the settings of the tools. -/
def setTool : Setter Settings := fun key x s =>
  match key with
  | "formatter" => do return { s with formatter := ← formatter x }
  | "preset" => do return { s with preset := ← optionalText x }
  | "scanner" => do return { s with scanner := ← scanner x }
  | _ => .ok s

/-- Sets a section of rules. -/
def setRules : Setter Standards := fun key x s =>
  match key with
  | "configRules" => do return { s with config := ← config x }
  | "docRules" => do return { s with docs := ← docs x }
  | "namingRules" => do return { s with naming := ← naming x }
  | "structureRules" => do return { s with structural := ← structural x }
  | "styleRules" => do return { s with style := ← style x }
  | _ => .ok s

/-- The preset and the settings of the tools, with the places of faults. -/
def tools (members : List (String × Json)) (s : Settings) : Read Settings :=
  members.foldlM (fun s (key, x) => (setTool key x s).mapError (·.under key)) s

/-- The rules, without the places of faults. -/
def rules (members : List (String × Json)) (s : Standards) : Read Standards :=
  members.foldlM (fun s (key, x) => (setRules key x s).mapError Mismatch.withoutPath) s

/-- The settings of a document. Unknown sections are passed over. -/
def settings : Json → Read Settings
  | .object members => do
      let s ← tools members {}
      return { s with standards := ← rules members s.standards }
  | other => wrongType other "struct Settings"

end Schema
end Standards

end ProjectConsistency
