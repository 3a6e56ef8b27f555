import ProjectConsistency.Failure
import ProjectConsistency.Glob.NameFilter
import ProjectConsistency.Json.Parser
import ProjectConsistency.Path
import ProjectConsistency.Standards.Layers
import ProjectConsistency.Standards.Preset
import ProjectConsistency.Standards.Schema
import ProjectConsistency.Toml.Document

/-!
# Loading standards documents

A document is TOML, or JSON if its name ends in `.json`. It is laid over the preset that it names,
or else over the preset asked for. Without a path, the document is looked for in the project root and
then in the user's folder; if there is none, the built-in values count.

- `Documents`: where documents are read from.
- `parseDocument`: the table of a document.
- `resolve`: the settings of a document over its preset.
- `loadFrom`, `load`, `loadDefaults`: settings from a path, by search, and without a document.
-/

namespace ProjectConsistency
namespace Standards

/-! ## Documents -/

def documentKeys : List String := [
  "preset", "namingRules", "structureRules", "styleRules", "docRules", "configRules", "scanner",
  "formatter"]

mutual

/-- The same value in TOML, which has no null and no integers above 63 bits. -/
def ofJson : Json → Except String Toml
  | .null => .error "unsupported unit type"
  | .bool b => .ok (.boolean b)
  | .number (.integer n) =>
      if n ≤ 9223372036854775807 then .ok (.integer n) else .error "u64 value was too large"
  | .number (.double x) => .ok (.float x)
  | .string s => .ok (.string s)
  | .array items => (itemsOfJson items).map .array
  | .object members => (membersOfJson members).map .table

def itemsOfJson : List Json → Except String (List Toml)
  | [] => .ok []
  | x :: rest => do
      let x' ← ofJson x
      let rest' ← itemsOfJson rest
      return x' :: rest'

def membersOfJson : List (String × Json) → Except String (List (String × Toml))
  | [] => .ok []
  | (key, x) :: rest => do
      let x' ← ofJson x
      let rest' ← membersOfJson rest
      return (key, x') :: rest'

end

/-- The document is written in JSON. -/
def isJsonPath (path : String) : Bool :=
  (Path.extension? path).any fun ext =>
    Text.eqIgnoringAsciiCase ext.toList ['j', 's', 'o', 'n']

/-- The value that a document holds. -/
def parseDocument (path content : String) : Except Failure Toml :=
  if isJsonPath path then
    match Json.parse content with
    | .error e => .error (.json e.message)
    | .ok value => (ofJson value).mapError fun reason =>
        .configuration ("Unsupported value in " ++ path ++ ": " ++ reason)
  else (Toml.document content).mapError .tomlSyntax |>.map .table

/-! ## Settings -/

/-- The entries of a document all of whose keys are known. -/
def knownSections : Toml → Except Failure (List (String × Toml))
  | .table entries =>
      match (Assoc.keys entries).find? (· ∉ documentKeys) with
      | some key => .error (.configuration ("Unknown standards section '" ++ key
          ++ "'. Expected one of: " ++ ", ".intercalate documentKeys))
      | none => .ok entries
  | _ => .error (.configuration "Standards document must be a table")

def presetDocument (name : String) : Except Failure Toml :=
  match Preset.find? name with
  | some document => .ok document
  | none => .error (.configuration ("Unknown preset: '" ++ name ++ "'. Available presets: "
      ++ Preset.nameList))

/-- The document over its preset, if it has one, without markers. -/
def layered (preset : Option String) (document : Toml) : Except Failure Toml :=
  match preset with
  | some name => (presetDocument name).map fun base => merge base document
  | none => .ok (stripMarkers document)

/-- Refuses settings that cannot be used. -/
def check (s : Settings) : Except Failure Settings :=
  if s.standards.style.indentWidth = 0 then
    .error (.configuration "styleRules.indentWidth must be at least 1")
  else match NameFilter.ofPatterns s.scanner.exclude with
    | .error pattern => .error (.invalidPattern pattern)
    | .ok _ => .ok s

/-- The preset that a document names, or else the one asked for. -/
def presetOf (asked : Option String) (document : Toml) : Option String :=
  ((document.find? "preset").bind Toml.string?).or asked

def resolve (asked : Option String) (document : Toml) : Except Failure Settings := do
  let _ ← knownSections document
  let preset := presetOf asked document
  let value ← layered preset document
  let s ← (Schema.settings value.toJson).mapError .tomlShape
  check { s with preset }

/-! ## Loading -/

structure Documents where
  exists? : String → Bool
  read : String → Except OsError String
  /-- The folder of the user's own document. -/
  userFolder : Option String

/-- Settings and the document that they were read from. -/
structure Loaded where
  settings : Settings
  source : Option String
  deriving DecidableEq, Repr

/-- The names of documents in a project root. -/
def localNames : List String :=
  [".consistency.toml", ".consistency.json"]

def userName : String := "config.toml"

/-- The settings without a document. -/
def loadDefaults (asked : Option String) : Except Failure Loaded :=
  (resolve asked (.table [])).map fun settings => { settings, source := none }

def loadFrom (docs : Documents) (asked : Option String) (path : String) :
    Except Failure Loaded := do
  if !docs.exists? path then
    throw (.configuration ("Standards file not found: " ++ path))
  let content ← (docs.read path).mapError .io
  let document ← parseDocument path content
  let settings ← resolve asked document
  return { settings, source := some path }

/-- The first document that there is for a project root. -/
def discover? (docs : Documents) (root : String) : Option String :=
  ((localNames.map (Path.join root)).find? docs.exists?).or
    ((docs.userFolder.map fun folder => Path.join folder userName).filter docs.exists?)

/-- The settings for a project root. -/
def load (docs : Documents) (asked : Option String) (root : String) : Except Failure Loaded :=
  match discover? docs root with
  | some path => loadFrom docs asked path
  | none => loadDefaults asked

end Standards
end ProjectConsistency
