import ProjectConsistency.Json.Printer
import ProjectConsistency.Project.ProjectType
import ProjectConsistency.Text.Blank
import ProjectConsistency.Text.Lines
import ProjectConsistency.Text.Split
import ProjectConsistency.Toml.Document

/-!
# Dependency manifests

- `Manifest`: the name and the dependencies that a manifest declares.
- `Manifest.ofPackage`: from a package description in JSON. A version that is no string is written
  as JSON.
- `Manifest.ofCrate?`: from a package description in TOML. A version is a string or the `version` of
  a table; anything else is `*`.
- `Manifest.ofRequirements`: from a list of requirements, one a line.
-/

namespace ProjectConsistency

structure Manifest where
  name : Option String := none
  dependencies : Dependencies := {}
  deriving DecidableEq, Repr

namespace Manifest

/-! ## File names -/

def packageFile : String := "package.json"

def crateFile : String := "Cargo.toml"

def requirementsFile : String := "requirements.txt"

def pyprojectFile : String := "pyproject.toml"

/-! ## Packages in JSON -/

def packageVersion : Json → String
  | .string s => s
  | other => other.compact

def packageSection (value : Json) (key : String) : List (String × String) :=
  ((value.find? key).bind Json.members?).elim [] (Assoc.mapValues packageVersion)

def ofPackage (value : Json) : Manifest where
  name := (value.find? "name").bind Json.string?
  dependencies := {
    production := packageSection value "dependencies"
    development := packageSection value "devDependencies" }

/-! ## Packages in TOML -/

/-- A version in a package description. -/
def crateVersion : Toml → String
  | .string s => s
  | .table entries => ((Assoc.find? "version" entries).bind Toml.string?).getD "*"
  | _ => "*"

/-- The versions under a key of a package description. -/
def crateSection (value : Toml) (key : String) : List (String × String) :=
  ((value.find? key).bind Toml.entries?).elim [] (Assoc.mapValues crateVersion)

def ofCrate? (text : String) : Option Manifest :=
  (Toml.document text).toOption.map fun entries =>
    let value := Toml.table entries
    { name := ((value.find? "package").bind (Toml.find? "name")).bind Toml.string?
      dependencies := {
        production := crateSection value "dependencies"
        development := crateSection value "dev-dependencies" } }

/-! ## Requirements -/

/-- The comparisons a version specifier can begin with. -/
def operators : List (List Char) :=
  [['=', '=', '='], ['=', '='], ['>', '='], ['<', '='], ['~', '='], ['!', '='], ['>'], ['<']]

/-- The text begins with a comparison. -/
def startsOperator (cs : List Char) : Bool :=
  operators.any fun op => Text.startsWith op cs

/-- The text before the first comparison, and the rest from the comparison on. -/
def cutOperator : List Char → List Char × List Char
  | [] => ([], [])
  | c :: rest =>
      if startsOperator (c :: rest) then ([], c :: rest)
      else
        let (before, after) := cutOperator rest
        (c :: before, after)

def before (stop : Char) (cs : List Char) : List Char :=
  cs.takeWhile (· ≠ stop)

/-- The requirement of a line that was freed of its comment: a name and a version specifier. -/
def requirement (line : List Char) : List Char × List Char :=
  let (name, version) := cutOperator (Text.trim (before ';' line))
  let name := Text.trim (before '[' (Text.trim name))
  (name, if version.isEmpty then ['*'] else Text.trim version)

/-- The line holds a requirement: it is neither empty nor an option. -/
def isRequirement (line : List Char) : Bool :=
  !line.isEmpty && line.head? != some '-'

def requirementLines (cs : List Char) : List (List Char × List Char) :=
  let freed := (Text.lines cs).map fun line => Text.trim (before '#' line)
  ((freed.filter isRequirement).map requirement).filter fun (name, _) => !name.isEmpty

/-- What a list of requirements declares: each counts for production. -/
def ofRequirements (text : String) : Manifest where
  dependencies := {
    production := Assoc.ofList ((requirementLines text.toList).map fun (name, version) =>
      (String.ofList name, String.ofList version)) }

end Manifest

end ProjectConsistency
