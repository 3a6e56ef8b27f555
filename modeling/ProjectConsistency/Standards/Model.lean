import ProjectConsistency.Issue
import ProjectConsistency.Naming.Casing

/-!
# Standards

A standards document is read into `Settings`: five sections of rules, the settings of the scanner
and the command of the formatter. Each key that a document leaves out has its built-in value, which
is the default of the field.

- `NamingRules`, `StructureRules`, `StyleRules`, `DocRules`, `ConfigRules`: the sections.
- `Standards`: all rules.
- `Settings`: the rules and the settings of the tools.

Lists without repetition keep the order of first occurrence; keyed collections are association
lists.
-/

namespace ProjectConsistency

/-! ## Rules -/

/-- How names are written. -/
structure NamingRules where
  fileCasing : Casing := .kebab
  directoryCasing : Casing := .kebab
  variableCasing : Casing := .camel
  constantCasing : Casing := .screamingSnake
  /-- Names that are written as they are. -/
  exemptNames : List String := [
    "README.md", "LICENSE", "LICENSE.md", "CHANGELOG.md", "CONTRIBUTING.md", "CODE_OF_CONDUCT.md",
    "SECURITY.md", "AUTHORS", "NOTICE", "Dockerfile", "Makefile", "Gemfile", "Procfile",
    "Jenkinsfile", "Vagrantfile", "Cargo.toml", "Cargo.lock", "__tests__", "__mocks__",
    "__init__.py", "__main__.py"]
  deriving DecidableEq, Repr

/-- Which files and directories there are, and how deep they lie. -/
structure StructureRules where
  /-- Paths of directories, each with its purpose. -/
  requiredDirectories : List (String × String) := []
  requiredFiles : List String := ["README.md", "package.json"]
  recommendedFiles : List String := []
  maxDepth : Nat := 10
  deriving DecidableEq, Repr

inductive QuoteStyle where
  | single
  | double
  deriving DecidableEq, Repr

namespace QuoteStyle

def title : QuoteStyle → String
  | single => "single"
  | double => "double"

end QuoteStyle

/-- How sources are written. -/
structure StyleRules where
  indentWidth : Nat := 2
  quoteStyle : QuoteStyle := .single
  requireTrailingComma : Bool := false
  /-- Extensions of the files that are checked. -/
  extensions : List String := ["js", "jsx", "ts", "tsx", "mjs", "cjs", "vue", "css", "scss"]
  /-- Extensions of the files whose quotes are checked. -/
  quoteExtensions : List String := ["js", "jsx", "ts", "tsx", "mjs", "cjs", "vue"]
  deriving DecidableEq, Repr

/-- Which documents there are, and the sections of the readme file. -/
structure DocRules where
  requiredFiles : List String := ["README.md"]
  requiredSections : List String := ["Installation", "Usage", "License"]
  deriving DecidableEq, Repr

structure ConfigFileRule where
  /-- Keys, with dots between the names of nested keys. -/
  requiredKeys : List String := []
  /-- The severity of a missing key. -/
  severity : Severity := .warning
  deriving DecidableEq, Repr

structure ConfigRules where
  perFile : List (String × ConfigFileRule) := [
    ("package.json", ⟨["name", "version"], .warning⟩),
    ("tsconfig.json", ⟨["compilerOptions"], .error⟩)]
  deriving DecidableEq, Repr

/-- All rules. -/
structure Standards where
  naming : NamingRules := {}
  structural : StructureRules := {}
  style : StyleRules := {}
  docs : DocRules := {}
  config : ConfigRules := {}
  deriving DecidableEq, Repr

/-! ## Tools -/

/-- Which entries a scan passes over, and whether it follows symbolic links. -/
structure ScannerSettings where
  exclude : List String := [
    ".git/", ".svn/", ".hg/", "node_modules/", "target/", "dist/", "build/", "vendor/",
    "__pycache__/", ".venv/", "venv/", ".next/", "coverage/"]
  followLinks : Bool := true
  deriving DecidableEq, Repr

/-- The program that formats a project, and its arguments. -/
structure FormatterSettings where
  command : List String := []
  deriving DecidableEq, Repr

/-- Everything a standards document holds. -/
structure Settings where
  /-- The name of the preset that the document builds on. -/
  preset : Option String := none
  standards : Standards := {}
  scanner : ScannerSettings := {}
  formatter : FormatterSettings := {}
  deriving DecidableEq, Repr

end ProjectConsistency
