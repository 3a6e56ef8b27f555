import ProjectConsistency.Toml.Value

/-!
# Presets

- `Preset.names`: the presets there are.
- `Preset.find?`: the document of a preset. The `default` preset is empty, so that every key keeps
  its built-in value.
-/

namespace ProjectConsistency
namespace Preset

def table (entries : List (String × Toml)) : Toml :=
  .table (Assoc.ofList entries)

def texts (items : List String) : Toml :=
  .array (items.map .string)

/-- Nothing but the built-in values. -/
def default : Toml := table []

/-- Documents and directories of a project with high demands. -/
def strict : Toml := table [
  ("structureRules", table [
    ("requiredFiles", texts ["README.md", "package.json", ".gitignore", "LICENSE"]),
    ("recommendedFiles", texts [".env.example", "CHANGELOG.md"]),
    ("maxDepth", .integer 6),
    ("requiredDirectories", table [
      ("src", .string "Source code"),
      ("tests", .string "Automated tests"),
      ("docs", .string "Project documentation")])]),
  ("styleRules", table [("requireTrailingComma", .boolean true)]),
  ("docRules", table [
    ("requiredFiles", texts ["README.md", "CHANGELOG.md"]),
    ("requiredReadmeSections", texts ["Installation", "Usage", "Contributing", "License"])])]

/-- A project for a JavaScript runtime. -/
def node : Toml := table [
  ("structureRules", table [
    ("requiredFiles", texts ["README.md", "package.json", ".gitignore"]),
    ("requiredDirectories", table [("src", .string "Source code")])]),
  ("configRules", table [
    ("perFile", table [
      ("package.json", texts ["name", "version", "scripts"]),
      ("tsconfig.json", table [
        ("requiredKeys", texts ["compilerOptions"]),
        ("missingKeySeverity", .string "error")]),
      (".eslintrc.json", texts ["rules"]),
      (".prettierrc.json", texts [])])]),
  ("formatter", table [("command", texts ["npx", "prettier", "--write", "."])])]

def python : Toml := table [
  ("namingRules", table [
    ("fileCasing", .string "snake"),
    ("directoryCasing", .string "snake"),
    ("variableCasing", .string "snake")]),
  ("structureRules", table [("requiredFiles", texts ["README.md", "requirements.txt"])]),
  ("styleRules", table [
    ("indentWidth", .integer 4),
    ("extensions", texts ["py"]),
    ("quoteExtensions", texts [])]),
  ("configRules", table [("perFile", table [])]),
  ("formatter", table [("command", texts ["black", "."])])]

def all : List (String × Toml) :=
  [("default", default), ("strict", strict), ("node", node), ("python", python)]

def names : List String :=
  Assoc.keys all

def nameList : String :=
  ", ".intercalate names

def find? (name : String) : Option Toml :=
  Assoc.find? name all

end Preset
end ProjectConsistency
