import ProjectConsistency.Standards.Preset

/-!
# The template of a standards document

- `template`: the text of a document with the built-in values, which may name a preset.
-/

namespace ProjectConsistency
namespace Standards

def presetLine : Option String → String
  | none => "# preset = \"strict\"  # one of: " ++ Preset.nameList
  | some name => "preset = \"" ++ name ++ "\""

def templateLines (preset : Option String) : List String := [
  "# consistency-guard standards",
  "# Keys left out fall back to the built-in defaults (or the preset below).",
  "",
  presetLine preset,
  "",
  "[namingRules]",
  "fileCasing = \"kebab-case\"",
  "directoryCasing = \"kebab-case\"",
  "# Names that keep their conventional spelling",
  "# exemptNames = [\"README.md\", \"LICENSE\", \"Dockerfile\", \"Makefile\"]",
  "",
  "[structureRules]",
  "requiredFiles = [\"README.md\"]",
  "# recommendedFiles = [\".gitignore\", \".env.example\"]",
  "maxDepth = 10",
  "",
  "# [structureRules.requiredDirectories]",
  "# src = \"Source code\"",
  "# tests = \"Automated tests\"",
  "",
  "[styleRules]",
  "indentWidth = 2",
  "quoteStyle = \"single\"",
  "requireTrailingComma = false",
  "",
  "[docRules]",
  "requiredFiles = [\"README.md\"]",
  "requiredReadmeSections = [\"Installation\", \"Usage\", \"License\"]",
  "",
  "# Required keys per tracked JSON configuration file. Dotted keys reach into objects.",
  "[configRules.perFile]",
  "\"package.json\" = [\"name\", \"version\"]",
  "# \"tsconfig.json\" = \x7b requiredKeys = [\"compilerOptions\"], missingKeySeverity = \"error\" \x7d",
  "",
  "[scanner]",
  "exclude = [\".git/\", \"node_modules/\", \"target/\", \"dist/\", \"build/\", \"__pycache__/\", \".venv/\"]",
  "followLinks = true",
  "",
  "# Command run in the project root by `fix --format-code`",
  "[formatter]",
  "# command = [\"npx\", \"prettier\", \"--write\", \".\"]"]

def template (preset : Option String) : String :=
  "\n".intercalate (templateLines preset) ++ "\n"

end Standards
end ProjectConsistency
