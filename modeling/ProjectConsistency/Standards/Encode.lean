import ProjectConsistency.Json.Basic
import ProjectConsistency.Standards.Model

/-!
# Writing settings as a document

- `Settings.toJson`: the JSON document that holds the settings. All keys are written; the preset is
  left out if there is none.
-/

namespace ProjectConsistency
namespace Standards

/-- How a document spells a case convention. -/
def casingText : Casing → String
  | .kebab => "kebab"
  | .camel => "camel"
  | .pascal => "pascal"
  | .snake => "snake"
  | .screamingSnake => "screaming-snake"

/-- A case convention. -/
def casingJson (casing : Casing) : Json :=
  .string (casingText casing)

def namingJson (r : NamingRules) : Json :=
  Json.ofMembers [
    ("fileCasing", casingJson r.fileCasing),
    ("directoryCasing", casingJson r.directoryCasing),
    ("variableCasing", casingJson r.variableCasing),
    ("constantCasing", casingJson r.constantCasing),
    ("exemptNames", Json.ofStrings r.exemptNames)]

/-- The rules for files and directories. -/
def structuralJson (r : StructureRules) : Json :=
  Json.ofMembers [
    ("requiredDirectories", Json.ofMembers (Assoc.mapValues .string r.requiredDirectories)),
    ("requiredFiles", Json.ofStrings r.requiredFiles),
    ("recommendedFiles", Json.ofStrings r.recommendedFiles),
    ("maxDepth", Json.ofNat r.maxDepth)]

def styleJson (r : StyleRules) : Json :=
  Json.ofMembers [
    ("indentWidth", Json.ofNat r.indentWidth),
    ("quoteStyle", .string r.quoteStyle.title),
    ("requireTrailingComma", .bool r.requireTrailingComma),
    ("extensions", Json.ofStrings r.extensions),
    ("quoteExtensions", Json.ofStrings r.quoteExtensions)]

def docsJson (r : DocRules) : Json :=
  Json.ofMembers [
    ("requiredFiles", Json.ofStrings r.requiredFiles),
    ("requiredReadmeSections", Json.ofStrings r.requiredSections)]

/-- The rule for a configuration file, in its long form. -/
def fileRuleJson (r : ConfigFileRule) : Json :=
  Json.ofMembers [
    ("requiredKeys", Json.ofStrings r.requiredKeys),
    ("missingKeySeverity", .string r.severity.title)]

def configJson (r : ConfigRules) : Json :=
  Json.ofMembers [("perFile", Json.ofMembers (Assoc.mapValues fileRuleJson r.perFile))]

def scannerJson (r : ScannerSettings) : Json :=
  Json.ofMembers [
    ("exclude", Json.ofStrings r.exclude),
    ("followLinks", .bool r.followLinks)]

def formatterJson (r : FormatterSettings) : Json :=
  Json.ofMembers [("command", Json.ofStrings r.command)]

end Standards

open Standards in
/-- The document that holds the settings. -/
def Settings.toJson (s : Settings) : Json :=
  let preset := s.preset.elim [] fun name => [("preset", Json.string name)]
  Json.ofMembers (preset ++ [
    ("namingRules", namingJson s.standards.naming),
    ("structureRules", structuralJson s.standards.structural),
    ("styleRules", styleJson s.standards.style),
    ("docRules", docsJson s.standards.docs),
    ("configRules", configJson s.standards.config),
    ("scanner", scannerJson s.scanner),
    ("formatter", formatterJson s.formatter)])

end ProjectConsistency
