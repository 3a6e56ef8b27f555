import ProjectConsistency.Json.Printer
import ProjectConsistency.Naming.Convert
import ProjectConsistency.Project.Snapshot
import ProjectConsistency.Standards.Model

/-!
# The content of new files

- `readme`: a readme file with a title and one stub for each section.
- `packageDescription`: a package description with the project's name in kebab case.
- `placeholder`: a title for other documents, and nothing for other files.
- `scaffold`: the content of a new file by its name.
-/

namespace ProjectConsistency
namespace Fix

open Text Naming

/-- Lines with a line feed after each. -/
def unlines (ls : List String) : String :=
  String.join (ls.map fun line => line ++ "\n")

/-- The files that version control passes over. -/
def gitignore : String := unlines [
  "# Dependencies", "node_modules/", ".venv/", "",
  "# Build output", "dist/", "build/", "target/", "coverage/", "",
  "# Environment", ".env", ".env.local", "",
  "# Logs and editor files", "*.log", ".DS_Store", ".idea/", ".vscode/"]

/-- The example of a file with values of the environment. -/
def environmentExample : String := unlines [
  "# Copy this file to .env and fill in the values.",
  "# Never commit the real .env file."]

def changeLog : String := unlines [
  "# Changelog", "",
  "All notable changes to this project are documented in this file.", "",
  "## [Unreleased]"]

def sectionStub (sectionName : String) : String :=
  "\n## " ++ sectionName ++ "\n\n_Describe " ++ String.ofList (lower sectionName.toList)
    ++ " here._\n"

/-- A readme file with a title and one stub for each section. -/
def readme (project : String) (sections : List String) : String :=
  "# " ++ project ++ "\n" ++ String.join (sections.map sectionStub)

def packageDescription (project : String) : String :=
  (Json.ofMembers [
    ("name", .string (String.ofList (convert project.toList .kebab))),
    ("version", .string "0.1.0"),
    ("private", .bool true)]).pretty ++ "\n"

/-- The content of a file without a template. -/
def placeholder (name : List Char) : String :=
  let (stem, extensions) := splitStem name
  let ext := match splitLast '.' extensions with
    | some (_, ext) => ext
    | none => extensions
  if !stem.isEmpty && (ext = ['m', 'd'] || ext = "markdown".toList) then
    "# " ++ String.ofList stem ++ "\n"
  else ""

/-- The content of a new file at a path. -/
def scaffold (path project : String) (standards : Standards) : String :=
  let name := lastSegment path.toList
  if Readme.isName name then readme project standards.docs.requiredSections
  else match String.ofList name with
    | ".gitignore" => gitignore
    | ".env.example" => environmentExample
    | "CHANGELOG.md" => changeLog
    | "package.json" => packageDescription project
    | _ => placeholder name

end Fix
end ProjectConsistency
