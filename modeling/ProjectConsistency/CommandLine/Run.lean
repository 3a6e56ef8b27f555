import ProjectConsistency.Analysis
import ProjectConsistency.CommandLine.Options
import ProjectConsistency.Fix.Formatter
import ProjectConsistency.Report.Diagnostic
import ProjectConsistency.Report.Json
import ProjectConsistency.Report.Text
import ProjectConsistency.Standards.Loader
import ProjectConsistency.Standards.Template

/-!
# Commands

A command reads and changes files, prints to the output and leaves messages beside it. A failure is
a message, and gives the exit code 2; issues of a project are no failure.

- `Surroundings`: the user's folder, the time, and how programs are started.
- `Run.inspect`: loads the standards of a project and validates it, with the messages on the way.
- `Run.validate`, `Run.fix`, `Run.writeReport`, `Run.init`: the commands.
- `Outcome`, `Invocation.run`: what a command line does.
-/

namespace ProjectConsistency
namespace CommandLine

/-- What a command depends on besides the files. -/
structure Surroundings where
  /-- The folder of the user's own standards document. -/
  userFolder : Option String
  now : Timestamp
  start : Program.Start

namespace GlobalOptions

/-- Output and messages are coloured. No terminal is assumed where colours are left to choice. -/
def colours (o : GlobalOptions) : Bool :=
  o.colour = .always

def unlessQuiet (o : GlobalOptions) (messages : List Diagnostic) : List Diagnostic :=
  if o.quiet then [] else messages

/-- The messages, if more than usual is asked for. -/
def ifVerbose (o : GlobalOptions) (messages : List Diagnostic) : List Diagnostic :=
  if 0 < o.verbosity then messages else []

end GlobalOptions

namespace Run

/-! ## Validation -/

def documents (fs : FileSystem) (around : Surroundings) : Standards.Documents where
  exists? := fs.isFile
  read := fs.readText
  userFolder := around.userFolder

def loadSettings (fs : FileSystem) (around : Surroundings) (o : GlobalOptions) (path : String) :
    Except Failure Standards.Loaded :=
  let docs := documents fs around
  if o.noConfig then Standards.loadDefaults o.preset
  else match o.config with
    | some file => Standards.loadFrom docs o.preset file
    | none => Standards.load docs o.preset path

def settingsNotes (loaded : Standards.Loaded) : List Diagnostic :=
  .note ("Loaded standards from " ++ loaded.source.getD "built-in standards")
    :: (loaded.settings.preset.map fun name =>
      Diagnostic.note ("Using preset '" ++ name ++ "'")).toList

def scanNote (scan : Analysis.Scan) : Diagnostic :=
  let s := scan.snapshot
  .note ("Scanned " ++ toString s.files.length ++ " files and " ++ toString s.directories.length
    ++ " directories (" ++ toString scan.walked ++ " entries walked, " ++ s.projectType.title
    ++ " type)")

def unreadableWarning (path reason : String) : Diagnostic :=
  .warning ("Skipped unreadable entry `" ++ path ++ "`") (some reason) none

/-- A validated project and its settings. -/
structure Inspected where
  settings : Settings
  validation : Validation

/-- Loads the standards of a project and validates it. -/
def inspect (fs : FileSystem) (around : Surroundings) (o : GlobalOptions) (path : String) :
    List Diagnostic × Except Failure Inspected :=
  if !fs.isDirectory path then ([], .error (.pathNotFound path))
  else match loadSettings fs around o path with
    | .error e => ([], .error e)
    | .ok loaded =>
        let notes := o.ifVerbose (settingsNotes loaded)
        match Analysis.scan fs loaded.settings none path with
        | .error e => (notes, .error e)
        | .ok scan =>
            let warnings := scan.snapshot.unreadable.map fun (path, reason) =>
              unreadableWarning path reason
            let validation := Validation.ofSnapshot scan.snapshot loaded.settings.standards
            (notes ++ o.ifVerbose [scanNote scan] ++ o.unlessQuiet warnings,
              .ok { settings := loaded.settings, validation })

def reportText (o : GlobalOptions) (format : OutputFormat) (r : Report) : Except Failure String :=
  match format with
  | .text => .ok (r.text o.colours o.verbosity)
  | .json => r.json.map (· ++ "\n")

/-- Validates a project; the text of the report. -/
def validate (fs : FileSystem) (around : Surroundings) (o : GlobalOptions) (path : String)
    (format : OutputFormat) : List Diagnostic × Except Failure String :=
  let (messages, result) := inspect fs around o path
  (messages, result.bind fun inspected =>
    reportText o format (.ofValidation inspected.validation around.now))

/-! ## Fixes -/

/-- The fixes that were attempted, and the score before and after them. -/
structure FixSummary where
  records : List FixRecord
  before : Nat
  after : Nat

/-- Validates a project, makes the selected fixes and validates it again. -/
def fix (fs : FileSystem) (around : Surroundings) (o : GlobalOptions) (path : String)
    (selection : FixSelection) : FileSystem × List Diagnostic × Except Failure FixSummary :=
  match inspect fs around o path with
  | (messages, .error e) => (fs, messages, .error e)
  | (messages, .ok found) =>
      let score := found.validation.score
      if !selection.any then
        (fs, messages, .ok { records := [], before := score, after := score })
      else
        let formatter := Formatter.ofCommand around.start found.settings.formatter.command
        let (fs', records) := Fix.apply fs found.validation.snapshot found.settings.standards
          selection formatter found.validation.issues
        let (further, result) := inspect fs' around o path
        (fs', messages ++ further, result.map fun last =>
          { records, before := score, after := last.validation.score })

def nothingSelected : Diagnostic :=
  .warning "No fixes selected" none (some "Pass --auto-fix, --create-missing or --format-code")

def summaryText (o : GlobalOptions) (summary : FixSummary) : String :=
  fixesText o.colours summary.records
    ++ if o.quiet then ""
      else "Score: " ++ toString summary.before ++ "/100 -> " ++ toString summary.after ++ "/100\n"

/-! ## Files -/

/-- Writes a file, and makes the directories above it that are missing. -/
def writeFile (fs : FileSystem) (path content : String) : FileSystem × Except Failure Unit :=
  let (fs', made) := match Path.parent? path with
    | some parent => fs.makeDirectories parent
    | none => (fs, .ok ())
  match made with
  | .error e => (fs', .error (.io e))
  | .ok () =>
      match fs'.write path content.toUTF8 with
      | .ok fs'' => (fs'', .ok ())
      | .error e => (fs', .error (.io e))

/-- Validates a project and writes the report to a file; the score. -/
def writeReport (fs : FileSystem) (around : Surroundings) (o : GlobalOptions)
    (path output : String) : FileSystem × List Diagnostic × Except Failure Nat :=
  match inspect fs around o path with
  | (messages, .error e) => (fs, messages, .error e)
  | (messages, .ok found) =>
      match reportText o .json (.ofValidation found.validation around.now) with
      | .error e => (fs, messages, .error e)
      | .ok text =>
          let (fs', written) := writeFile fs output text
          (fs', messages, written.map fun () => found.validation.score)

/-- Refuses to write a standards document over a file, or with a preset that there is not. -/
def checkInit (fs : FileSystem) (preset : Option String) (output : String) (force : Bool) :
    Except Failure Unit :=
  if fs.exists? output && !force then
    .error (.configuration ("Standards file already exists: " ++ output
      ++ ". Use --force to overwrite."))
  else match preset with
    | some name => (Standards.presetDocument name).map fun _ => ()
    | none => .ok ()

def init (fs : FileSystem) (preset : Option String) (output : String) (force : Bool) :
    FileSystem × Except Failure Unit :=
  match checkInit fs preset output force with
  | .error e => (fs, .error e)
  | .ok () => writeFile fs output (Standards.template preset)

end Run

/-! ## Command lines -/

structure Outcome where
  files : FileSystem
  output : String
  messages : List Diagnostic
  exitCode : Nat

def failureCode : Nat := 2

def failureMessage (e : Failure) : Diagnostic :=
  .error e.title e.message none e.suggestion?

namespace Outcome

/-- The outcome of a command with a result, which gives the output. -/
def ofResult {α : Type} (files : FileSystem) (messages : List Diagnostic) (print : α → String) :
    Except Failure α → Outcome
  | .ok value => { files, output := print value, messages, exitCode := 0 }
  | .error e =>
      { files, output := "", messages := messages ++ [failureMessage e], exitCode := failureCode }

end Outcome

namespace Invocation

def run (fs : FileSystem) (around : Surroundings) (i : Invocation) : Outcome :=
  let o := i.options
  let confirm (line : String) : String := if o.quiet then "" else line ++ "\n"
  match i.command with
  | .validate path format =>
      let (messages, result) := Run.validate fs around o path format
      .ofResult fs messages id result
  | .fix path selection =>
      let warnings := if selection.any then [] else o.unlessQuiet [Run.nothingSelected]
      let (fs', messages, result) := Run.fix fs around o path selection
      .ofResult fs' (warnings ++ messages) (Run.summaryText o) result
  | .report path output =>
      let (fs', messages, result) := Run.writeReport fs around o path output
      .ofResult fs' messages (fun score => confirm ("Report written to " ++ output ++ " (score "
        ++ toString score ++ "/100)")) result
  | .init output force =>
      let (fs', result) := Run.init fs o.preset output force
      .ofResult fs' [] (fun () => confirm ("Created standards file: " ++ output)) result

end Invocation
end CommandLine
end ProjectConsistency
