import ProjectConsistency.Failure
import ProjectConsistency.Project.Manifest
import ProjectConsistency.Project.Snapshot
import ProjectConsistency.Standards.Model
import ProjectConsistency.Text.Utf8
import ProjectConsistency.Walk

/-!
# Analysing a project tree

The entries that a walk comes upon are recorded one by one. After that the configuration files, the
manifests and the readme file are read again, by their names below the root; only files that were
recorded are.

- `Walk.Event.pathText`: a relative path as it is shown.
- `Analysis.recordEntry`: the snapshot after one more event.
- `Analysis.Contents`: what files hold, by their names below the root.
- `Analysis.readConfigFiles`, `Analysis.readManifests`, `Analysis.readReadme`, `Analysis.withProjectType`:
  what comes after the walk, in this order; `Analysis.complete`: all of it.
- `Analysis.scan`: the snapshot of a directory, with the number of events.
-/

namespace ProjectConsistency

/-! ## Events -/

namespace Walk
namespace Event

/-- A relative path as it is shown, with slashes between its names. -/
def pathText (path : List String) : String :=
  "/".intercalate (path.map RawName.shown)

def isCancelled : Event → Bool
  | cancelled => true
  | _ => false

end Event
end Walk

namespace Analysis

open Walk.Event

/-! ## Recording entries -/

/-- The largest size in bytes of a source that is read. -/
def sourceLimit : Nat := 1024 * 1024

/-- The style of files with the path is checked; the extensions are compared in lower case. -/
def isSource (rules : StyleRules) (path : String) : Bool :=
  (extensionOf? path).any fun ext =>
    rules.extensions.any fun e => String.ofList (Text.lowerAscii e.toList) = ext

/-- The text of a file whose style is checked, unless it is too large. -/
def source? (rules : StyleRules) (path : String) (content : ByteArray) : Option String :=
  if isSource rules path && content.size ≤ sourceLimit then some (Text.decodeLossy content)
  else none

/--
The snapshot with one more file. Sizes are added as 64-bit numbers, so the sum of very large files
begins at zero again.
-/
def recordFile (rules : StyleRules) (s : Snapshot) (path : String) (content : ByteArray) :
    Snapshot :=
  { s with
    totalSize := s.totalSize + content.size.toUInt64
    filesByExtension := match extensionOf? path with
      | some ext => addToGroup ext path s.filesByExtension
      | none => s.filesByExtension
    sources := match source? rules path content with
      | some text => Assoc.put path text s.sources
      | none => s.sources
    filesByType := addToGroup (FileType.ofPath path) path s.filesByType
    files := s.files ++ [path] }

/-- The snapshot after one more event. -/
def recordEntry (rules : StyleRules) (s : Snapshot) : Walk.Event → Snapshot
  | .directory path =>
      { s with
        maxDepth := max s.maxDepth path.length
        directories := s.directories ++ [pathText path] }
  | .file path content =>
      recordFile rules { s with maxDepth := max s.maxDepth path.length } (pathText path) content
  | .unreadable path reason =>
      { s with unreadable := s.unreadable ++ [(pathText path, reason.text)] }
  | .cancelled => s

def recordAll (rules : StyleRules) (root : String) (events : List Walk.Event) : Snapshot :=
  events.foldl (recordEntry rules) (.empty root)

/-! ## Configuration files -/

/-- What the files below a root hold, by their names. -/
abbrev Contents := String → Except OsError ByteArray

def configFile (content : ByteArray) : ConfigFile :=
  match Text.decode? content with
  | some text => .ofText text
  | none => .invalid OsError.notUtf8.text

def readConfigFile (read : Contents) (name : String) : ConfigFile :=
  match read name with
  | .ok content => configFile content
  | .error e => .invalid e.text

/-- The snapshot with the tracked configuration files that are there. -/
def readConfigFiles (rules : ConfigRules) (read : Contents) (s : Snapshot) : Snapshot :=
  { s with
    configFiles := ((Assoc.keys rules.perFile).filter s.hasFile).map fun name =>
      (name, readConfigFile read name) }

/-! ## Manifests -/

def readText? (read : Contents) (s : Snapshot) (name : String) : Option String :=
  if s.hasFile name then (read name).toOption.bind Text.decode? else none

/--
The manifest in the package description. Where the file is tracked as a configuration file, lines
with comments do not count.
-/
def ofPackage? : Option ConfigFile → Option String → Option Manifest
  | some (.parsed value), _ => some (.ofPackage value)
  | some (.invalid _), _ => none
  | none, text? => do
      let text ← text?
      let value ← (Json.parse text).toOption
      some (.ofPackage value)

/-- The manifests from the package description and the texts of the other two files. -/
def gather (package : Option Manifest) (crate? requirements? : Option String) : List Manifest :=
  package.toList ++ (crate?.bind Manifest.ofCrate?).toList
    ++ (requirements?.map Manifest.ofRequirements).toList

def dependencies? : List Manifest → Option Dependencies
  | [] => none
  | found => some (found.foldl (fun deps m => deps.merge m.dependencies) {})

/-- The snapshot with what the manifests tell. The first that gives a name names the project. -/
def readManifests (read : Contents) (s : Snapshot) : Snapshot :=
  let package := if s.hasFile Manifest.packageFile then
      ofPackage? (Assoc.find? Manifest.packageFile s.configFiles)
        (readText? read s Manifest.packageFile)
    else none
  let found := gather package (readText? read s Manifest.crateFile)
    (readText? read s Manifest.requirementsFile)
  { s with
    name := (found.findSome? Manifest.name).getD s.name
    dependencies := dependencies? found }

/-! ## The readme file -/

/-- The path is that of a readme file at the root. -/
def isReadme (path : String) : Bool :=
  !path.toList.contains '/' && Readme.isName path.toList

/-- The snapshot with the first readme file at the root, if it can be read. -/
def readReadme (read : Contents) (s : Snapshot) : Snapshot :=
  { s with
    readme := do
      let path ← s.files.find? isReadme
      let content ← (read path).toOption
      some { path, content := Text.decodeLossy content } }

/-! ## The kind of the project -/

/-- What a snapshot tells about the kind of the project. -/
def signals (s : Snapshot) : Signals where
  dependencies := s.dependencies
  hasManifest := s.hasFile Manifest.packageFile || s.hasFile Manifest.crateFile
  hasRequirements := s.hasFile Manifest.requirementsFile || s.hasFile Manifest.pyprojectFile
  hasAssets := s.hasDirectory "Assets"
  hasContracts := s.hasDirectory "contracts"

def withProjectType (s : Snapshot) : Snapshot :=
  { s with projectType := (signals s).projectType }

/-- The snapshot with all that is found out after the walk. -/
def complete (standards : Standards) (read : Contents) (s : Snapshot) : Snapshot :=
  withProjectType (readReadme read (readManifests read (readConfigFiles standards.config read s)))

/-! ## Scans -/

structure Scan where
  snapshot : Snapshot
  walked : Nat

/-- The snapshot of a directory; the walk is stopped after a number of events, if one is given. -/
def scan (fs : FileSystem) (settings : Settings) (limit : Option Nat) (root : String) :
    Except Failure Scan := do
  let filter ← (NameFilter.ofPatterns settings.scanner.exclude).mapError .invalidPattern
  if !fs.isDirectory root then throw (.pathNotFound root)
  let canonical ← (fs.canonical root).mapError .io
  let events := Walk.cut limit (Walk.walk fs filter settings.scanner.followLinks root)
  if events.any Walk.Event.isCancelled then throw .interrupted
  let walked := recordAll settings.standards.style canonical events
  return { snapshot := complete settings.standards (fs.readBelow root) walked,
           walked := events.length }

def analyze (fs : FileSystem) (settings : Settings) (root : String) : Except Failure Snapshot :=
  (scan fs settings none root).map Scan.snapshot

end Analysis
end ProjectConsistency
