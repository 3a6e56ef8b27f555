import ProjectConsistency.CommandLine.Arguments
import ProjectConsistency.CommandLine.Run
import ProjectConsistency.FileSystem.Change

/-!
# The program

The files that a command line speaks of are read from the disk, the command is run on them, and what
it changed is written back. Nothing is decided here.
-/

open ProjectConsistency

namespace ProjectConsistency
namespace Disk

/-- The result of an action, if it does not fail. -/
def attempt {α : Type} (action : IO α) : IO (Option α) := do
  match ← action.toBaseIO with
  | .ok value => return some value
  | .error _ => return none

/-- The path without links, if it leads to something. -/
def realPath? (path : String) : IO (Option String) :=
  attempt do
    let found ← IO.FS.realPath path
    let _ ← found.metadata
    return found.toString

/-- The target of a link that leads to nothing; no file has this name. -/
def nowhere : String := String.singleton (Char.ofNat 0)

mutual

/-- Reads an entry of a directory; what is neither file, directory nor link is left out. -/
partial def readEntry (entry : IO.FS.DirEntry) : IO (Option (String × Node)) := do
  let node ← attempt do
    let info ← entry.path.symlinkMetadata
    match info.type with
    | .dir => readDirectory (← entry.path.readDir)
    | .file => return .file (← IO.FS.readBinFile entry.path)
    | .symlink => return .link ((← realPath? entry.path.toString).getD nowhere)
    | .other => throw (IO.userError entry.fileName)
  return node.map fun n => (entry.fileName, n)

/-- Reads the entries of a directory. -/
partial def readDirectory (entries : Array IO.FS.DirEntry) : IO Node := do
  return .directory (← entries.toList.filterMapM readEntry)

end

mutual

def targets : Node → List String
  | .file _ => []
  | .link target => if target = nowhere then [] else [target]
  | .directory entries => targetsOfEntries entries

def targetsOfEntries : List (String × Node) → List String
  | [] => []
  | (_, node) :: rest => targets node ++ targetsOfEntries rest

end

def readAt (path : String) : IO Node := do
  let found ← IO.FS.realPath path
  if ← found.isDir then readDirectory (← found.readDir)
  else return .file (← IO.FS.readBinFile found)

/-- Files that were read, and the locations at which nothing is left to read. -/
structure Loaded where
  files : FileSystem
  complete : List Location := []

/-- Reads what paths without links lead to, and what the links in it lead to. -/
partial def load (read : Loaded) : List String → IO Loaded
  | [] => return read
  | path :: rest => do
      let at' := FileSystem.namesOf path
      if read.complete.any fun location => location.isPrefixOf at' then load read rest
      else
        let node ← readAt path
        let above := (read.files.makeDirectories (FileSystem.pathOf at'.dropLast)).1
        load { files := above.put at' node, complete := at' :: read.complete }
          (targets node ++ rest)

/-- Reads what a path leads to, if it leads to something. -/
def loadPath (read : Loaded) (path : String) : IO Loaded := do
  match ← realPath? path with
  | some found => load read [found]
  | none => return read

/-- Makes a directory as it is on the disk, without what is in it. -/
def loadDirectory (read : Loaded) (path : String) : IO Loaded := do
  match ← realPath? path with
  | some found => return { read with files := (read.files.makeDirectories found).1 }
  | none => return read

/-- Reads a file that is to be written, if it is there, and the directories above it. -/
def loadOutput (read : Loaded) (path : String) : IO Loaded := do
  let above ← (FileSystem.ancestors path).tail.foldlM loadDirectory read
  loadPath above path

def perform : Change → IO Unit
  | .remove at' => do
      let found ← IO.FS.realPath (FileSystem.pathOf at'.dropLast)
      let path := found / at'.getLastD ""
      if (← path.symlinkMetadata).type == .dir then IO.FS.removeDirAll path
      else IO.FS.removeFile path
  | .rename source target => IO.FS.rename (FileSystem.pathOf source) (FileSystem.pathOf target)
  | .directory at' => IO.FS.createDirAll (FileSystem.pathOf at')
  | .file at' content => IO.FS.writeBinFile (FileSystem.pathOf at') content
  | .link at' _ => throw (IO.userError ("cannot make the link " ++ FileSystem.pathOf at'))

def userFolder? : IO (Option String) := do
  let folder ← match ← IO.getEnv "XDG_CONFIG_HOME" with
    | some folder => pure (some folder)
    | none => pure ((← IO.getEnv "HOME").map (Path.join · ".config"))
  return folder.map (Path.join · "consistency-guard")

def now : IO Timestamp :=
  IO.FS.withTempFile fun _ path => do
    let modified := (← path.metadata).modified
    return { seconds := modified.sec, nanos := modified.nsec.toNat }

/-- Programs cannot be started from here. -/
def start : Program.Start :=
  fun _ _ _ => .error .permissionDenied

def filesOf (i : CommandLine.Invocation) (userFolder : Option String) : IO FileSystem := do
  let here := (← IO.currentDir).toString
  let empty : Loaded := { files := { current := FileSystem.namesOf here } }
  let project (path : String) : IO Loaded := do
    (path :: i.options.config.toList ++ userFolder.toList).foldlM loadPath empty
  let read ← match i.command with
    | .validate path _ => project path
    | .fix path _ => project path
    | .report path output => loadOutput (← project path) output
    | .init output _ => loadOutput empty output
  return (← loadDirectory read here).files

end Disk
end ProjectConsistency

/-- The text for a command line that cannot be understood. -/
def usage : String :=
  "Usage: consistency-guard [OPTIONS] <validate|fix|report|init>\n"

def main (args : List String) : IO UInt32 := do
  match CommandLine.parse args with
  | .error e =>
      (← IO.getStderr).putStr usage
      return e.exitCode.toUInt32
  | .ok i =>
      let userFolder ← Disk.userFolder?
      let before ← Disk.filesOf i userFolder
      let outcome := i.run before { userFolder, now := ← Disk.now, start := Disk.start }
      (Change.between [] before.tree outcome.files.tree).forM Disk.perform
      (← IO.getStderr).putStr
        (String.join (outcome.messages.map (Diagnostic.render i.options.colours)))
      (← IO.getStdout).putStr outcome.output
      return outcome.exitCode.toUInt32
