import ProjectConsistency.FileSystem.Resolve
import ProjectConsistency.Path
import ProjectConsistency.Text.Utf8

/-!
# Operations on files

An operation that changes the tree returns the new file system or an error; with an error nothing
has changed. Only `makeDirectories` may leave directories behind when it fails, and `writeNew` the
beginning of what was written.

- `lstat`, `stat`, `exists?`, `isFile`, `isDirectory`, `list`, `readBytes`, `readText`: look-ups.
- `readBelow`: what a file below a directory holds.
- `canonical`: the location of what a path names, as a path.
- `makeDirectory`, `makeDirectories`: new directories.
- `createNew`: a new file, where there was nothing at all; `writeNew`: what is written to it.
- `write`: a file with new content, which links at the end of the path lead to.
- `link`, `removeAll`: a new symbolic link, and the removal of a whole tree.
- `rename`: moves a node to another name.
-/

namespace ProjectConsistency
namespace FileSystem

variable (fs : FileSystem)

/-! ## Look-ups -/

/-- What is at a path; a link at its end is not followed. -/
def lstat (path : String) : Except OsError Node :=
  (fs.locate false path).map Prod.snd

def stat (path : String) : Except OsError Node :=
  (fs.locate true path).map Prod.snd

def exists? (path : String) : Bool :=
  (fs.stat path).isOk

def isFile (path : String) : Bool :=
  match fs.stat path with
  | .ok node => node.isFile
  | .error _ => false

def isDirectory (path : String) : Bool :=
  match fs.stat path with
  | .ok node => node.isDirectory
  | .error _ => false

def list (path : String) : Except OsError (List String) := do
  match ← fs.stat path with
  | .directory entries => return Assoc.keys entries
  | _ => throw .notDirectory

def readBytes (path : String) : Except OsError ByteArray := do
  match ← fs.stat path with
  | .file content => return content
  | _ => throw .isDirectory

def readText (path : String) : Except OsError String := do
  match Text.decode? (← fs.readBytes path) with
  | some text => return text
  | none => throw .notUtf8

/--
The content of the file to which a path and further names lead. Like a walk, this does not ask how
long the path is.
-/
def readBelow (path names : String) : Except OsError ByteArray := do
  match ← follow fs.tree true linkLimit (fs.start path) (namesOf path ++ namesOf names) with
  | .found _ (.file content) => return content
  | .found _ _ => throw .isDirectory
  | .free _ _ => throw .notFound

def pathOf (at' : Location) : String :=
  "/" ++ "/".intercalate at'

/-- The path of what a path leads to, without links. -/
def canonical (path : String) : Except OsError String :=
  (fs.locate true path).map fun (at', _) => pathOf at'

/-! ## Changes -/

def put (at' : Location) (node : Node) : FileSystem :=
  { fs with tree := Node.put node at' fs.tree }

/-- The name is not too long. -/
def checkName (name : String) : Except OsError Unit :=
  if nameLimit < name.utf8ByteSize then .error .nameTooLong else .ok ()

/-- The location of a name in a directory, at which there is nothing yet. -/
def freeName (directory : Location) (name : String) : Except OsError Location := do
  checkName name
  if (fs.tree.get? (directory ++ [name])).isSome then throw .exists
  return directory ++ [name]

def makeDirectory (path : String) : Except OsError FileSystem := do
  match ← fs.parentOf path with
  | (directory, .name name _) =>
      return fs.put (← fs.freeName directory name) (.directory [])
  | (_, .special) => throw .exists

/-- Makes a new file with nothing in it; the file system, and where the file is. -/
def createNew (path : String) : Except OsError (FileSystem × Location) := do
  match ← fs.parentOf path with
  | (directory, .name name slash) =>
      if slash then throw .isDirectory
      let place ← fs.freeName directory name
      return (fs.put place (.file ByteArray.empty), place)
  | (_, .special) => throw .exists

/-- Writes to a new file. One with a fault keeps the bytes that it took. -/
def writeNew (place : Location) (content : ByteArray) : FileSystem × Except OsError Unit :=
  match fs.fault? place with
  | none => (fs.put place (.file content), .ok ())
  | some fault =>
      if content.size ≤ fault.taken then (fs.put place (.file content), .ok ())
      else (fs.put place (.file (content.extract 0 fault.taken)), .error fault.reason)

/-- Makes a symbolic link, whose target need not lead to anything. -/
def link (target path : String) : Except OsError FileSystem := do
  checkPath target
  match ← fs.parentOf path with
  | (directory, .name name slash) =>
      let place ← fs.freeName directory name
      if slash then throw .notFound
      return fs.put place (.link target)
  | (_, .special) => throw .exists

/--
The path, or the target of a link at its end, has a slash after its last name, in a directory that
is there. Such a path cannot be written to.
-/
def endsInSlash (fs : FileSystem) : Nat → String → Bool
  | 0, _ => false
  | links + 1, path =>
      match fs.parentOf path with
      | .ok (directory, .name name slash) =>
          if slash then true
          else match fs.tree.get? (directory ++ [name]) with
            | some (.link target) => endsInSlash { fs with current := directory } links target
            | _ => false
      | _ => false

/-- Writes a file, which need not be there yet. -/
def write (path : String) (content : ByteArray) : Except OsError FileSystem := do
  if fs.endsInSlash linkLimit path then throw .isDirectory
  match ← fs.resolve true path with
  | .found at' (.file _) => return fs.put at' (.file content)
  | .found _ _ => throw .isDirectory
  | .free directory name => return fs.put (directory ++ [name]) (.file content)

/-- The path and the paths of all directories above it, longest first. -/
def ancestorsFrom : Nat → String → List String
  | 0, path => [path]
  | fuel + 1, path =>
      match Path.parent? path with
      | some parent => path :: ancestorsFrom fuel parent
      | none => [path]

def ancestors (path : String) : List String :=
  ancestorsFrom path.length path

/-- Makes directories in order; one that is there already is passed over. -/
def makeAll (fs : FileSystem) : List String → FileSystem × Except OsError Unit
  | [] => (fs, .ok ())
  | path :: rest =>
      match fs.makeDirectory path with
      | .ok fs' => makeAll fs' rest
      | .error e =>
          if e = .exists && fs.isDirectory path then makeAll fs rest else (fs, .error e)

/--
Makes the first directory that can be made in a list of paths, longest first, and then the longer
ones, which `missing` holds shortest first.
-/
def makeFrom (fs : FileSystem) (missing : List String) :
    List String → FileSystem × Except OsError Unit
  | [] => makeAll fs missing
  | path :: above =>
      if path.isEmpty then makeAll fs missing
      else match fs.makeDirectory path with
        | .ok fs' => makeAll fs' missing
        | .error e =>
            if e = .notFound then makeFrom fs (path :: missing) above
            else if e = .exists && fs.isDirectory path then makeAll fs missing
            else (fs, .error e)

/-- Makes a directory and all directories above it that are missing. -/
def makeDirectories (path : String) : FileSystem × Except OsError Unit :=
  makeFrom fs [] (ancestors path)

/-- Removes what is at a path, with everything below it. -/
def removeAll (path : String) : Except OsError FileSystem := do
  let (at', _) ← fs.locate false path
  if at'.isEmpty then throw .busy
  return { fs with tree := Node.remove at' fs.tree }

/-! ## Renaming -/

/-- The source and the target of a rename: a directory and a name in it. -/
structure Move where
  source : Location
  target : Location

/-- A location after what was at `source` has moved to `target`. -/
def Move.apply (m : Move) (at' : Location) : Location :=
  if m.source.isPrefixOf at' then m.target ++ at'.drop m.source.length else at'

/-- Refuses to replace a node by one that does not fit in its place. -/
def checkReplaced (moved : Node) : Option Node → Except OsError Unit
  | none => .ok ()
  | some (.directory entries) =>
      if !moved.isDirectory then .error .isDirectory
      else if entries.isEmpty then .ok ()
      else .error .notEmpty
  | some _ => if moved.isDirectory then .error .notDirectory else .ok ()

def move (m : Move) (node : Node) : FileSystem :=
  { fs with
    tree := Node.put node m.target (Node.remove m.source fs.tree)
    current := m.apply fs.current }

/-- Moves a node to another name; an empty directory or a file at that name is replaced. -/
def rename (source target : String) : Except OsError FileSystem := do
  let (sourceDirectory, sourceLast) ← fs.parentOf source
  let (targetDirectory, targetLast) ← fs.parentOf target
  match sourceLast, targetLast with
  | .name oldName oldSlash, .name newName newSlash =>
      checkName oldName
      let m : Move := ⟨sourceDirectory ++ [oldName], targetDirectory ++ [newName]⟩
      match fs.tree.get? m.source with
      | none => throw .notFound
      | some node =>
          checkName newName
          if !node.isDirectory && (oldSlash || newSlash) then throw .notDirectory
          if m.source.isPrefixOf targetDirectory then throw .invalidArgument
          if m.target.isPrefixOf sourceDirectory then throw .notEmpty
          if m.source = m.target then return fs
          checkReplaced node (fs.tree.get? m.target)
          return fs.move m node
  | _, _ => throw .busy

end FileSystem
end ProjectConsistency
