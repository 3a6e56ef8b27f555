import ProjectConsistency.Fix.Apply

/-!
# Formatter commands

A command is the name of a program and its arguments. It runs in the root of the project, without
input, and its output is not shown. What a program does is no matter of this library.

- `Program.Start`: starts programs.
- `Formatter.ofCommand`: the formatter that runs a command.
-/

namespace ProjectConsistency

/--
Starts the program of a name with arguments in the current directory and waits for its end: the files
after it and its exit status, which is -1 if a signal ended it.
-/
abbrev Program.Start := FileSystem → String → List String → Except OsError (FileSystem × Int)

namespace Formatter

/-- The files with a directory as the current one. -/
def enter (fs : FileSystem) (root : String) : Except OsError FileSystem :=
  (fs.locate true root).map fun (at', _) => { fs with current := at' }

def ofCommand (start : Program.Start) : List String → Formatter
  | [], fs, _ => (fs, .error (.formatter "no formatter command configured"))
  | name :: args, fs, root =>
      match (enter fs root).bind fun inside => start inside name args with
      | .ok (after, status) => ({ after with current := fs.current }, .ok status)
      | .error e =>
          (fs, .error (.formatter ("failed to start `" ++ name ++ "`: " ++ e.text)))

end Formatter

end ProjectConsistency
