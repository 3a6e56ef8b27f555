import ProjectConsistency.CommandLine.Options
import ProjectConsistency.Text.Split

/-!
# Reading command lines

Options that every command takes may stand before or after the command. At each of the two places an
option may be given once, unless it is counted; what is given after the command counts before what is
given in front of it. An option's value is the rest of its argument or the next argument. After `--`
no argument is an option or a command.

- `UsageError`: why a command line is refused, or a request for help.
- `Level`: in front of the command, or after one of the commands.
- `Flag`: the options, with their names at each level.
- `Found`: what was given at a level.
- `readLevel`: reads the arguments of a level.
- `parse`: a whole command line.
-/

namespace ProjectConsistency
namespace CommandLine

/-! ## Errors -/

/-- Why a command line is refused, or a request for help. -/
inductive UsageError where
  | help
  | version
  /-- Nothing is given at all. -/
  | nothingGiven
  | missingCommand
  | unknownCommand
  | unknownArgument
  /-- An option without its value, or with a value that is not one of the possible ones. -/
  | invalidValue
  /-- A value that cannot be read. -/
  | unreadableValue
  /-- A value for an option that takes none. -/
  | unneededValue
  /-- An option given twice, or two options that exclude each other. -/
  | conflict
  deriving DecidableEq, Repr

namespace UsageError

/-- The status with which the program ends. -/
def exitCode : UsageError → Nat
  | help => 0
  | version => 0
  | _ => 2

end UsageError

/-! ## Levels and options -/

/-- In front of the command, or after one of the commands. -/
inductive Level where
  | top
  | validate
  | fix
  | report
  | init
  deriving DecidableEq, Repr

namespace Level

def commands : List (String × Level) :=
  [("validate", validate), ("fix", fix), ("report", report), ("init", init)]

def ofName? (name : String) : Option Level :=
  commands.lookup name

def takesPath : Level → Bool
  | validate => true
  | fix => true
  | report => true
  | _ => false

end Level

def helpCommand : String := "help"

def isCommand (arg : String) : Bool :=
  arg = helpCommand || (Level.ofName? arg).isSome

inductive Flag where
  | verbose
  | quiet
  | colour
  | config
  | preset
  | noConfig
  | help
  | version
  | format
  | autoFix
  | createMissing
  | formatCode
  | output
  | force
  deriving DecidableEq, Repr

namespace Flag

def takesValue : Flag → Bool
  | colour => true
  | config => true
  | preset => true
  | format => true
  | output => true
  | _ => false

/-- Options of every level with their long and short names. -/
def shared : List (Flag × String × Option Char) := [
  (verbose, "verbose", some 'v'), (quiet, "quiet", some 'q'), (colour, "color", none),
  (config, "config", some 'c'), (preset, "preset", none), (noConfig, "no-config", none),
  (help, "help", some 'h')]

/-- Options of one level with their long and short names. -/
def own : Level → List (Flag × String × Option Char)
  | .top => [(version, "version", some 'V')]
  | .validate => [(format, "format", some 'f')]
  | .fix => [
      (autoFix, "auto-fix", none), (createMissing, "create-missing", none),
      (formatCode, "format-code", none)]
  | .report => [(output, "output", some 'o')]
  | .init => [(output, "output", some 'o'), (force, "force", none)]

def ofLong? (level : Level) (name : String) : Option Flag :=
  ((shared ++ own level).find? fun (_, long, _) => long = name).map Prod.fst

def ofShort? (level : Level) (name : Char) : Option Flag :=
  ((shared ++ own level).find? fun (_, _, short) => short = some name).map Prod.fst

end Flag

/-! ## What is given -/

structure Found where
  verbosity : Option Nat := none
  quiet : Bool := false
  noConfig : Bool := false
  colour : Option ColourChoice := none
  config : Option String := none
  preset : Option String := none
  format : Option OutputFormat := none
  output : Option String := none
  autoFix : Bool := false
  createMissing : Bool := false
  formatCode : Bool := false
  force : Bool := false
  path : Option String := none
  deriving DecidableEq

namespace Found

abbrev Result := Except UsageError Found

/-- The value of an option that may be given once. -/
def once {α : Type} (old : Option α) (new : Except UsageError α) :
    Except UsageError (Option α) :=
  if old.isSome then .error .conflict else new.map some

def switch (old : Bool) : Except UsageError Bool :=
  if old then .error .conflict else .ok true

def pathValue (value : String) : Except UsageError String :=
  if value.isEmpty then .error .invalidValue else .ok value

def colourValue (value : String) : Except UsageError ColourChoice :=
  match ColourChoice.ofWord? value with
  | some c => .ok c
  | none => .error .invalidValue

def formatValue (value : String) : Except UsageError OutputFormat :=
  (OutputFormat.ofWord value).mapError fun _ => .unreadableValue

def countLimit : Nat := 255

def flag (found : Found) : Flag → Result
  | .verbose =>
      .ok { found with verbosity := some (min (found.verbosity.getD 0 + 1) countLimit) }
  | .quiet => do return { found with quiet := ← switch found.quiet }
  | .noConfig => do return { found with noConfig := ← switch found.noConfig }
  | .autoFix => do return { found with autoFix := ← switch found.autoFix }
  | .createMissing => do return { found with createMissing := ← switch found.createMissing }
  | .formatCode => do return { found with formatCode := ← switch found.formatCode }
  | .force => do return { found with force := ← switch found.force }
  | .help => .error .help
  | .version => .error .version
  | _ => .ok found

def option (found : Found) (value : String) : Flag → Result
  | .colour => do return { found with colour := ← once found.colour (colourValue value) }
  | .config => do return { found with config := ← once found.config (pathValue value) }
  | .preset => do return { found with preset := ← once found.preset (.ok value) }
  | .format => do return { found with format := ← once found.format (formatValue value) }
  | .output => do return { found with output := ← once found.output (pathValue value) }
  | _ => .ok found

def isGiven (found : Found) : Bool :=
  found ≠ {}

/-- Refuses options that exclude each other. -/
def check (found : Found) : Result :=
  if found.config.isSome && found.noConfig then .error .conflict else .ok found

end Found

/-! ## Arguments -/

/-- An argument that is not taken in yet. -/
inductive Pending where
  | nothing
  /-- An option whose value is the next argument. -/
  | awaited (flag : Flag)
  | option (flag : Flag) (value : String)
  | path (value : String)
  deriving DecidableEq

/-- How far the arguments of a level are read. -/
structure Progress where
  found : Found := {}
  pending : Pending := .nothing
  /-- After `--`. -/
  trailing : Bool := false
  hasPath : Bool := false

namespace Progress

def settle (p : Progress) : Except UsageError Progress :=
  match p.pending with
  | .nothing => .ok p
  | .awaited _ => .error .invalidValue
  | .option flag value => do
      return { p with found := ← p.found.option value flag, pending := .nothing }
  | .path value => do
      return { p with found := { p.found with path := some (← Found.pathValue value) },
                      pending := .nothing }

def readFlag (p : Progress) (flag : Flag) : Except UsageError Progress := do
  let p ← p.settle
  return { p with found := ← p.found.flag flag }

/-- Reads an option with a value, which is the next argument if it is not attached. -/
def readOption (p : Progress) (flag : Flag) (attached : Option String) :
    Except UsageError Progress := do
  let p ← p.settle
  match attached with
  | some value => return { p with found := ← p.found.option value flag }
  | none => return { p with pending := .awaited flag }

def readLong (level : Level) (p : Progress) (arg : List Char) : Except UsageError Progress :=
  let (name, value) := match Text.splitOnce '=' arg with
    | some (name, value) => (name, some (String.ofList value))
    | none => (arg, none)
  match Flag.ofLong? level (String.ofList name) with
  | none => .error .unknownArgument
  | some flag =>
      if flag.takesValue then p.readOption flag value
      else if value.isSome then .error .unneededValue
      else p.readFlag flag

/-- Reads short options after a hyphen. The rest after an option with a value is its value. -/
def readShorts (level : Level) (p : Progress) : List Char → Except UsageError Progress
  | [] => .ok p
  | c :: rest =>
      match Flag.ofShort? level c with
      | none => .error .unknownArgument
      | some flag =>
          if flag.takesValue then
            p.readOption flag (match rest with
              | [] => none
              | '=' :: value => some (String.ofList value)
              | value => some (String.ofList value))
          else do
            let p ← p.readFlag flag
            readShorts level p rest

/-- Reads an argument that is neither an option nor the value of one. -/
def readWord (level : Level) (p : Progress) (arg : String) : Except UsageError Progress :=
  if level = .top then
    .error (if p.trailing && isCommand arg then .unknownArgument else .unknownCommand)
  else if level.takesPath && !p.hasPath then do
    let p ← p.settle
    return { p with pending := .path arg, hasPath := true }
  else .error .unknownArgument

def read (level : Level) (p : Progress) (arg : String) : Except UsageError Progress :=
  if p.trailing then p.readWord level arg
  else match arg.toList with
    | ['-', '-'] => .ok { p with trailing := true }
    | '-' :: '-' :: rest => p.readLong level rest
    | '-' :: c :: rest => p.readShorts level (c :: rest)
    | _ =>
        match p.pending with
        | .awaited flag => .ok { p with pending := .option flag arg }
        | _ => p.readWord level arg

def allowsCommand (p : Progress) : Bool :=
  !p.trailing && match p.pending with
    | .awaited _ => false
    | _ => true

end Progress

/-! ## Command lines -/

/-- Reads the arguments of a level, up to a command in front of which none was given. -/
def readLevel (level : Level) (p : Progress) :
    List String → Except UsageError (Progress × Option (String × List String))
  | [] => .ok (p, none)
  | arg :: rest =>
      if level = .top && p.allowsCommand && isCommand arg then .ok (p, some (arg, rest))
      else do
        let p' ← p.read level arg
        readLevel level p' rest

/-- What is given at a level that was read. -/
def finish (p : Progress) : Except UsageError Found := do
  let p ← p.settle
  p.found.check

def readCommand (level : Level) (args : List String) : Except UsageError Found := do
  let (p, _) ← readLevel level {} args
  finish p

/-- The answer to the command that asks for help on a chain of commands. -/
def helpOn : List String → UsageError
  | [] => .help
  | [name] => if isCommand name then .help else .unknownCommand
  | _ => .unknownCommand

def withoutCommand (p : Progress) : UsageError :=
  match p.settle with
  | .error e => e
  | .ok p => if p.found.isGiven then .missingCommand else .nothingGiven

/-- The options of both places; what is given after the command counts first. -/
def merge (outer inner : Found) : GlobalOptions where
  verbosity := (inner.verbosity.or outer.verbosity).getD 0
  quiet := inner.quiet || outer.quiet
  colour := (inner.colour.or outer.colour).getD .auto
  config := inner.config.or outer.config
  preset := inner.preset.or outer.preset
  noConfig := inner.noConfig || outer.noConfig

/-- The file that a report is written to, unless another is given. -/
def defaultReport : String := "consistency-report.json"

/-- The file that a template is written to, unless another is given. -/
def defaultDocument : String := ".consistency.toml"

def command? (found : Found) : Level → Option Command
  | .top => none
  | .validate => some (.validate (found.path.getD ".") (found.format.getD .text))
  | .fix => some (.fix (found.path.getD ".")
      ⟨found.autoFix, found.createMissing, found.formatCode⟩)
  | .report => some (.report (found.path.getD ".") (found.output.getD defaultReport))
  | .init => some (.init (found.output.getD defaultDocument) found.force)

/-- Reads a command line without the name of the program. -/
def parse (args : List String) : Except UsageError Invocation := do
  let (p, next) ← readLevel .top {} args
  match next with
  | none => throw (withoutCommand p)
  | some (name, rest) =>
      match Level.ofName? name with
      | none => throw (helpOn rest)
      | some level =>
          let inner ← readCommand level rest
          let outer ← finish p
          match command? inner level with
          | some command => return { options := merge outer inner, command }
          | none => throw .missingCommand

end CommandLine
end ProjectConsistency
