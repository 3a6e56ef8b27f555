import ProjectConsistency.Fix.Selection
import ProjectConsistency.Text.CaseMapping

/-!
# What a command line asks for

- `ColourChoice`, `OutputFormat`: choices, with their readers.
- `GlobalOptions`: options that every command takes.
- `Command`: a command with its own options.
- `Invocation`: a whole command line.
-/

namespace ProjectConsistency
namespace CommandLine

/-- When colours are used. -/
inductive ColourChoice where
  | auto
  | always
  | never
  deriving DecidableEq, Repr

namespace ColourChoice

def ofWord? : String → Option ColourChoice
  | "auto" => some auto
  | "always" => some always
  | "never" => some never
  | _ => none

end ColourChoice

inductive OutputFormat where
  | text
  | json
  deriving DecidableEq, Repr

namespace OutputFormat

/-- The form of a word, whatever the case of its letters. -/
def ofWord (word : String) : Except String OutputFormat :=
  match String.ofList (Text.lower word.toList) with
  | "text" => .ok text
  | "json" => .ok json
  | _ => .error ("Unknown output format: " ++ word)

end OutputFormat

structure GlobalOptions where
  verbosity : Nat := 0
  quiet : Bool := false
  colour : ColourChoice := .auto
  config : Option String := none
  preset : Option String := none
  noConfig : Bool := false
  deriving DecidableEq, Repr

inductive Command where
  | validate (path : String) (format : OutputFormat)
  | fix (path : String) (selection : FixSelection)
  | report (path output : String)
  | init (output : String) (force : Bool)
  deriving DecidableEq, Repr

structure Invocation where
  options : GlobalOptions
  command : Command
  deriving DecidableEq, Repr

end CommandLine
end ProjectConsistency
