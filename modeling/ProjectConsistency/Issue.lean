/-!
# Issues

- `Category`: the five rule families, in the order in which they are evaluated and reported.
- `Severity`: how urgent an issue is.
- `Remedy`: a fix that can be carried out, with paths relative to the project root.
- `Issue`: one deviation from the standards.
-/

namespace ProjectConsistency

/-! ## Categories -/

inductive Category where
  | structural
  | naming
  | codeStyle
  | documentation
  | configuration
  deriving DecidableEq, Repr

namespace Category

def all : List Category :=
  [structural, naming, codeStyle, documentation, configuration]

def title : Category → String
  | structural => "structure"
  | naming => "naming"
  | codeStyle => "code-style"
  | documentation => "documentation"
  | configuration => "configuration"

def ofTitle? (name : String) : Option Category :=
  all.find? fun c => c.title = name

end Category

/-! ## Severities -/

inductive Severity where
  | error
  | warning
  | info
  deriving DecidableEq, Repr

namespace Severity

def all : List Severity :=
  [error, warning, info]

def title : Severity → String
  | error => "error"
  | warning => "warning"
  | info => "info"

def ofTitle? (name : String) : Option Severity :=
  all.find? fun s => s.title = name

def rank : Severity → Nat
  | error => 3
  | warning => 2
  | info => 1

end Severity

/-! ## Remedies and issues -/

/-- A fix that can be carried out. Paths are relative to the project root. -/
inductive Remedy where
  | rename (source target : String)
  | createFile (path : String)
  | createDirectory (path : String)
  | reformat (path : String)
  deriving DecidableEq, Repr

namespace Remedy

/-- The fix in words. -/
def describe : Remedy → String
  | rename source target => "rename `" ++ source ++ "` to `" ++ target ++ "`"
  | createFile path => "create `" ++ path ++ "` from the built-in template"
  | createDirectory path => "create directory `" ++ path ++ "/`"
  | reformat path => "run the configured formatter on `" ++ path ++ "`"

end Remedy

/-- One deviation from the standards. -/
structure Issue where
  category : Category
  severity : Severity
  message : String
  target : Option String := none
  suggestion : Option String := none
  remedy : Option Remedy := none
  deriving DecidableEq, Repr

namespace Issue

def about (issue : Issue) (path : String) : Issue :=
  { issue with target := some path }

def suggest (issue : Issue) (suggestion : String) : Issue :=
  { issue with suggestion := some suggestion }

/-- The issue with a remedy, whose description becomes the suggestion. -/
def withRemedy (issue : Issue) (remedy : Remedy) : Issue :=
  { issue with suggestion := some remedy.describe, remedy := some remedy }

end Issue

end ProjectConsistency
