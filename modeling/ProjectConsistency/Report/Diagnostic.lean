import ProjectConsistency.Report.Ansi

/-!
# Messages beside the output

An error or warning is a line, which a line with details and a line with a hint may follow. A note is
a single line.

- `Diagnostic`: a message; `Diagnostic.render`: its text.
-/

namespace ProjectConsistency

open Ansi

/-- A message beside the output. -/
inductive Diagnostic where
  | error (title message : String) (detail hint : Option String)
  | warning (message : String) (detail hint : Option String)
  | note (message : String)
  deriving DecidableEq, Repr

namespace Diagnostic

def detailLine (colours : Bool) (detail : Option String) : String :=
  detail.elim "" fun d => "  " ++ paint colours [.dim] ("× " ++ d) ++ "\n"

def hintLine (colours : Bool) (hint : Option String) : String :=
  hint.elim "" fun h => "  " ++ paint colours [.cyan] "help:" ++ " " ++ h ++ "\n"

/-- The text of a message. -/
def render (colours : Bool) : Diagnostic → String
  | error title message detail hint =>
      paint colours [.bold, .red] ("✖ " ++ title ++ ":") ++ " " ++ message ++ "\n"
        ++ detailLine colours detail ++ hintLine colours hint
  | warning message detail hint =>
      paint colours [.bold, .yellow] "⚠ Warning:" ++ " " ++ message ++ "\n"
        ++ detailLine colours detail ++ hintLine colours hint
  | note message => paint colours [.dim] ("· " ++ message) ++ "\n"

end Diagnostic

end ProjectConsistency
