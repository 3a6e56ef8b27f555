import ProjectConsistency.Fix.Creation
import ProjectConsistency.Fix.Rename
import ProjectConsistency.Fix.Selection

/-!
# Applying fixes

Fixes are made one after the other: renames, then creations, then a run of the formatter. A fix that
fails is recorded, and the others are still made.

- `Formatter`: what a run of a formatter does.
- `Fix.runAll`: makes fixes in order; `Fix.format`: a run of the formatter as a fix.
- `Fix.apply`: makes the selected fixes for the issues of a snapshot.
-/

namespace ProjectConsistency

/-- A run of a formatter in a root: the files after it, and its exit status if it was started. -/
abbrev Formatter := FileSystem → String → FileSystem × Except Failure Int

namespace Fix

def runAll {α : Type} (fix : FileSystem → α → FileSystem × FixRecord) (fs : FileSystem) :
    List α → FileSystem × List FixRecord
  | [] => (fs, [])
  | x :: rest =>
      let (fs', record) := fix fs x
      let (fs'', records) := runAll fix fs' rest
      (fs'', record :: records)

/-- How a run of a formatter with an exit status ends. -/
def ofStatus (status : Int) : FixOutcome :=
  if status = 0 then .applied
  else .failed ("formatter exited with status " ++ toString status)

def format (root : String) (fs : FileSystem) (formatter : Formatter) : FileSystem × FixRecord :=
  let (fs', result) := formatter fs root
  let outcome := match result with
    | .ok status => ofStatus status
    | .error e => .failed e.message
  (fs', { kind := .format, target := ".", outcome })

/-- Makes the selected fixes for the issues of a snapshot. -/
def apply (fs : FileSystem) (s : Snapshot) (standards : Standards) (selection : FixSelection)
    (formatter : Formatter) (issues : List Issue) : FileSystem × List FixRecord :=
  let renames := if selection.rename then Renaming.plan s issues else []
  let creations := if selection.scaffold then Creation.plan issues else []
  let formatters := if selection.format then [formatter] else []
  let (renamed, first) := runAll (Renaming.fix s.root) fs renames
  let (created, second) := runAll (Creation.fix s.root s.name standards) renamed creations
  let (formatted, third) := runAll (format s.root) created formatters
  (formatted, first ++ second ++ third)

end Fix
end ProjectConsistency
