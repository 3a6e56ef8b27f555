import ProjectConsistency.Report.Size
import ProjectConsistency.Timestamp
import ProjectConsistency.Validation

/-!
# Reports

- `Report`: what a validation found, with the time at which the report was made.
- `Report.ofValidation`: the report of a validation.
-/

namespace ProjectConsistency

/-- What a validation found. -/
structure Report where
  projectName : String
  path : String
  projectType : ProjectType
  score : Nat
  fileCount : Nat
  directoryCount : Nat
  size : String
  issues : List Issue
  recommendations : List Recommendation
  generated : Timestamp

namespace Report

def ofValidation (v : Validation) (generated : Timestamp) : Report where
  projectName := v.snapshot.name
  path := v.snapshot.root
  projectType := v.snapshot.projectType
  score := v.score
  fileCount := v.snapshot.files.length
  directoryCount := v.snapshot.directories.length
  size := humanSize v.snapshot.totalSize.toNat
  issues := v.issues
  recommendations := v.recommendations
  generated := generated

end Report

end ProjectConsistency
