import ProjectConsistency.Assoc
import ProjectConsistency.Standards.Model

/-!
# Distinct — collections of rules without repetition
-/

namespace ProjectConsistency

/-- The collections of the rules hold each element once. -/
structure Standards.Distinct (standards : Standards) : Prop where
  directories : (Assoc.keys standards.structural.requiredDirectories).Nodup
  files : standards.structural.requiredFiles.Nodup
  recommended : standards.structural.recommendedFiles.Nodup
  documents : standards.docs.requiredFiles.Nodup
  sections : standards.docs.requiredSections.Nodup
  configFiles : (Assoc.keys standards.config.perFile).Nodup

end ProjectConsistency
