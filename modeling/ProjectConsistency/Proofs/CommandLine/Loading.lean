import ProjectConsistency.CommandLine.Run
import ProjectConsistency.Proofs.FileSystem.Guard

/-!
# Loading — where settings come from

Whatever the options are, settings are read from one document or from none.  This file defines:

* `CommandLine.Run.document?` — the document that settings are read from.

Settings that were loaded can be used for a scan (`filter_of_loadSettings`).  They are loaded again
if the same document is found and its path leads to what it led to before (`loadSettings_of_kept`).
-/

namespace ProjectConsistency

open FileSystem

namespace Standards

variable {asked : Option String} {loaded : Loaded} {docs docs' : Documents} {path : String}

/-! ## Settings that are accepted -/

/-- Settings are checked, not changed, and their patterns of names to exclude can be read. -/
theorem of_check {s s' : Settings} (h : check s = .ok s') :
    s' = s ∧ ∃ filter, NameFilter.ofPatterns s.scanner.exclude = .ok filter := by
  by_cases hwidth : s.standards.style.indentWidth = 0
  · simp [check, hwidth] at h
  · cases hfilter : NameFilter.ofPatterns s.scanner.exclude with
    | error pattern => simp [check, hwidth, hfilter] at h
    | ok filter =>
        have hsame : s = s' := by simpa [check, hwidth, hfilter] using h
        exact ⟨hsame.symm, filter, rfl⟩

/-- Settings that are accepted have patterns that can be read. -/
theorem filter_of_resolve {document : Toml} {s : Settings} (h : resolve asked document = .ok s) :
    ∃ filter, NameFilter.ofPatterns s.scanner.exclude = .ok filter := by
  -- The keys, the layers and the shape of the document come before the check.
  rcases ok_of_bind h with ⟨_, _, h⟩
  rcases ok_of_bind h with ⟨_, _, h⟩
  rcases ok_of_bind h with ⟨_, _, h⟩
  obtain ⟨rfl, hfilter⟩ := of_check h
  exact hfilter

/-! ## One document -/

/-- A document that was loaded is there and was read, and its settings are accepted. -/
theorem of_loadFrom (h : loadFrom docs asked path = .ok loaded) :
    docs.exists? path = true ∧ ∃ document, resolve asked document = .ok loaded.settings := by
  obtain ⟨hthere, h⟩ := ok_of_guard h
  rcases ok_of_bind h with ⟨_, _, h⟩
  rcases ok_of_bind h with ⟨document, _, h⟩
  rcases ok_of_bind h with ⟨s, hresolve, h⟩
  cases h
  exact ⟨by simpa using hthere, document, hresolve⟩

theorem loadFrom_of_missing (h : docs.exists? path = false) (asked : Option String) :
    loadFrom docs asked path = .error (.configuration ("Standards file not found: " ++ path)) := by
  simp only [loadFrom, h, Bool.not_false, if_true]
  rfl

/-- Without a document the settings are those of an empty one. -/
theorem of_loadDefaults (h : loadDefaults asked = .ok loaded) :
    resolve asked (.table []) = .ok loaded.settings := by
  cases hresolve : resolve asked (.table []) with
  | error e => simp [loadDefaults, hresolve, Except.map] at h
  | ok s =>
      simp only [loadDefaults, hresolve, Except.map] at h
      cases h
      rfl

/-- The rest of what is read does not matter for a document. -/
theorem loadFrom_congr (hthere : docs'.exists? path = docs.exists? path)
    (hread : docs'.read path = docs.read path) (asked : Option String) :
    loadFrom docs' asked path = loadFrom docs asked path := by
  simp only [loadFrom, hthere, hread]

end Standards

namespace CommandLine
namespace Run

variable {fs fs' : FileSystem} {around : Surroundings} {o : GlobalOptions} {path : String}
  {loaded : Standards.Loaded}

/-- The document that the settings for a project are read from, if there is one. -/
def document? (fs : FileSystem) (around : Surroundings) (o : GlobalOptions) (path : String) :
    Option String :=
  if o.noConfig then none
  else match o.config with
    | some file => some file
    | none => Standards.discover? (documents fs around) path

/-- The settings are those of one document, or of none. -/
theorem loadSettings_eq (fs : FileSystem) (around : Surroundings) (o : GlobalOptions)
    (path : String) :
    loadSettings fs around o path = match document? fs around o path with
      | some doc => Standards.loadFrom (documents fs around) o.preset doc
      | none => Standards.loadDefaults o.preset := by
  by_cases hnone : o.noConfig = true
  · simp [loadSettings, document?, hnone]
  · cases hconfig : o.config with
    | some file => simp [loadSettings, document?, hnone, hconfig]
    | none =>
        have hsearch : document? fs around o path
            = Standards.discover? (documents fs around) path := by
          simp [document?, hnone, hconfig]
        have hload : loadSettings fs around o path
            = Standards.load (documents fs around) o.preset path := by
          simp [loadSettings, hnone, hconfig]
        rw [hload, hsearch]
        rfl

/-- The patterns of settings that were loaded can be read. -/
theorem filter_of_loadSettings (h : loadSettings fs around o path = .ok loaded) :
    ∃ filter, NameFilter.ofPatterns loaded.settings.scanner.exclude = .ok filter := by
  rw [loadSettings_eq] at h
  cases hdoc : document? fs around o path with
  | some doc =>
      rw [hdoc] at h
      rcases (Standards.of_loadFrom h).2 with ⟨document, hresolve⟩
      exact Standards.filter_of_resolve hresolve
  | none =>
      rw [hdoc] at h
      exact Standards.filter_of_resolve (Standards.of_loadDefaults h)

/-- The document from which settings were loaded is a file. -/
theorem isFile_document (h : loadSettings fs around o path = .ok loaded) {doc : String}
    (hdoc : document? fs around o path = some doc) : fs.isFile doc = true := by
  rw [loadSettings_eq, hdoc] at h
  exact (Standards.of_loadFrom h).1

theorem loadSettings_of_missing {doc : String} (hdoc : document? fs around o path = some doc)
    (h : fs.isFile doc = false) :
    loadSettings fs around o path
      = .error (.configuration ("Standards file not found: " ++ doc)) := by
  rw [loadSettings_eq, hdoc]
  exact Standards.loadFrom_of_missing h o.preset

/--
The same settings are loaded from other files if the same document is found there, and its path leads
to the same as before.
-/
theorem loadSettings_of_kept (hsame : document? fs' around o path = document? fs around o path)
    (hkept : ∀ doc, document? fs around o path = some doc → fs'.stat doc = fs.stat doc) :
    loadSettings fs' around o path = loadSettings fs around o path := by
  rw [loadSettings_eq, loadSettings_eq, hsame]
  cases hdoc : document? fs around o path with
  | none => rfl
  | some doc =>
      have hstat := hkept doc hdoc
      refine Standards.loadFrom_congr ?_ ?_ o.preset
      · simp [documents, isFile, hstat]
      · simp [documents, readText, readBytes, hstat]

/-! ## Which document it is -/

theorem document?_of_noConfig (h : o.noConfig = true) (fs : FileSystem) (around : Surroundings)
    (path : String) : document? fs around o path = none := by
  simp [document?, h]

theorem document?_of_config (hnone : o.noConfig = false) {file : String}
    (h : o.config = some file) (fs : FileSystem) (around : Surroundings) (path : String) :
    document? fs around o path = some file := by
  simp [document?, hnone, h]

/-- A search ends with the local document if that is there. -/
theorem document?_of_local (hlocal : fs.isFile (Path.join path ".consistency.toml") = true)
    (hnone : o.noConfig = false) (hconfig : o.config = none) (around : Surroundings) :
    document? fs around o path = some (Path.join path ".consistency.toml") := by
  simp [document?, hnone, hconfig, Standards.discover?, Standards.localNames, documents, hlocal]

end Run
end CommandLine
end ProjectConsistency
