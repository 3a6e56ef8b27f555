import ProjectConsistency.Fix.Scaffold
import ProjectConsistency.Proofs.Json.Positions
import ProjectConsistency.Proofs.Json.Printed
import ProjectConsistency.Proofs.Rules.MissingKeys
import ProjectConsistency.Proofs.Text.Lines

/-!
# Scaffolded — new files against the rules that track them

This file defines:

* `Fix.packageValue`, `Fix.packageKeys` — what the package description says, and its keys;
* `Fix.Hashed` — a text begins with a hash sign;
* `Fix.holding` — a project with nothing but one configuration file.

The content of a new file goes by its name alone.  Only the package description is JSON, whatever the
project is called (`ofText_packageDescription`), and it has all that is asked for by default
(`package_complete`).  All other content is empty or begins with a hash sign (`scaffold_of_other`), and
cannot be read as a configuration file.  So a rule that tracks a new file finds at most keys missing in
a package description, and any other file not to be JSON (`check_scaffold`).
-/

namespace ProjectConsistency

open Text

/-! ## Content that is not JSON -/

namespace Json

/-- No value begins with a hash sign. -/
theorem parseChars_hash (rest : List Char) :
    parseChars ('#' :: rest) = .error ⟨.expectedValue, 1, 1⟩ := by
  have hvalue : ∀ fuel levels,
      value fuel levels ('#' :: rest) = .error (.ahead .expectedValue ('#' :: rest)) := by
    intro fuel levels
    rw [value.eq_def]
    simp [skipGap, isGap, digit?]
  have hlength := byteLength_pos '#' rest
  have hoffset : min (byteLength ('#' :: rest))
      (byteLength ('#' :: rest) - byteLength ('#' :: rest) + 1) = 1 := by omega
  have hposition : positionAt 1 ('#' :: rest) = (1, 1) := by
    have hsize : '#'.utf8Size = 1 := rfl
    cases rest <;> simp [positionAt, positionFrom, hsize]
  rw [parseChars, hvalue]
  simp only [Stop.toSyntaxError, Stop.ahead, hoffset, hposition]

end Json

namespace ConfigFile

/-- A text that begins with a hash is no JSON. -/
theorem ofText_hash {text : String} {rest : List Char} (h : text.toList = '#' :: rest) :
    ofText text = .invalid "expected value at line 1 column 1" := by
  -- The first line is no comment, so it stays where it is.
  obtain ⟨more, ls, hlines⟩ := lines_cons (c := '#') (by decide) (by decide) rest
  have hkept : isComment ('#' :: more) = false := rfl
  have hstripped : ∃ after, stripComments ('#' :: rest) = '#' :: after := by
    rw [stripComments, hlines, List.filter_cons_of_pos (by simp [hkept]), joinLines,
      Json.intercalate_cons]
    exact ⟨_, rfl⟩
  obtain ⟨after, hafter⟩ := hstripped
  rw [ofText, h, hafter, Json.parseChars_hash]
  rfl

theorem ofText_empty : ofText "" = .invalid "EOF while parsing a value at line 1 column 0" := by
  have hstripped : stripComments "".toList = [] := rfl
  rw [ofText, hstripped, Json.parseChars_nil]
  rfl

end ConfigFile

namespace Fix

/-! ## The package description -/

def packageValue (project : String) : Json :=
  .object [
    ("name", .string (String.ofList (Naming.convert project.toList .kebab))),
    ("private", .bool true),
    ("version", .string "0.1.0")]

def packageKeys : List String := ["name", "private", "version"]

def packageLines (name : List Char) : List (List Char) := [
  ['{'],
  "  \"name\": ".toList ++ (Json.quoteChars name ++ [',']),
  "  \"private\": true,".toList,
  "  \"version\": \"0.1.0\"".toList,
  ['}']]

/-- The package description is printed line by line as it is written here. -/
theorem pretty_packageValue (project : String) :
    (packageValue project).pretty.toList
      = joinLines (packageLines (Naming.convert project.toList .kebab)) := by
  simp [packageValue, Json.pretty, Json.prettyAt, Json.prettyMembers, Json.block, Json.indentation,
    Json.quote, packageLines, joinLines]
  rfl

theorem packageDescription_eq (project : String) :
    packageDescription project = (packageValue project).pretty ++ "\n" := rfl

theorem packageDescription_lines (project : String) :
    (packageDescription project).toList
      = (packageLines (Naming.convert project.toList .kebab)).flatMap (· ++ ['\n']) := by
  rw [packageDescription_eq, String.toList_append, pretty_packageValue]
  simp [packageLines, joinLines]

/-- Line feeds are escaped in a string. -/
theorem feed_not_mem_quoteChars (cs : List Char) : '\n' ∉ Json.quoteChars cs := by
  have hdigits : ∀ n < 0x20, '\n' ≠ Json.hexChar (n / 16) ∧ '\n' ≠ Json.hexChar (n % 16) := by
    decide
  have hescape : ∀ c, '\n' ∉ Json.escape c := by
    intro c
    fun_cases Json.escape c with
    | case6 _ hback =>
        rw [if_pos hback]
        decide
    | case7 _ hback hpage =>
        rw [if_neg hback, if_pos hpage]
        decide
    | case8 _ hback hpage hlow =>
        rw [if_neg hback, if_neg hpage, if_pos hlow]
        simp [hdigits _ hlow]
    | case9 _ hback hpage hlow _ _ hfeed =>
        rw [if_neg hback, if_neg hpage, if_neg hlow]
        simpa using Ne.symm hfeed
    | _ => decide
  simp [Json.quoteChars, hescape]

theorem packageLines_ended (name : List Char) :
    ∀ line ∈ packageLines name, '\n' ∉ line ∧ line.getLast? ≠ some '\r' := by
  have hname : '\n' ∉ "  \"name\": ".toList ++ (Json.quoteChars name ++ [',']) := by
    rw [List.mem_append, List.mem_append, not_or, not_or]
    exact ⟨by decide, feed_not_mem_quoteChars name, by decide⟩
  have hlast : ("  \"name\": ".toList ++ (Json.quoteChars name ++ [','])).getLast? ≠ some '\r' := by
    rw [← List.append_assoc, List.getLast?_concat]
    decide
  simp only [packageLines, List.forall_mem_cons]
  exact ⟨by decide, ⟨hname, hlast⟩, by decide, by decide, by decide, by simp⟩

/-- No line of a package description is taken for a comment. -/
theorem packageLines_kept (name : List Char) :
    ∀ line ∈ packageLines name, ConfigFile.isComment line = false := by
  have hname : ConfigFile.isComment ("  \"name\": ".toList ++ (Json.quoteChars name ++ [',']))
      = false := rfl
  simp only [packageLines, List.forall_mem_cons]
  exact ⟨rfl, hname, rfl, rfl, rfl, by simp⟩

/-- A package description can be read back as it is printed. -/
theorem plain_packageValue (project : String) :
    (packageValue project).Plain Json.levelLimit := by
  have hascending : Assoc.Ascending [
      ("name", Json.string (String.ofList (Naming.convert project.toList .kebab))),
      ("private", .bool true), ("version", .string "0.1.0")] := by
    simp only [Assoc.Ascending, Assoc.keys, List.map]
    decide
  refine .object hascending ?_
  intro key x hx
  simp only [List.mem_cons, List.not_mem_nil, or_false, Prod.mk.injEq] at hx
  rcases hx with ⟨_, rfl⟩ | ⟨_, rfl⟩ | ⟨_, rfl⟩
  · exact .string _ _
  · exact .bool _ _
  · exact .string _ _

/-- A package description is read as what it says. -/
theorem ofText_packageDescription (project : String) :
    ConfigFile.ofText (packageDescription project) = .parsed (packageValue project) := by
  have hstripped : ConfigFile.stripComments (packageDescription project).toList
      = (packageValue project).pretty.toList := by
    rw [ConfigFile.stripComments, packageDescription_lines, lines_of_ended (packageLines_ended _),
      List.filter_eq_self.2 fun line hline => by simp [packageLines_kept _ line hline],
      ← pretty_packageValue]
  have hparse : Json.parseChars (packageValue project).pretty.toList = .ok (packageValue project) :=
    (Json.parse_printed (plain_packageValue project)).2
  rw [ConfigFile.ofText, hstripped, hparse]

/-- A key without dots is a name. -/
theorem eq_of_keyPath {key name : String} (h : Rules.Configuration.keyPath key = [name]) :
    key = name := by
  rw [Rules.Configuration.keyPath, Text.splitOn_eq] at h
  obtain ⟨piece, hpiece, hname⟩ := List.map_eq_singleton_iff.1 h
  have hkey : ['.'].intercalate (key.toList.splitOn '.') = key.toList :=
    List.intercalate_splitOn '.'
  rw [hpiece, List.intercalate_singleton] at hkey
  rw [← hname, hkey, String.ofList_toList]

/-- Of an object without levels below it, only names are found. -/
theorem isSome_lookup_iff {members : List (String × Json)}
    (hflat : ∀ key x, (key, x) ∈ members → x.members? = none)
    (hnames : ∀ name ∈ Assoc.keys members, Rules.Configuration.keyPath name = [name]) (key : String) :
    (Json.lookup (Rules.Configuration.keyPath key) (.object members)).isSome
      ↔ key ∈ Assoc.keys members := by
  rw [← Assoc.isSome_find?_iff]
  constructor
  · intro hfound
    cases hpath : Rules.Configuration.keyPath key with
    | nil => exact absurd hpath (Rules.keyPath_ne_nil key)
    | cons name rest =>
        rw [hpath] at hfound
        obtain ⟨value, hvalue⟩ := Option.isSome_iff_exists.1 hfound
        obtain ⟨x, hx, hrest⟩ := Option.bind_eq_some_iff.1 hvalue
        have hmem : Assoc.find? name members = some x := hx
        cases rest with
        | nil =>
            rw [eq_of_keyPath hpath, hmem]
            rfl
        | cons next rest =>
            -- Nothing is found below a member.
            simp [Json.lookup, Json.find?, hflat name x (Assoc.mem_of_find? hmem)] at hrest
  · intro hfind
    have hkey := hnames key ((Assoc.isSome_find?_iff key members).1 hfind)
    obtain ⟨x, hx⟩ := Option.isSome_iff_exists.1 hfind
    have hmember : (Json.object members).find? key = some x := hx
    simp [hkey, Json.lookup, hmember]

/-- A package description defines its own keys and no others. -/
theorem isSome_lookup_packageValue (project key : String) :
    (Json.lookup (Rules.Configuration.keyPath key) (packageValue project)).isSome
      ↔ key ∈ packageKeys := by
  refine isSome_lookup_iff ?_ ?_ key
  · intro name x hx
    simp only [List.mem_cons, List.not_mem_nil, or_false, Prod.mk.injEq] at hx
    rcases hx with ⟨_, rfl⟩ | ⟨_, rfl⟩ | ⟨_, rfl⟩ <;> rfl
  · have hall : ∀ name ∈ packageKeys, Rules.Configuration.keyPath name = [name] := by decide
    exact hall

/-- The rule of a package description finds the keys missing that are not its own. -/
theorem missingKeys_packageValue (project : String) (rule : ConfigFileRule) :
    Rules.Configuration.missingKeys rule (packageValue project)
      = rule.requiredKeys.filter fun key => key ∉ packageKeys := by
  refine List.filter_congr ?_
  intro key _
  rw [Bool.eq_iff_iff, decide_eq_true_iff, Option.isNone_iff_eq_none,
    ← Option.not_isSome_iff_eq_none, isSome_lookup_packageValue]

/-! ## All content -/

theorem scaffold_of_package {path : String} (h : lastSegment path.toList = "package.json".toList)
    (project : String) (standards : Standards) :
    scaffold path project standards = packageDescription project := by
  have hreadme : Readme.isName "package.json".toList = false := by decide
  simp only [scaffold, h, hreadme, String.ofList_toList]
  rfl

def Hashed (text : String) : Prop :=
  ∃ rest, text.toList = '#' :: rest

theorem Hashed.append {text : String} (h : Hashed text) (more : String) : Hashed (text ++ more) := by
  obtain ⟨rest, hrest⟩ := h
  exact ⟨rest ++ more.toList, by simp [hrest]⟩

theorem Hashed.unlines {line : String} (h : Hashed line) (ls : List String) :
    Hashed (unlines (line :: ls)) := by
  obtain ⟨rest, hrest⟩ := h
  simp [Hashed, Fix.unlines, String.toList_join, hrest]

theorem hashed_gitignore : Hashed gitignore :=
  Hashed.unlines ⟨" Dependencies".toList, by decide⟩ _

theorem hashed_environmentExample : Hashed environmentExample :=
  Hashed.unlines ⟨" Copy this file to .env and fill in the values.".toList, by decide⟩ _

theorem hashed_changeLog : Hashed changeLog :=
  Hashed.unlines ⟨" Changelog".toList, by decide⟩ _

/-- What is written without a template is nothing, or begins with a hash. -/
theorem hashed_placeholder (name : List Char) :
    placeholder name = "" ∨ Hashed (placeholder name) := by
  have hchoice : ∀ (titled : Bool) {text : String}, Hashed text →
      (if titled then text else "") = "" ∨ Hashed (if titled then text else "") := by
    intro titled text h
    cases titled with
    | true => exact .inr h
    | false => exact .inl rfl
  have htitle : Hashed "# " := ⟨[' '], rfl⟩
  exact hchoice _ ((htitle.append (String.ofList (Naming.splitStem name).1)).append "\n")

/-- All other content is empty or begins with a hash sign. -/
theorem scaffold_of_other {path : String} (h : lastSegment path.toList ≠ "package.json".toList)
    (project : String) (standards : Standards) :
    scaffold path project standards = "" ∨ Hashed (scaffold path project standards) := by
  have htitle : Hashed "# " := ⟨[' '], rfl⟩
  by_cases hreadme : Readme.isName (lastSegment path.toList) = true
  · have hscaffold : scaffold path project standards
        = readme project standards.docs.requiredSections := by simp [scaffold, hreadme]
    rw [hscaffold]
    exact .inr (((htitle.append _).append _).append _)
  · simp only [scaffold, if_neg hreadme]
    -- The names that have templates, and any other name.
    split
    · exact .inr hashed_gitignore
    · exact .inr hashed_environmentExample
    · exact .inr hashed_changeLog
    · rename_i hname
      exact absurd (by rw [← hname, String.toList_ofList]) h
    · exact hashed_placeholder _

/-! ## Rules about new files -/

open Rules Standards

/-- The issues of a file are about that file. -/
theorem target_of_mem_checkFile {file : String} {rule : ConfigFileRule} {found : ConfigFile}
    {issue : Issue} (h : issue ∈ Configuration.checkFile file rule found) :
    issue.target = some file := by
  cases found with
  | invalid reason =>
      obtain rfl : issue = Configuration.invalidFile file reason := by
        simpa [Configuration.checkFile] using h
      rfl
  | parsed value =>
      obtain ⟨key, _, rfl⟩ := List.mem_map.1 h
      rfl

def holding (file : String) (found : ConfigFile) : Snapshot where
  root := "/shop"
  name := "shop"
  files := [file]
  configFiles := [(file, found)]

/--
The package description of any project is read as an object whose name is that of the project in kebab
case and which has a version.  No rule that holds by default finds anything wrong with it, whatever
else there is.
-/
theorem package_complete (project : String) (standards : Standards) :
    ∃ members, ConfigFile.ofText (scaffold "package.json" project standards)
        = .parsed (.object members) ∧
      Assoc.find? "name" members
        = some (.string (String.ofList (Naming.convert project.toList .kebab))) ∧
      (Assoc.find? "version" members).isSome = true ∧
      ∀ s : Snapshot, Assoc.find? "package.json" s.configFiles
          = some (.ofText (scaffold "package.json" project standards)) →
        ∀ issue ∈ Configuration.check s ({} : Standards), issue.target ≠ some "package.json" := by
  have hread : ConfigFile.ofText (scaffold "package.json" project standards)
      = .parsed (packageValue project) := by
    rw [scaffold_of_package (by decide), ofText_packageDescription]
  refine ⟨_, hread, rfl, rfl, ?_⟩
  intro s hfile issue hissue htarget
  obtain ⟨⟨file, rule⟩, hrule, hfound⟩ := List.mem_flatMap.1 hissue
  obtain ⟨found, hfind, hmem⟩ : ∃ found, Assoc.find? file s.configFiles = some found ∧
      issue ∈ Configuration.checkFile file rule found := by
    cases hfind : Assoc.find? file s.configFiles with
    | none => simp [hfind] at hfound
    | some found => exact ⟨found, rfl, by simpa [hfind] using hfound⟩
  obtain rfl : "package.json" = file :=
    Option.some.inj (htarget.symm.trans (target_of_mem_checkFile hmem))
  obtain rfl : _ = found := Option.some.inj (hfile.symm.trans hfind)
  -- Whatever the rule asks for is among the keys of the description.
  have hdefined : ∀ entry ∈ ({} : Standards).config.perFile, entry.1 = "package.json" →
      ∀ key ∈ entry.2.requiredKeys, key ∈ packageKeys := by decide
  rw [hread, Configuration.checkFile, missingKeys_packageValue] at hmem
  obtain ⟨key, hkey, _⟩ := List.mem_map.1 hmem
  obtain ⟨hrequired, hother⟩ := List.mem_filter.1 hkey
  exact absurd (hdefined _ hrule rfl key hrequired) (by simpa using hother)

/-- A name without words is kept as it is, and can still be read. -/
theorem package_complete_wordless :
    let project := "\"\\\n\x01//\""
    let made := ConfigFile.ofText (scaffold "package.json" project {})
    (∃ members, made = .parsed (.object members) ∧
        Assoc.find? "name" members = some (.string project)) ∧
      ∀ issue ∈ Configuration.check (holding "package.json" made) {},
        issue.target ≠ some "package.json" := by
  intro project made
  have hkept : String.ofList (Naming.convert project.toList .kebab) = project := by decide
  obtain ⟨members, hmade, hname, _, hnothing⟩ := package_complete project {}
  rw [hkept] at hname
  exact ⟨⟨members, hmade, hname⟩, hnothing (holding "package.json" made) rfl⟩

/-- Of a snapshot with one configuration file only the rule of this file counts. -/
theorem check_of_singleton {standards : Standards} (hdistinct : standards.Distinct) {file : String}
    {rule : ConfigFileRule} (hrule : (file, rule) ∈ standards.config.perFile) {s : Snapshot}
    {found : ConfigFile} (hfiles : s.configFiles = [(file, found)]) :
    Configuration.check s standards = Configuration.checkFile file rule found := by
  have hfind : Assoc.find? file standards.config.perFile = some rule :=
    (Assoc.find?_eq_some_iff hdistinct.configFiles).2 hrule
  rw [Configuration.check, Assoc.flatMap_of_nodup hdistinct.configFiles _ file, hfind]
  · simp [hfiles, Assoc.find?]
  · intro e _ hother
    simp [hfiles, Assoc.find?, Ne.symm hother]

/--
With accepted rules and a snapshot whose only configuration file is a new file, the rule for the file
finds nothing missing in a package description but keys other than its name, its version and whether
it is private.  Any other file is found not to be JSON, and nothing else.
-/
theorem check_scaffold {asked : Option String} {loaded : Loaded} (haccepted : Accepted asked loaded)
    {file : String} {rule : ConfigFileRule}
    (hrule : (file, rule) ∈ loaded.settings.standards.config.perFile) (project : String)
    {s : Snapshot} (hfiles : s.configFiles
      = [(file, .ofText (scaffold file project loaded.settings.standards))]) :
    let issues := Configuration.check s loaded.settings.standards
    (lastSegment file.toList = "package.json".toList → ∀ issue ∈ issues,
        ∃ key ∈ rule.requiredKeys, key ∉ packageKeys ∧
          issue = Configuration.missingKey file rule.severity key) ∧
      (lastSegment file.toList ≠ "package.json".toList →
        issues = [Configuration.invalidFile file
          (if scaffold file project loaded.settings.standards = ""
            then "EOF while parsing a value at line 1 column 0"
            else "expected value at line 1 column 1")]) := by
  intro issues
  have hissues : issues = _ := check_of_singleton haccepted.sound.distinct hrule hfiles
  refine ⟨?_, ?_⟩
  · intro hname issue hissue
    rw [hissues, scaffold_of_package hname, ofText_packageDescription, Configuration.checkFile,
      missingKeys_packageValue] at hissue
    obtain ⟨key, hkey, rfl⟩ := List.mem_map.1 hissue
    obtain ⟨hrequired, hother⟩ := List.mem_filter.1 hkey
    exact ⟨key, hrequired, by simpa using hother, rfl⟩
  · intro hname
    rw [hissues]
    -- Other files are created empty or with a comment, and neither is JSON.
    rcases scaffold_of_other hname project loaded.settings.standards with hempty | ⟨rest, hhash⟩
    · rw [if_pos hempty, hempty, ConfigFile.ofText_empty, Configuration.checkFile]
    · rw [ConfigFile.ofText_hash hhash, if_neg, Configuration.checkFile]
      intro hempty
      simp [hempty] at hhash

/-- A file that is required and tracked is found not to be JSON as soon as it is made. -/
theorem check_scaffold_reports :
    ∃ loaded, loadFrom (oneDocument "[structureRules]\nrequiredFiles = [\"tsconfig.json\"]\n") none
        "/s.toml" = .ok loaded ∧
      "tsconfig.json" ∈ loaded.settings.standards.structural.requiredFiles ∧
      "tsconfig.json" ∈ Assoc.keys loaded.settings.standards.config.perFile ∧
      Configuration.check (holding "tsconfig.json"
        (.ofText (scaffold "tsconfig.json" "shop" loaded.settings.standards)))
        loaded.settings.standards ≠ [] :=
  ok_of_any (by decide +kernel)

/-- With the built-in rules a new package description has all that is asked for. -/
theorem check_scaffold_builtIn :
    ∃ loaded, loadDefaults none = .ok loaded ∧
      Configuration.check (holding "package.json"
        (.ofText (scaffold "package.json" "shop" loaded.settings.standards)))
        loaded.settings.standards = [] ∧
      Configuration.check (holding "tsconfig.json"
        (.ofText (scaffold "tsconfig.json" "shop" loaded.settings.standards)))
        loaded.settings.standards
          = [Configuration.invalidFile "tsconfig.json"
              "EOF while parsing a value at line 1 column 0"] := by
  obtain ⟨loaded, hload, hpackage, hcompiler⟩ := ok_of_any (x := loadDefaults none)
    (p := fun loaded =>
      ("package.json", ⟨["name", "version"], .warning⟩) ∈ loaded.settings.standards.config.perFile ∧
      ("tsconfig.json", ⟨["compilerOptions"], .error⟩) ∈ loaded.settings.standards.config.perFile)
    (by decide +kernel)
  refine ⟨loaded, hload, ?_, ?_⟩
  · obtain ⟨hmissing, _⟩ := check_scaffold (.defaults hload) hpackage "shop" (s := holding _ _) rfl
    have hdefined : ∀ key ∈ ["name", "version"], key ∈ packageKeys := by decide
    refine List.eq_nil_iff_forall_not_mem.2 ?_
    intro issue hissue
    obtain ⟨key, hkey, hother, _⟩ := hmissing (by decide) issue hissue
    exact hother (hdefined key hkey)
  · obtain ⟨_, hinvalid⟩ := check_scaffold (.defaults hload) hcompiler "shop" (s := holding _ _) rfl
    rw [hinvalid (by decide)]
    rfl

end Fix
end ProjectConsistency
