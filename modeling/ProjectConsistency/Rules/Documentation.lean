import ProjectConsistency.Issue
import ProjectConsistency.Project.Snapshot
import ProjectConsistency.Standards.Model

/-!
# Rules about documents

- `heading?`: the text of a heading line: up to three spaces, one to six hash signs, blanks, and a
  text. Blanks and hash signs at its end do not count.
- `headings`: the headings of a document. A line that begins with three backticks or tildes opens
  or closes a block of code, in which nothing counts.
- `check`: all issues of this family.
-/

namespace ProjectConsistency
namespace Rules
namespace Documentation

open Text

/-! ## Headings -/

/-- A space or a tab. -/
def isGap (c : Char) : Bool :=
  c = ' ' || c = '\t'

/-- A character that does not count at the end of a heading. -/
def isClosing (c : Char) : Bool :=
  isGap c || c = '#'

/-- The text after the hash signs and `gaps` blanks, of which at least one character is kept. -/
def headingText (gaps : Nat) : List Char → Option (List Char)
  | [] => if 2 ≤ gaps then some [] else none
  | c :: rest => some (trim (c :: trimEndWhere isClosing rest))

def heading? (line : List Char) : Option (List Char) :=
  let body := line.dropWhile (· = ' ')
  let after := body.dropWhile (· = '#')
  let level := body.length - after.length
  let gaps := after.takeWhile isGap
  if line.length - body.length ≤ 3 && 1 ≤ level && level ≤ 6 && !gaps.isEmpty then
    headingText gaps.length (after.dropWhile isGap)
  else none

/-- The line opens or closes a block of code. -/
def isFence (line : List Char) : Bool :=
  let t := trimStart line
  startsWith ['`', '`', '`'] t || startsWith ['~', '~', '~'] t

/-- The headings of lines; `fenced` tells whether a block of code is open. -/
def headingsFrom (fenced : Bool) : List (List Char) → List (List Char)
  | [] => []
  | line :: rest =>
      if isFence line then headingsFrom (!fenced) rest
      else if fenced then headingsFrom true rest
      else (heading? line).toList ++ headingsFrom false rest

def headings (document : List Char) : List (List Char) :=
  headingsFrom false (lines document)

/-! ## Issues -/

def missingDocument (path : String) : Issue :=
  ({ category := .documentation, severity := .warning,
     message := "Missing documentation file `" ++ path ++ "`",
     target := some path : Issue }).withRemedy (.createFile path)

/-- Required documents that are not there and that no rule about files reports. -/
def missingDocuments (standards : Standards) (s : Snapshot) : List Issue :=
  (standards.docs.requiredFiles.filter fun path =>
    !standards.structural.requiredFiles.contains path && !s.hasFile path).map missingDocument

def isPresent (found : List (List Char)) (sectionName : String) : Bool :=
  found.any fun h => eqIgnoringAsciiCase h (trim sectionName.toList)

def missingSection (path sectionName : String) : Issue where
  category := .documentation
  severity := .info
  message := "`" ++ path ++ "` has no \"" ++ sectionName ++ "\" section"
  target := some path
  suggestion := some ("add a `## " ++ sectionName ++ "` heading to `" ++ path ++ "`")

def missingSections (rules : DocRules) (readme : Readme) : List Issue :=
  let found := headings readme.content.toList
  (rules.requiredSections.filter fun name => !isPresent found name).map
    (missingSection readme.path)

def check (s : Snapshot) (standards : Standards) : List Issue :=
  missingDocuments standards s ++ s.readme.elim [] (missingSections standards.docs)

end Documentation
end Rules
end ProjectConsistency
