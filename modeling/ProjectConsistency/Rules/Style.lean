import ProjectConsistency.Issue
import ProjectConsistency.Project.Snapshot
import ProjectConsistency.Standards.Model
import ProjectConsistency.Text.Numeric

/-!
# Rules about the style of sources

The checks look at lines only and report at most one place of a file each. Lines are counted from
one.

- `firstLine`: the first line of a class, with its number.
- `isTabbed`, `isMisaligned`: lines whose indentation is wrong.
- `dominantQuote`: the quotes that occur more often.
- `lacksComma`, `firstMissingComma`: an element without a comma before the end of a literal.
- `checkSource`: all issues of a source; `inspected`: the sources that are checked.
- `check`: all issues of this family.
-/

namespace ProjectConsistency
namespace Rules
namespace Style

open Text

/-! ## Lines -/

/-- The first line of a class from number `n` on, with its number. -/
def firstLineFrom (p : List Char → Bool) (n : Nat) : List (List Char) → Option (Nat × List Char)
  | [] => none
  | line :: rest => if p line then some (n, line) else firstLineFrom p (n + 1) rest

def firstLine (p : List Char → Bool) (ls : List (List Char)) : Option (Nat × List Char) :=
  firstLineFrom p 1 ls

/-- The line holds nothing but white space. -/
def isEmptyLine (line : List Char) : Bool :=
  (trim line).isEmpty

/-- The spaces and tabs at the start of a line. -/
def indentation (line : List Char) : List Char :=
  line.takeWhile fun c => c = ' ' || c = '\t'

/-- The line continues a comment whose lines begin with stars. -/
def continuesComment (line : List Char) : Bool :=
  startsWith ['*'] (trimStart line)

/-! ## Indentation -/

/-- The line is indented with tabs. -/
def isTabbed (line : List Char) : Bool :=
  !isEmptyLine line && (indentation line).contains '\t'

/-- The line is indented by spaces whose number is no multiple of the width. -/
def isMisaligned (width : Nat) (line : List Char) : Bool :=
  !isEmptyLine line && !continuesComment line && !(indentation line).contains '\t'
    && (indentation line).length % width ≠ 0

/-- The first line that is not aligned to the width, with its indentation. -/
def firstMisaligned (width : Nat) (ls : List (List Char)) : Option (Nat × Nat) :=
  if width = 0 then none
  else (firstLine (isMisaligned width) ls).map fun (n, line) => (n, (indentation line).length)

/-! ## Quotes -/

def isQuoteComment (line : List Char) : Bool :=
  let t := trimStart line
  startsWith ['/', '/'] t || startsWith ['*'] t || startsWith ['/', '*'] t

/-- How often a character occurs outside the lines that are comments. -/
def countOutside (c : Char) (ls : List (List Char)) : Nat :=
  (ls.filter fun line => !isQuoteComment line).foldl (fun n line => n + line.count c) 0

/-- The quotes that occur more often, unless both occur equally often. -/
def dominantQuote (ls : List (List Char)) : Option QuoteStyle :=
  let single := countOutside '\'' ls
  let double := countOutside '"' ls
  if double < single then some .single
  else if single < double then some .double
  else none

/-! ## Trailing commas -/

/-- The line counts when commas are looked for; it is trimmed. -/
def isSignificant (line : List Char) : Bool :=
  !line.isEmpty && !startsWith ['/', '/'] line && !startsWith ['*'] line

/-- The significant lines from number `n` on, trimmed and with their numbers. -/
def significantFrom (n : Nat) : List (List Char) → List (Nat × List Char)
  | [] => []
  | line :: rest =>
      let t := trim line
      if isSignificant t then (n, t) :: significantFrom (n + 1) rest
      else significantFrom (n + 1) rest

def isKeyChar (c : Char) : Bool :=
  isAlphanumeric c || c == '_' || c == '-' || c == '$'

/-- The line is a property: a key, a colon and a value. -/
def isProperty (line : List Char) : Bool :=
  match splitOnce ':' line with
  | some (key, value) =>
      let key := trimWhere (fun c => c = '\'' || c = '"') (trim key)
      !key.isEmpty && !(trim value).isEmpty && key.all isKeyChar
  | none => false

/-- The line ends with a mark after which no comma belongs. -/
def isOpenEnded (line : List Char) : Bool :=
  match line.getLast? with
  | some c => [',', '{', '[', '(', ';', ':'].contains c
  | none => false

/-- The line holds the last element of a literal and no comma, when `next` follows. -/
def lacksComma (line next : List Char) : Bool :=
  (startsWith [']'] next || (startsWith ['}'] next && isProperty line)) && !isOpenEnded line

/-- The number of the first line that lacks a comma. -/
def firstLacking : List (Nat × List Char) → Option Nat
  | (n, line) :: (m, next) :: rest =>
      if lacksComma line next then some n else firstLacking ((m, next) :: rest)
  | _ => none

/-- The number of the first line that lacks a comma. -/
def firstMissingComma (ls : List (List Char)) : Option Nat :=
  firstLacking (significantFrom 1 ls)

/-! ## Issues -/

/-- An issue of this family, which the formatter can repair. -/
def found (severity : Severity) (path message : String) : Issue :=
  ({ category := .codeStyle, severity, message := "`" ++ path ++ "` " ++ message,
     target := some path : Issue }).withRemedy (.reformat path)

def tabIssue (path : String) (ls : List (List Char)) : Option Issue :=
  (firstLine isTabbed ls).map fun (n, _) =>
    found .warning path ("is indented with tabs (first at line " ++ toString n ++ ")")

/-- The issue of a wrong indentation. -/
def alignmentIssue (path : String) (rules : StyleRules) (ls : List (List Char)) : Option Issue :=
  (firstMisaligned rules.indentWidth ls).map fun (n, width) =>
    found .warning path ("line " ++ toString n ++ " is indented by " ++ toString width
      ++ " spaces, not a multiple of " ++ toString rules.indentWidth)

def quoteIssue (path ext : String) (rules : StyleRules) (ls : List (List Char)) : Option Issue :=
  if rules.quoteExtensions.contains ext then
    ((dominantQuote ls).filter (· ≠ rules.quoteStyle)).map fun quote =>
      found .info path ("mostly uses " ++ quote.title ++ " quotes; the standard is "
        ++ rules.quoteStyle.title ++ " quotes")
  else none

def commaIssue (path : String) (rules : StyleRules) (ls : List (List Char)) : Option Issue :=
  if rules.requireTrailingComma then
    (firstMissingComma ls).map fun n =>
      found .info path ("line " ++ toString n
        ++ " has a multi-line literal without a trailing comma")
  else none

/-- All issues of a source with a path and an extension. -/
def checkSource (rules : StyleRules) (path ext : String) (source : List Char) : List Issue :=
  let ls := lines source
  (tabIssue path ls).toList ++ (alignmentIssue path rules ls).toList
    ++ (quoteIssue path ext rules ls).toList ++ (commaIssue path rules ls).toList

/-- The extension and the text of a file whose style is checked. -/
def inspect? (rules : StyleRules) (s : Snapshot) (path : String) : Option (String × String) := do
  let ext ← extensionOf? path
  if rules.extensions.contains ext then
    let source ← Assoc.find? path s.sources
    some (ext, source)
  else none

/-- The files whose style is checked, with their extensions and texts. -/
def inspected (rules : StyleRules) (s : Snapshot) : List (String × String × String) :=
  s.files.filterMap fun path => (inspect? rules s path).map ((path, ·))

def check (s : Snapshot) (standards : Standards) : List Issue :=
  (inspected standards.style s).flatMap fun (path, ext, source) =>
    checkSource standards.style path ext source.toList

end Style
end Rules
end ProjectConsistency
