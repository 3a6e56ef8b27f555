import ProjectConsistency.Toml.Parser

/-!
# Reading TOML documents

A document is a sequence of lines: blank lines, dotted keys with their values, headers of tables and
headers of lists of tables. A table may be named by one header only, and neither a dotted key nor a
header may reach into a finished value.

- `Draft.descend`: changes the table that a header's chain of keys leads to.
- `Draft.openTable`, `Draft.openItem`: what the two kinds of headers do.
- `Draft.inTable`: changes the table that the last header opened.
- `document`: the table of a whole text, or the line of the statement that cannot be read.
-/

namespace ProjectConsistency
namespace Toml

namespace Draft

/-- Changes the table that the keys of a header lead to; missing tables on the way are made. -/
def descend (change : Entries → Option Entries) : List String → Entries → Option Entries
  | [], entries => change entries
  | key :: keys, entries =>
      match Assoc.find? key entries with
      | none => do
          let inner ← descend change keys []
          some (Assoc.insert key (table .passed inner) entries)
      | some (table origin inner) => do
          let inner' ← descend change keys inner
          some (Assoc.insert key (table origin inner') entries)
      | some (tables earlier inner) => do
          let inner' ← descend change keys inner
          some (Assoc.insert key (tables earlier inner') entries)
      | some (finished _) => none

/-- Opens the table of a key: a new one, or one that headers only passed through. -/
def openTable (key : String) (entries : Entries) : Option Entries :=
  match Assoc.find? key entries with
  | none => some (Assoc.insert key (table .header []) entries)
  | some (table .passed inner) => some (Assoc.insert key (table .header inner) entries)
  | _ => none

/-- Opens one more table in the list of a key. -/
def openItem (key : String) (entries : Entries) : Option Entries :=
  match Assoc.find? key entries with
  | none => some (Assoc.insert key (tables [] []) entries)
  | some (tables earlier inner) =>
      some (Assoc.insert key (tables (earlier ++ [.table (closeEntries inner)]) []) entries)
  | _ => none

def inTable (change : Entries → Option Entries) (header : List String) (root : Entries) :
    Option Entries :=
  descend change header root

/-- Does what a header says: opens a table, or an item of a list of tables. -/
def openHeader (isItem : Bool) (header : List String) (root : Entries) : Option Entries :=
  match header.getLast? with
  | none => none
  | some key => descend (if isItem then openItem key else openTable key) header.dropLast root

end Draft

/-- The levels of lists and inline tables a value may have. -/
def levelLimit : Nat := 80

/-- Reads a header: whether it opens an item of a list, its keys, and the rest of the text. -/
def header? : List Char → Reading (Bool × List String)
  | '[' :: '[' :: rest =>
      match path? rest with
      | some (keys, ']' :: ']' :: rest') => some ((true, keys), rest')
      | _ => none
  | '[' :: rest =>
      match path? rest with
      | some (keys, ']' :: rest') => some ((false, keys), rest')
      | _ => none
  | _ => none

/-- Reads a header and the end of its line: its keys, the tables, and the rest of the text. -/
def headerLine (root : Draft.Entries) (cs : List Char) :
    Option (List String × Draft.Entries × List Char) := do
  let ((isItem, keys), rest) ← header? cs
  let root' ← Draft.openHeader isItem keys root
  let rest' ← lineEnd rest
  some (keys, root', rest')

/-- Reads a key with its value and the end of its line into the table of the last header. -/
def keyLine (header : List String) (root : Draft.Entries) (cs : List Char) :
    Option (Draft.Entries × List Char) := do
  let ((path, x), rest) ← assignment? (value? cs.length levelLimit) cs
  let root' ← Draft.inTable (Draft.assign false .header x path) header root
  let rest' ← lineEnd rest
  some (root', rest')

/--
Reads statements into the table that the last header opened, in at most `fuel` steps. The error is
the text from the statement on that cannot be read.
-/
def linesFrom (header : List String) (root : Draft.Entries) :
    Nat → List Char → Except (List Char) Draft.Entries
  | 0, cs => .error cs
  | fuel + 1, cs =>
      match skipTrivia cs with
      | none => .error cs
      | some [] => .ok root
      | some ('[' :: rest) =>
          match headerLine root ('[' :: rest) with
          | some (keys, root', rest') => linesFrom keys root' fuel rest'
          | none => .error ('[' :: rest)
      | some rest =>
          match keyLine header root rest with
          | some (root', rest') => linesFrom header root' fuel rest'
          | none => .error rest

/-- The text without a byte order mark at its start. -/
def dropMark : List Char → List Char
  | c :: rest => if c.toNat = 0xFEFF then rest else c :: rest
  | [] => []

/-- The number of the line on which the rest of a text begins. -/
def lineOfRest (cs rest : List Char) : Nat :=
  (cs.take (cs.length - rest.length)).count '\n' + 1

/-- The table of a TOML document, or the line of the statement that cannot be read. -/
def document (text : String) : Except Nat (List (String × Toml)) :=
  let cs := dropMark text.toList
  match linesFrom [] [] (cs.length + 1) cs with
  | .ok root => .ok (Draft.closeEntries root)
  | .error rest => .error (lineOfRest cs rest)

end Toml
end ProjectConsistency
