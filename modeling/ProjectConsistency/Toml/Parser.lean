import ProjectConsistency.Toml.Scalar

/-!
# Reading TOML values

- `key?`, `path?`: a key, and a dotted chain of keys.
- `Draft`: a table while its document is read. It tells tables that a header named from tables that
  headers or dotted keys passed through, and finished values from tables that may still grow.
- `Draft.assign`: sets a dotted key, as a line or a member of an inline table does.
- `value?`: a value, with at most a given number of levels of lists and inline tables.
-/

namespace ProjectConsistency
namespace Toml

/-! ## Keys -/

def isBareKeyChar (c : Char) : Bool :=
  c.isAlphanum || c == '_' || c == '-'

def key? (cs : List Char) : Reading String :=
  match quoted? false cs with
  | some (key, rest) => some (String.ofList key, rest)
  | none =>
      match cs.takeWhile isBareKeyChar with
      | [] => none
      | key => some (String.ofList key, cs.dropWhile isBareKeyChar)

/-- Reads keys with points between them, in at most `fuel` steps. -/
def pathFrom (fuel : Nat) (cs : List Char) : Reading (List String) :=
  match fuel with
  | 0 => none
  | fuel + 1 =>
      match key? (skipBlanks cs) with
      | none => none
      | some (key, rest) =>
          match skipBlanks rest with
          | '.' :: rest' => (pathFrom fuel rest').map fun (keys, rest'') => (key :: keys, rest'')
          | rest' => some ([key], rest')

/-- Reads keys with points between them, and the blanks around them. -/
def path? (cs : List Char) : Reading (List String) :=
  pathFrom cs.length cs

/-! ## Tables while they are read -/

/-- What named a table. -/
inductive Origin where
  /-- A header. -/
  | header
  /-- A header passed through it on the way to another table. -/
  | passed
  /-- A dotted key. -/
  | dotted
  deriving DecidableEq, Repr

/-- An entry of a table while its document is read. -/
inductive Draft where
  /-- A value that cannot grow. -/
  | finished (value : Toml)
  /-- A table. -/
  | table (origin : Origin) (entries : List (String × Draft))
  /-- A list of tables, the last of which is open. -/
  | tables (earlier : List Toml) (entries : List (String × Draft))

namespace Draft

mutual

def close : Draft → Toml
  | finished value => value
  | table _ entries => .table (closeEntries entries)
  | tables earlier entries => .array (earlier ++ [.table (closeEntries entries)])

def closeEntries : List (String × Draft) → List (String × Toml)
  | [] => []
  | (key, entry) :: rest => (key, close entry) :: closeEntries rest

end

/-- The entries of an open table. -/
abbrev Entries := List (String × Draft)

/--
Sets a dotted key in a table. The tables on the way are new or were named by dotted keys; the last
table is the given one or a table that a dotted key named. `dotted` tells whether a key of the chain
was passed, and `origin` what named the table at hand.
-/
def assign (dotted : Bool) (origin : Origin) (value : Toml) : List String → Entries → Option Entries
  | [], _ => none
  | [key], entries =>
      if dotted == (origin == .dotted) && (Assoc.find? key entries).isNone then
        some (Assoc.insert key (finished value) entries)
      else none
  | key :: keys, entries =>
      match Assoc.find? key entries with
      | none => do
          let inner ← assign true .dotted value keys []
          some (Assoc.insert key (table .dotted inner) entries)
      | some (table origin' inner) =>
          if origin' = .header then none
          else do
            let inner' ← assign true origin' value keys inner
            some (Assoc.insert key (table origin' inner') entries)
      | some (tables earlier inner) => do
          let inner' ← assign true .header value keys inner
          some (Assoc.insert key (tables earlier inner') entries)
      | some (finished _) => none

end Draft

/-! ## Values -/

/-- Reads the items of a list after its opening bracket, each with `item`. -/
def itemsFrom (item : List Char → Reading Toml) (back : List Toml) :
    Nat → List Char → Option (Toml × List Char)
  | 0, _ => none
  | fuel + 1, cs => do
      let rest ← skipTrivia cs
      match rest with
      | ']' :: rest' => some (.array back.reverse, rest')
      | _ =>
          let (x, rest') ← item rest
          let rest'' ← skipTrivia rest'
          match rest'' with
          | ',' :: more => itemsFrom item (x :: back) fuel more
          | ']' :: more => some (.array (x :: back).reverse, more)
          | _ => none

/-- Reads a chain of keys, an equals sign and a value. -/
def assignment? (item : List Char → Reading Toml) (cs : List Char) :
    Option ((List String × Toml) × List Char) := do
  let (path, rest) ← path? cs
  match rest with
  | '=' :: rest' =>
      let (x, rest'') ← item (skipBlanks rest')
      some ((path, x), rest'')
  | _ => none

/-- Reads the members of an inline table after its opening brace, each value with `item`. -/
def membersFrom (item : List Char → Reading Toml) (entries : Draft.Entries) :
    Nat → List Char → Option (Toml × List Char)
  | 0, _ => none
  | fuel + 1, cs => do
      let rest ← skipTrivia cs
      match rest with
      | '}' :: rest' => some (.table (Draft.closeEntries entries), rest')
      | _ =>
          let ((path, x), rest') ← assignment? item rest
          let entries' ← Draft.assign false .header x path entries
          let rest'' ← skipTrivia rest'
          match rest'' with
          | ',' :: more => membersFrom item entries' fuel more
          | '}' :: more => some (.table (Draft.closeEntries entries'), more)
          | _ => none

/-- Reads a value with at most `levels` levels of lists and inline tables. -/
def value? (fuel levels : Nat) (cs : List Char) : Reading Toml :=
  match cs with
  | '[' :: rest =>
      match levels with
      | 0 => none
      | levels + 1 => itemsFrom (value? fuel levels) [] fuel rest
  | '{' :: rest =>
      match levels with
      | 0 => none
      | levels + 1 => membersFrom (value? fuel levels) [] fuel rest
  | '"' :: _ => (quoted? true cs).map fun (s, rest) => (.string (String.ofList s), rest)
  | '\'' :: _ => (quoted? true cs).map fun (s, rest) => (.string (String.ofList s), rest)
  | _ => bare? cs

end Toml
end ProjectConsistency
