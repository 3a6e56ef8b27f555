import ProjectConsistency.FileSystem.RawName
import ProjectConsistency.Glob.Match
import ProjectConsistency.Glob.Parser

/-!
# Excluding entries by name

A list of patterns excludes the entries whose name one of them matches. A pattern that ends in a
slash counts for directories only.

- `NameFilter.ofPatterns`: the filter, or the first pattern that cannot be read.
- `NameFilter.isExcluded`: a name is excluded, as a file or as a directory.
-/

namespace ProjectConsistency

open Glob

/-- Which names are excluded: patterns for all entries and patterns for directories only. -/
structure NameFilter where
  entries : List Pattern
  directories : List Pattern
  deriving Repr

namespace NameFilter

def empty : NameFilter :=
  ⟨[], []⟩

/-- The filter with one more pattern, if the pattern can be read. -/
def add? (filter : NameFilter) (pattern : String) : Option NameFilter :=
  match pattern.toList.reverse with
  | '/' :: back =>
      (parse? back.reverse).map fun p =>
        { filter with directories := filter.directories ++ [p] }
  | _ => (parse? pattern.toList).map fun p => { filter with entries := filter.entries ++ [p] }

/-- Adds patterns to a filter; fails with the first that cannot be read. -/
def addAll (filter : NameFilter) : List String → Except String NameFilter
  | [] => .ok filter
  | pattern :: rest =>
      match filter.add? pattern with
      | some filter' => filter'.addAll rest
      | none => .error pattern

/-- The filter of a list of patterns; fails with the first that cannot be read. -/
def ofPatterns (patterns : List String) : Except String NameFilter :=
  empty.addAll patterns

/-- An entry of this name is left out. -/
def isExcluded (filter : NameFilter) (name : String) (isDirectory : Bool) : Bool :=
  let bytes := RawName.bytes name
  filter.entries.any (·.isMatch bytes) ||
    (isDirectory && filter.directories.any (·.isMatch bytes))

end NameFilter

end ProjectConsistency
