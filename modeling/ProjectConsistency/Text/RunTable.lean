/-!
# Tables of code points

A character property is a set of code points. The set is written as an ascending table of runs
`(first, last, step)`, each standing for `first, first + step, …, last`.

- `RunTable.contains`: membership, by one pass that stops at the first run past the code point.
-/

namespace ProjectConsistency
namespace Text

/-- An ascending list of runs `(first, last, step)` of code points. -/
abbrev RunTable := List (Nat × Nat × Nat)

namespace RunTable

/-- The code point belongs to one of the runs. -/
def contains : RunTable → Nat → Bool
  | [], _ => false
  | (first, last, step) :: rest, n =>
      if n < first then false
      else if n ≤ last && (n - first) % step == 0 then true
      else contains rest n

end RunTable

end Text
end ProjectConsistency
