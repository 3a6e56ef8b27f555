/-!
# Selecting fixes

- `FixSelection`: which kinds of fixes are made.
-/

namespace ProjectConsistency

structure FixSelection where
  rename : Bool := false
  scaffold : Bool := false
  format : Bool := false
  deriving DecidableEq, Repr

namespace FixSelection

def any (s : FixSelection) : Bool :=
  s.rename || s.scaffold || s.format

end FixSelection

end ProjectConsistency
