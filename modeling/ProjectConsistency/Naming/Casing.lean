/-!
# Case conventions

- `Casing`: the five conventions a name can be held to.
- `Casing.title`: the spelling of a convention in messages.
-/

namespace ProjectConsistency

inductive Casing where
  | kebab
  | camel
  | pascal
  | snake
  | screamingSnake
  deriving DecidableEq, Repr

namespace Casing

def all : List Casing :=
  [kebab, camel, pascal, snake, screamingSnake]

/-- How messages spell the convention: each name follows the convention it names. -/
def title : Casing → String
  | kebab => "kebab-case"
  | camel => "camelCase"
  | pascal => "PascalCase"
  | snake => "snake_case"
  | screamingSnake => "SCREAMING_SNAKE_CASE"

end Casing

end ProjectConsistency
