import ProjectConsistency.Toml.Value

/-!
# Layering documents

A document is laid over a preset. Tables are merged key by key, lists are appended, and any other
value of the document replaces that of the preset. A list that begins with the reset marker replaces
the list of the preset; a marker that has nothing to reset is dropped.

- `resetMarker`, `isReset`: the marker.
- `stripMarkers`: a value without its markers.
- `merge`: a value laid over another.
-/

namespace ProjectConsistency
namespace Standards

/-- The first item of a list that replaces the list below it. -/
def resetMarker : String := "$reset"

/-- The value is the reset marker. -/
def isMarker : Toml → Bool
  | .string s => s = resetMarker
  | _ => false

def isReset : List Toml → Bool
  | x :: _ => isMarker x
  | [] => false

mutual

/-- The value without the markers at the start of its lists. -/
def stripMarkers : Toml → Toml
  | .array [] => .array []
  | .array (x :: rest) =>
      if isMarker x then .array (stripItems rest)
      else .array (stripMarkers x :: stripItems rest)
  | .table entries => .table (stripEntries entries)
  | other => other

/-- The items without their markers. -/
def stripItems : List Toml → List Toml
  | [] => []
  | x :: rest => stripMarkers x :: stripItems rest

/-- The entries without their markers. -/
def stripEntries : List (String × Toml) → List (String × Toml)
  | [] => []
  | (key, x) :: rest => (key, stripMarkers x) :: stripEntries rest

end

/-- A list of the document over a list of the preset. -/
def mergeItems (base overlay : List Toml) : List Toml :=
  if isReset overlay then overlay.drop 1 else base ++ overlay

mutual

/-- A value of the document over a value of the preset. -/
def merge (base : Toml) : Toml → Toml
  | .table overlay =>
      match base with
      | .table entries => .table (mergeEntries entries overlay)
      | _ => .table (stripEntries overlay)
  | .array overlay =>
      match base with
      | .array items => .array (mergeItems items overlay)
      | _ => stripMarkers (.array overlay)
  | other => other

/-- The entries of a table of the document over those of a table of the preset. -/
def mergeEntries (base : List (String × Toml)) : List (String × Toml) → List (String × Toml)
  | [] => base
  | (key, x) :: rest =>
      let merged := match Assoc.find? key base with
        | some b => merge b x
        | none => stripMarkers x
      mergeEntries (Assoc.insert key merged base) rest

end

end Standards
end ProjectConsistency
