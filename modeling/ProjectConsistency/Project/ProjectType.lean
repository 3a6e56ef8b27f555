import ProjectConsistency.Assoc

/-!
# Project types

- `Dependencies`: the declared dependencies, for production and for development.
- `ProjectType`: what kind of project it is.
- `Signals`: what is known about the root, and `Signals.projectType`: the first rule that applies.
-/

namespace ProjectConsistency

/-- Declared dependencies with their versions, in ascending order of their names. -/
structure Dependencies where
  production : List (String × String) := []
  development : List (String × String) := []
  deriving DecidableEq, Repr

namespace Dependencies

def contains (deps : Dependencies) (name : String) : Bool :=
  (Assoc.find? name deps.production).isSome || (Assoc.find? name deps.development).isSome

def isEmpty (deps : Dependencies) : Bool :=
  deps.production.isEmpty && deps.development.isEmpty

/-- All entries of the second list set in the first. -/
def mergeEntries (old new : List (String × String)) : List (String × String) :=
  new.foldl (fun found (name, version) => Assoc.insert name version found) old

def merge (a b : Dependencies) : Dependencies where
  production := mergeEntries a.production b.production
  development := mergeEntries a.development b.development

end Dependencies

inductive ProjectType where
  | web
  | api
  | mobile
  | desktop
  | library
  | aiMl
  | game
  | blockchain
  | unknown
  deriving DecidableEq, Repr

namespace ProjectType

def all : List ProjectType :=
  [web, api, mobile, desktop, library, aiMl, game, blockchain, unknown]

def title : ProjectType → String
  | web => "web"
  | api => "api"
  | mobile => "mobile"
  | desktop => "desktop"
  | library => "library"
  | aiMl => "ai-ml"
  | game => "game"
  | blockchain => "blockchain"
  | unknown => "unknown"

def ofTitle? (name : String) : Option ProjectType :=
  all.find? fun t => t.title = name

/-- Dependencies that tell the kind of a project, in the order in which the kinds are tried. -/
def frameworks : List (ProjectType × List String) := [
  (mobile, ["react-native", "expo", "@ionic/react", "@ionic/angular", "@capacitor/core",
    "nativescript"]),
  (desktop, ["electron", "@tauri-apps/api", "tauri", "nw"]),
  (api, ["express", "fastify", "koa", "@nestjs/core", "@hapi/hapi", "restify", "axum",
    "actix-web", "rocket"]),
  (web, ["react", "vue", "@angular/core", "next", "nuxt", "svelte", "solid-js", "yew",
    "leptos"])]

end ProjectType

/-- What is known about the root of a project. -/
structure Signals where
  dependencies : Option Dependencies
  hasManifest : Bool
  hasRequirements : Bool
  hasAssets : Bool
  hasContracts : Bool

namespace Signals

def declaresAny (s : Signals) (names : List String) : Bool :=
  s.dependencies.any fun deps => names.any deps.contains

/-- The first kind of project whose framework is declared, or else whose other sign is there. -/
def projectType (s : Signals) : ProjectType :=
  match ProjectType.frameworks.find? fun (_, names) => s.declaresAny names with
  | some (type, _) => type
  | none =>
      if s.hasRequirements then .aiMl
      else if s.hasAssets then .game
      else if s.hasContracts then .blockchain
      else if s.hasManifest then .library
      else .unknown

end Signals

end ProjectConsistency
