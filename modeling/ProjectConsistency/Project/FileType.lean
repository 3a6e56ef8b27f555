import ProjectConsistency.Text.Split

/-!
# File types

- `FileType`: a coarse type of a file. Types come in the order of the table.
- `FileType.ofExtension`: the type of an extension; `FileType.ofPath` that of a path.
- `extensionOf?`: the extension of the last segment of a path, in ASCII lower case. A name that
  begins with its only dot has none.
-/

namespace ProjectConsistency

inductive FileType where
  | typescript
  | javascript
  | vue
  | svelte
  | python
  | rust
  | go
  | java
  | kotlin
  | swift
  | c
  | cpp
  | csharp
  | ruby
  | php
  | solidity
  | shell
  | html
  | css
  | markdown
  | json
  | yaml
  | toml
  | xml
  | sql
  | image
  | text
  | unknown
  deriving DecidableEq, Repr

namespace FileType

/-- All types in order, each with its name and its extensions. -/
def table : List (FileType × String × List String) := [
  (typescript, "typescript", ["ts", "tsx", "mts", "cts"]),
  (javascript, "javascript", ["js", "jsx", "mjs", "cjs"]),
  (vue, "vue", ["vue"]),
  (svelte, "svelte", ["svelte"]),
  (python, "python", ["py", "pyi", "ipynb"]),
  (rust, "rust", ["rs"]),
  (go, "go", ["go"]),
  (java, "java", ["java"]),
  (kotlin, "kotlin", ["kt", "kts"]),
  (swift, "swift", ["swift"]),
  (c, "c", ["c", "h"]),
  (cpp, "cpp", ["cpp", "cc", "cxx", "hpp"]),
  (csharp, "csharp", ["cs"]),
  (ruby, "ruby", ["rb"]),
  (php, "php", ["php"]),
  (solidity, "solidity", ["sol"]),
  (shell, "shell", ["sh", "bash", "ps1"]),
  (html, "html", ["html", "htm"]),
  (css, "css", ["css", "scss", "sass", "less"]),
  (markdown, "markdown", ["md", "markdown", "mdx"]),
  (json, "json", ["json"]),
  (yaml, "yaml", ["yml", "yaml"]),
  (toml, "toml", ["toml"]),
  (xml, "xml", ["xml"]),
  (sql, "sql", ["sql"]),
  (image, "image", ["png", "jpg", "jpeg", "gif", "svg", "webp", "ico"]),
  (text, "text", ["txt"]),
  (unknown, "unknown", [])]

def all : List FileType :=
  table.map fun (type, _, _) => type

instance : LT FileType := ⟨fun a b => all.idxOf a < all.idxOf b⟩

instance : DecidableLT FileType := fun a b => inferInstanceAs (Decidable (all.idxOf a < all.idxOf b))

def title (type : FileType) : String :=
  (table.find? fun (t, _, _) => t = type).elim "unknown" fun (_, name, _) => name

/-- The type of an extension in lower case and without its dot. -/
def ofExtension (ext : String) : FileType :=
  (table.find? fun (_, _, exts) => ext ∈ exts).elim unknown fun (type, _, _) => type

end FileType

def lastSegment (path : List Char) : List Char :=
  match Text.splitLast '/' path with
  | some (_, name) => name
  | none => path

def extensionOf? (path : String) : Option String :=
  match Text.splitLast '.' (lastSegment path.toList) with
  | some (stem, ext) =>
      if stem.isEmpty || ext.isEmpty then none else some (String.ofList (Text.lowerAscii ext))
  | none => none

def FileType.ofPath (path : String) : FileType :=
  (extensionOf? path).elim unknown ofExtension

end ProjectConsistency
