import ProjectConsistency.Json.Parser
import ProjectConsistency.Text.Blank
import ProjectConsistency.Text.Lines
import ProjectConsistency.Text.Split

/-!
# JSON configuration files

Lines that hold nothing but a comment are left out before a configuration file is read as JSON.

- `ConfigFile`: the outcome of reading a file.
- `ConfigFile.isComment`, `ConfigFile.stripComments`: the lines that are left out.
- `ConfigFile.ofText`: the outcome for a text.
-/

namespace ProjectConsistency

inductive ConfigFile where
  | parsed (value : Json)
  | invalid (message : String)
  deriving Repr

namespace ConfigFile

def isComment (line : List Char) : Bool :=
  Text.startsWith ['/', '/'] (Text.trimStart line)

def stripComments (cs : List Char) : List Char :=
  Text.joinLines ((Text.lines cs).filter fun line => !isComment line)

def ofText (text : String) : ConfigFile :=
  match Json.parseChars (stripComments text.toList) with
  | .ok value => parsed value
  | .error e => invalid e.message

end ConfigFile

end ProjectConsistency
