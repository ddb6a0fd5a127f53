import SchemaDdl.Document.Decode
import SchemaDdl.Document.Encode
import SchemaDdl.Json.Parse

/-!
# Model documents

A document is the pretty-printed JSON form of a model. Loading refuses any version but the current
one and normalizes the foreign-key names.
-/

namespace SchemaDdl

inductive DocumentError where
  | invalid
  | unsupportedVersion (version : UInt32)
  deriving DecidableEq, Repr

def DocumentError.message : DocumentError → String
  | .invalid => "invalid model document"
  | .unsupportedVersion version => s!"unsupported model version {version}"

namespace Model

/-- The model that a text encodes, as it stands. -/
def decode? (text : String) : Option Model := do
  Model.ofJson? (← Json.parse? text)

def toDocument (m : Model) : String :=
  m.toJson.pretty

def ofDocument (text : String) : Except DocumentError Model :=
  match decode? text with
  | none => .error .invalid
  | some m =>
    if m.version == currentVersion then .ok m.normalized
    else .error (.unsupportedVersion m.version)

/-- The text of a document file ends in a line break. -/
def toFile (m : Model) : String :=
  m.toDocument ++ "\n"

end Model

end SchemaDdl
