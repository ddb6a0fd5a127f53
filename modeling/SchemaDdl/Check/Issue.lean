import SchemaDdl.Text.Blank
import SchemaDdl.QualifiedName

/-!
# Issues

What a check finds wrong with a model. A defect is tied to one part of the model, which its path
names. The other issues are about keys and foreign keys.
-/

namespace SchemaDdl.Check

inductive PartKind where
  | schema
  | type
  | table
  | column
  | foreignKey
  deriving DecidableEq, Repr

def PartKind.word : PartKind → String
  | .schema => "schema"
  | .type => "type"
  | .table => "table"
  | .column => "column"
  | .foreignKey => "foreign key"

/-- A part of a model, by its name and its place among its like. -/
structure Part where
  kind : PartKind
  name : Option String
  index : Nat
  deriving DecidableEq, Repr

def isBlank (s : String) : Bool :=
  Text.trimmed s == ""

/-- A part goes by its name, or by its number if the name is blank or unknown. -/
def Part.label (p : Part) : String :=
  match (p.name.map Text.trimmed).filter (· != "") with
  | some name => s!"{p.kind.word} \"{name}\""
  | none => s!"{p.kind.word} #{p.index + 1}"

/-- The way from the model down to a part. -/
abbrev Path := List Part

def pathText (path : Path) : String :=
  if path.isEmpty then "model" else " / ".intercalate (path.map Part.label)

/-- A rule that a part of a model breaks. -/
inductive Defect where
  | unsupportedVersion (version expected : UInt32)
  | emptyId
  | blankName
  | blankType
  | duplicateSchemaName
  | duplicateTableId
  | duplicateTableName
  | duplicateColumnId
  | unknownSchema
  | noValues
  | weakPrimaryKey
  | nameCollision (sanitized : String)
  deriving DecidableEq, Repr

def Defect.message : Defect → String
  | .unsupportedVersion version expected =>
    s!"unsupported version {version} (expected {expected})"
  | .emptyId => "id must not be empty"
  | .blankName => "name must not be empty"
  | .blankType => "type must not be empty"
  | .duplicateSchemaName => "duplicate schema name"
  | .duplicateTableId => "duplicate table id"
  | .duplicateTableName => "duplicate table name in its schema"
  | .duplicateColumnId => "duplicate column id"
  | .unknownSchema => "schemaId does not reference a schema"
  | .noValues => "enum needs at least one value"
  | .weakPrimaryKey => "primary key column must be unique and not null"
  | .nameCollision sanitized => s!"name collides with another constraint as \"{sanitized}\""

/-- A rule that a part of an untyped document breaks. -/
inductive ShapeDefect where
  | notAnObject
  | missingField (key : String)
  | notAString (key : String)
  | notABoolean (key : String)
  | notAnArray (key : String)
  | notAnAction (key written : String)
  | notAVersion
  | notAnEnum
  | valueNotAString (index : Nat)
  | notAPosition
  deriving DecidableEq, Repr

def ShapeDefect.message : ShapeDefect → String
  | .notAnObject => "expected an object"
  | .missingField key => s!"missing field {key}"
  | .notAString key => s!"{key} must be a string"
  | .notABoolean key => s!"{key} must be a boolean"
  | .notAnArray key => s!"{key} must be an array"
  | .notAnAction key written => s!"{key} is not a referential action: {written}"
  | .notAVersion => "version must be a non-negative integer"
  | .notAnEnum => "kind must be \"enum\""
  | .valueNotAString index => s!"value #{index + 1} must be a string"
  | .notAPosition => "position must have numeric x and y"

inductive Issue where
  | defect (path : Path) (defect : Defect)
  | shape (path : Path) (defect : ShapeDefect)
  | versionTooLarge (version : Int)
  | noColumns (table : String)
  | noPrimaryKey (table : String)
  | missingSource (constraint table : String)
  | missingTable (constraint id : String)
  | missingTarget (constraint table : String)
  | typeMismatch (constraint source sourceType target targetType : String)
  deriving DecidableEq, Repr

namespace Issue

/-- All issues are errors, except those that leave the rest of a model usable. -/
def isError : Issue → Bool
  | .noColumns _ | .noPrimaryKey _ | .missingSource _ _ => false
  | _ => true

def level (i : Issue) : String :=
  if i.isError then "error" else "warning"

def message : Issue → String
  | .defect path d => s!"{pathText path}: {d.message}"
  | .shape path d => s!"{pathText path}: {d.message}"
  | .versionTooLarge version => s!"model: invalid value: integer `{version}`, expected u32"
  | .noColumns table => s!"table \"{table}\" has no columns"
  | .noPrimaryKey table => s!"table \"{table}\" has no primary key"
  | .missingSource constraint table =>
    s!"constraint \"{constraint}\" references a missing column in \"{table}\""
  | .missingTable constraint id =>
    s!"constraint \"{constraint}\" references a missing table (id: {id})"
  | .missingTarget constraint table =>
    s!"constraint \"{constraint}\" references a missing column in \"{table}\""
  | .typeMismatch constraint source sourceType target targetType =>
    s!"constraint \"{constraint}\": type of {source} ({sourceType}) differs from " ++
      s!"{target} ({targetType})"

def text (i : Issue) : String :=
  i.level ++ ": " ++ i.message

end Issue

def hasErrors (issues : List Issue) : Bool :=
  issues.any Issue.isError

/-- Issues of each item of a list, which may depend on the items before it. -/
def flatMapEarlier {α β : Type} (f : List α → α → List β) (earlier : List α) : List α → List β
  | [] => []
  | a :: rest => f earlier a ++ flatMapEarlier f (earlier ++ [a]) rest

/-- A list with the one element `a` if `b` holds. -/
def given {α : Type} (b : Bool) (a : α) : List α :=
  if b then [a] else []

theorem mem_given {α : Type} {b : Bool} {a x : α} : x ∈ given b a ↔ b = true ∧ x = a := by
  cases b <;> simp [given]

end SchemaDdl.Check
