import SchemaDdl.Check.Reference
import SchemaDdl.Document.Decode
import SchemaDdl.Json.Print

/-!
# Shape of a document

An untyped document is checked field by field, so that everything that keeps it from being a model
is found at once. A document of sound shape is checked as the model that it is.
-/

namespace SchemaDdl.Check

def shapeAt (path : Path) (d : ShapeDefect) : Issue :=
  .shape path d

def stringField (path : Path) (j : Json) (key : String) : List Issue :=
  match j.member? key with
  | some (.string _) => []
  | some _ => [shapeAt path (.notAString key)]
  | none => [shapeAt path (.missingField key)]

def stringFields (path : Path) (j : Json) (keys : List String) : List Issue :=
  keys.flatMap (stringField path j)

def optionalStringField (path : Path) (j : Json) (key : String) : List Issue :=
  match j.member? key with
  | none | some .null | some (.string _) => []
  | some _ => [shapeAt path (.notAString key)]

def optionalBoolField (path : Path) (j : Json) (key : String) : List Issue :=
  match j.member? key with
  | none | some (.bool _) => []
  | some _ => [shapeAt path (.notABoolean key)]

/-- The issues of an array field, and its items if it is one. -/
def arrayField (path : Path) (j : Json) (key : String) (isRequired : Bool) :
    List Issue × List Json :=
  match j.member? key with
  | some (.array items) => ([], items)
  | some _ => ([shapeAt path (.notAnArray key)], [])
  | none => (given isRequired (shapeAt path (.missingField key)), [])

def actionField (path : Path) (j : Json) (key : String) : List Issue :=
  match j.member? key with
  | none | some .null => []
  | some v =>
    if (v.string?.bind Action.ofSpelling?).isSome then []
    else [shapeAt path (.notAnAction key v.compact)]

def isObject : Json → Bool
  | .object _ => true
  | _ => false

def isNumber : Json → Bool
  | .number _ => true
  | _ => false

/-- The issues of an object, given those of its fields. -/
def objectShape (path : Path) (j : Json) (fields : List Issue) : List Issue :=
  if isObject j then fields else [shapeAt path .notAnObject]

def partOf (kind : PartKind) (index : Nat) (j : Json) : Part :=
  ⟨kind, (j.member? "name").bind Json.string?, index⟩

/-- The issues of an array field and of each of its items. -/
def partsShape (path : Path) (j : Json) (key : String) (isRequired : Bool) (kind : PartKind)
    (shape : Path → Json → List Issue) : List Issue :=
  let (issues, items) := arrayField path j key isRequired
  issues ++ items.zipIdx.flatMap fun (item, i) =>
    let itemPath := path ++ [partOf kind i item]
    objectShape itemPath item (shape itemPath item)

def schemaShape (path : Path) (j : Json) : List Issue :=
  stringFields path j ["id", "name"]

def valuesShape (path : Path) (j : Json) : List Issue :=
  let (issues, items) := arrayField path j "values" true
  issues ++ items.zipIdx.flatMap fun (item, i) =>
    given item.string?.isNone (shapeAt path (.valueNotAString i))

def typeShape (path : Path) (j : Json) : List Issue :=
  stringFields path j ["id", "schemaId", "name"] ++
    given ((j.member? "kind").bind Json.string? != some "enum") (shapeAt path .notAnEnum) ++
    valuesShape path j

def columnShape (path : Path) (j : Json) : List Issue :=
  stringFields path j ["id", "name", "type"] ++
    ["nullable", "isPrimaryKey", "isUnique"].flatMap (optionalBoolField path j) ++
    ["defaultValue", "comment"].flatMap (optionalStringField path j)

def foreignKeyShape (path : Path) (j : Json) : List Issue :=
  stringFields path j ["id", "name", "fromColumnId", "toTableId", "toColumnId"] ++
    ["onDelete", "onUpdate"].flatMap (actionField path j) ++
    ["startCardinality", "endCardinality"].flatMap (optionalStringField path j)

def positionShape (path : Path) (j : Json) : List Issue :=
  match j.member? "position" with
  | none | some .null => []
  | some p =>
    given (!((p.member? "x").any isNumber && (p.member? "y").any isNumber))
      (shapeAt path .notAPosition)

def tableShape (path : Path) (j : Json) : List Issue :=
  stringFields path j ["id", "schemaId", "name"] ++ optionalStringField path j "comment" ++
    positionShape path j ++ partsShape path j "columns" false .column columnShape ++
    partsShape path j "foreignKeys" false .foreignKey foreignKeyShape

def isVersion : Json → Bool
  | .number (.int i) => 0 ≤ i
  | _ => false

def versionShape (j : Json) : List Issue :=
  match j.member? "version" with
  | some v => given (!isVersion v) (shapeAt [] .notAVersion)
  | none => [shapeAt [] (.missingField "version")]

/-- Everything about a document that keeps it from being a model. -/
def shapeIssues (j : Json) : List Issue :=
  objectShape [] j <|
    versionShape j ++ partsShape [] j "schemas" true .schema schemaShape ++
      partsShape [] j "types" false .type typeShape ++
      partsShape [] j "tables" false .table tableShape

def writtenVersion (j : Json) : Int :=
  match j.member? "version" with
  | some (.number (.int i)) => i
  | _ => 0

/-- Everything that is wrong with a document. A version that a model cannot hold is all that can
keep a document of sound shape from being one. -/
def validateDocument (j : Json) : List Issue :=
  let issues := shapeIssues j
  if !issues.isEmpty then issues
  else
    match Model.ofJson? j with
    | some m => validate m
    | none => [.versionTooLarge (writtenVersion j)]

end SchemaDdl.Check
