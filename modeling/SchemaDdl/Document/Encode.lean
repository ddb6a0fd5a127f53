import SchemaDdl.Json.Print
import SchemaDdl.Model

/-!
# The JSON form of a model

Fields stand in a fixed order, and a field that is not set is left out.
-/

namespace SchemaDdl

namespace Json

/-- A member that is left out when there is no value. -/
def optional {α : Type} (key : String) (encode : α → Json) (value : Option α) :
    List (String × Json) :=
  value.toList.map fun a => (key, encode a)

end Json

def Schema.toJson (s : Schema) : Json :=
  .object [("id", .string s.id), ("name", .string s.name)]

def Column.toJson (c : Column) : Json :=
  .object <|
    [("id", .string c.id), ("name", .string c.name), ("type", .string c.type),
      ("nullable", .bool c.nullable)] ++
    Json.optional "defaultValue" .string c.defaultValue ++
    [("isPrimaryKey", .bool c.isPrimaryKey), ("isUnique", .bool c.isUnique)] ++
    Json.optional "comment" .string c.comment

def Action.toJson (a : Action) : Json :=
  .string a.spelling

def Cardinality.toJson (c : Cardinality) : Json :=
  .string c.label

def ForeignKey.toJson (fk : ForeignKey) : Json :=
  .object <|
    [("id", .string fk.id), ("name", .string fk.name), ("fromColumnId", .string fk.fromColumnId),
      ("toTableId", .string fk.toTableId), ("toColumnId", .string fk.toColumnId)] ++
    Json.optional "onDelete" Action.toJson fk.onDelete ++
    Json.optional "onUpdate" Action.toJson fk.onUpdate ++
    Json.optional "startCardinality" Cardinality.toJson fk.startCardinality ++
    Json.optional "endCardinality" Cardinality.toJson fk.endCardinality

def Position.toJson (p : Position) : Json :=
  .object [("x", .number (.float p.x)), ("y", .number (.float p.y))]

def Table.toJson (t : Table) : Json :=
  .object <|
    [("id", .string t.id), ("schemaId", .string t.schemaId), ("name", .string t.name)] ++
    Json.optional "comment" .string t.comment ++
    [("columns", .array (t.columns.map Column.toJson)),
      ("foreignKeys", .array (t.foreignKeys.map ForeignKey.toJson))] ++
    Json.optional "position" Position.toJson t.position

def EnumType.toJson (t : EnumType) : Json :=
  .object
    [("id", .string t.id), ("schemaId", .string t.schemaId), ("name", .string t.name),
      ("kind", .string "enum"), ("values", .array (t.values.map .string))]

def Model.toJson (m : Model) : Json :=
  .object
    [("version", .number (.int m.version.toNat)), ("schemas", .array (m.schemas.map Schema.toJson)),
      ("tables", .array (m.tables.map Table.toJson)),
      ("types", .array (m.types.map EnumType.toJson))]

end SchemaDdl
