import SchemaDdl.Json.Basic
import SchemaDdl.Model

/-!
# Models from JSON

A record is an object, in which a field of the record may not be repeated and any other field is
skipped, or an array of its fields in order, in which fields at the end may be missing.
-/

namespace SchemaDdl

namespace Json

/-- The fields of a record that are given, by name. -/
abbrev Fields := List (String × Json)

/-- The only member with that key, if there is one. None at all if it is repeated. -/
def soleMember? (members : List (String × Json)) (key : String) : Option Fields :=
  match members.filter fun m => m.1 == key with
  | [] => some []
  | [m] => some [m]
  | _ => none

def fields? (names : List String) : Json → Option Fields
  | .object members => (names.mapM (soleMember? members)).map List.flatten
  | .array items => if items.length ≤ names.length then some (names.zip items) else none
  | _ => none

section

variable {α : Type} (decode : Json → Option α)

def required (fields : Fields) (name : String) : Option α := do
  decode (← fields.lookup name)

/-- A field that may be missing or null. -/
def optionalField (fields : Fields) (name : String) : Option (Option α) :=
  match fields.lookup name with
  | none => some none
  | some .null => some none
  | some j => (decode j).map some

/-- A field that may be missing but not null. -/
def defaulted (fields : Fields) (name : String) (default : α) : Option α :=
  match fields.lookup name with
  | none => some default
  | some j => decode j

def listOf (j : Json) : Option (List α) := do
  (← j.array?).mapM decode

end

def word? : Json → Option UInt32
  | .number (.int i) => if 0 ≤ i && i < 0x100000000 then some (UInt32.ofNat i.toNat) else none
  | _ => none

def float? : Json → Option Float
  | .number n => some n.toFloat
  | _ => none

/-- A constant is written as a string, or as an object with the constant as its only key and a null
value. -/
def constant? : Json → Option String
  | .string s => some s
  | .object [(s, .null)] => some s
  | _ => none

end Json

open Json

def Schema.ofJson? (j : Json) : Option Schema := do
  let fields ← fields? ["id", "name"] j
  return { id := ← required string? fields "id", name := ← required string? fields "name" }

def Column.ofJson? (j : Json) : Option Column := do
  let fields ← fields?
    ["id", "name", "type", "nullable", "defaultValue", "isPrimaryKey", "isUnique", "comment"] j
  return {
    id := ← required string? fields "id"
    name := ← required string? fields "name"
    type := ← required string? fields "type"
    nullable := ← defaulted bool? fields "nullable" true
    defaultValue := ← optionalField string? fields "defaultValue"
    isPrimaryKey := ← defaulted bool? fields "isPrimaryKey" false
    isUnique := ← defaulted bool? fields "isUnique" false
    comment := ← optionalField string? fields "comment" }

def Action.ofJson? (j : Json) : Option Action := do
  Action.ofSpelling? (← constant? j)

def Cardinality.ofJson? (j : Json) : Option Cardinality :=
  (string? j).map Cardinality.ofLabel

def ForeignKey.ofJson? (j : Json) : Option ForeignKey := do
  let fields ← fields?
    ["id", "name", "fromColumnId", "toTableId", "toColumnId", "onDelete", "onUpdate",
      "startCardinality", "endCardinality"] j
  return {
    id := ← required string? fields "id"
    name := ← required string? fields "name"
    fromColumnId := ← required string? fields "fromColumnId"
    toTableId := ← required string? fields "toTableId"
    toColumnId := ← required string? fields "toColumnId"
    onDelete := ← optionalField Action.ofJson? fields "onDelete"
    onUpdate := ← optionalField Action.ofJson? fields "onUpdate"
    startCardinality := ← optionalField Cardinality.ofJson? fields "startCardinality"
    endCardinality := ← optionalField Cardinality.ofJson? fields "endCardinality" }

def Position.ofJson? (j : Json) : Option Position := do
  let fields ← fields? ["x", "y"] j
  return { x := ← required float? fields "x", y := ← required float? fields "y" }

def Table.ofJson? (j : Json) : Option Table := do
  let fields ← fields?
    ["id", "schemaId", "name", "comment", "columns", "foreignKeys", "position"] j
  return {
    id := ← required string? fields "id"
    schemaId := ← required string? fields "schemaId"
    name := ← required string? fields "name"
    comment := ← optionalField string? fields "comment"
    columns := ← defaulted (listOf Column.ofJson?) fields "columns" []
    foreignKeys := ← defaulted (listOf ForeignKey.ofJson?) fields "foreignKeys" []
    position := ← optionalField Position.ofJson? fields "position" }

/-- The only kind of type is the enumeration. -/
def EnumType.kind? (j : Json) : Option Unit := do
  if (← constant? j) == "enum" then some () else none

def EnumType.ofJson? (j : Json) : Option EnumType := do
  let fields ← fields? ["id", "schemaId", "name", "kind", "values"] j
  required EnumType.kind? fields "kind"
  return {
    id := ← required string? fields "id"
    schemaId := ← required string? fields "schemaId"
    name := ← required string? fields "name"
    values := ← required (listOf string?) fields "values" }

def Model.ofJson? (j : Json) : Option Model := do
  let fields ← fields? ["version", "schemas", "tables", "types"] j
  return {
    version := ← required word? fields "version"
    schemas := ← required (listOf Schema.ofJson?) fields "schemas"
    tables := ← defaulted (listOf Table.ofJson?) fields "tables" []
    types := ← defaulted (listOf EnumType.ofJson?) fields "types" [] }

end SchemaDdl
