import SchemaDdl.Check.Issue
import SchemaDdl.Model

/-!
# Structure of a model

The rules for single parts of a model: ids and names are there and do not repeat, schemas exist,
enum types have values, and primary keys are unique and not null.
-/

namespace SchemaDdl.Check

def schemaDefects (earlier : List Schema) (s : Schema) : List Defect :=
  given (s.id == "") .emptyId ++
    if isBlank s.name then [.blankName]
    else given (earlier.any fun e => e.name == s.name) .duplicateSchemaName

def hasSchema (m : Model) (id : String) : Bool :=
  m.schemas.any fun s => s.id == id

def typeDefects (m : Model) (t : EnumType) : List Defect :=
  given (isBlank t.name) .blankName ++ given (!hasSchema m t.schemaId) .unknownSchema ++
    given t.values.isEmpty .noValues

def tableDefects (m : Model) (earlier : List Table) (t : Table) : List Defect :=
  (if t.id == "" then [.emptyId]
      else given (earlier.any fun e => e.id == t.id) .duplicateTableId) ++
    (if isBlank t.name then [.blankName]
      else given (earlier.any fun e => e.schemaId == t.schemaId && e.name == t.name)
        .duplicateTableName) ++
    given (!hasSchema m t.schemaId) .unknownSchema

def columnDefects (earlier : List Column) (c : Column) : List Defect :=
  (if c.id == "" then [.emptyId]
      else given (earlier.any fun e => e.id == c.id) .duplicateColumnId) ++
    given (isBlank c.name) .blankName ++ given (isBlank c.type) .blankType ++
    given (c.isPrimaryKey && (!c.isUnique || c.nullable)) .weakPrimaryKey

def sanitizedName (fk : ForeignKey) : String :=
  Naming.sanitize fk.name (ForeignKey.fallbackName fk.id)

def foreignKeyDefects (earlier : List ForeignKey) (fk : ForeignKey) : List Defect :=
  given (fk.id == "") .emptyId ++
    given (earlier.any fun e => sanitizedName e == sanitizedName fk)
      (.nameCollision (sanitizedName fk))

def defectsAt (path : Path) (ds : List Defect) : List Issue :=
  ds.map (Issue.defect path)

def schemaIssues (earlier : List Schema) (s : Schema) : List Issue :=
  defectsAt [⟨.schema, some s.name, earlier.length⟩] (schemaDefects earlier s)

def typeIssues (m : Model) (earlier : List EnumType) (t : EnumType) : List Issue :=
  defectsAt [⟨.type, some t.name, earlier.length⟩] (typeDefects m t)

def columnIssues (table : Part) (earlier : List Column) (c : Column) : List Issue :=
  defectsAt [table, ⟨.column, some c.name, earlier.length⟩] (columnDefects earlier c)

def foreignKeyIssues (table : Part) (earlier : List ForeignKey) (fk : ForeignKey) : List Issue :=
  defectsAt [table, ⟨.foreignKey, some fk.name, earlier.length⟩] (foreignKeyDefects earlier fk)

def tableIssues (m : Model) (earlier : List Table) (t : Table) : List Issue :=
  let part : Part := ⟨.table, some t.name, earlier.length⟩
  defectsAt [part] (tableDefects m earlier t) ++
    flatMapEarlier (columnIssues part) [] t.columns ++
    flatMapEarlier (foreignKeyIssues part) [] t.foreignKeys

def structureIssues (m : Model) : List Issue :=
  defectsAt [] (given (m.version != Model.currentVersion)
      (.unsupportedVersion m.version Model.currentVersion)) ++
    flatMapEarlier schemaIssues [] m.schemas ++ flatMapEarlier (typeIssues m) [] m.types ++
    flatMapEarlier (tableIssues m) [] m.tables

end SchemaDdl.Check
