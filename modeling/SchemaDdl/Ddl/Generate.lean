import SchemaDdl.Ddl.Statement
import SchemaDdl.Text.Blank

/-!
# The script of a model

Schemas are sorted by name and tables by name within their schema, so the script does not hang on
the order of either. What has no place in a script is left out: the default schema, a type without
values, a table whose schema is missing, and a foreign key that does not resolve.
-/

namespace SchemaDdl

namespace Model

/-- The table that a reference by id means: the last one with that id. -/
def referencedTable? (m : Model) (id : String) : Option Table :=
  m.tables.reverse.find? fun t => t.id == id

/-- The name of the last schema with that id. -/
def schemaName? (m : Model) (id : String) : Option String :=
  (m.schemas.reverse.find? fun s => s.id == id).map Schema.name

def sortedByName {α : Type} (name : α → String) (xs : List α) : List α :=
  xs.mergeSort fun a b => !decide (name b < name a)

def sortedSchemas (m : Model) : List Schema :=
  sortedByName Schema.name m.schemas

end Model

namespace Ddl

def columnDefinition (c : Column) : Definition :=
  let defaultValue := (c.defaultValue.map Text.trimmed).filter (· != "")
  .column c.name (Text.trimmed c.type) (!c.nullable || c.isPrimaryKey) defaultValue

def keyDefinitions (columns : List Column) : List Definition :=
  let keys := (columns.filter Column.isPrimaryKey).map Column.name
  let uniques := columns.filter fun c => c.isUnique && !c.isPrimaryKey
  (if keys.isEmpty then [] else [.primaryKey keys]) ++ uniques.map fun c => .unique c.name

/-- None when the column at either end is missing. -/
def foreignKeyDefinition? (m : Model) (t : Table) (name : String) (fk : ForeignKey) :
    Option Definition := do
  let source ← t.column? fk.fromColumnId
  let target ← m.referencedTable? fk.toTableId
  let targetColumn ← target.column? fk.toColumnId
  let key : QualifiedName := ⟨(m.schemaName? target.schemaId).getD defaultSchema, target.name⟩
  return .foreignKey name source.name key targetColumn.name fk.onDelete fk.onUpdate

/-- The foreign keys that resolve, under names that are told apart from `used` and each other. -/
def foreignKeyDefinitions (m : Model) (t : Table) (used : List String) :
    List ForeignKey → List Definition
  | [] => []
  | fk :: fks =>
    let fallback := ForeignKey.fallbackName fk.id
    let name := Naming.ensureUnique (Naming.sanitize fk.name fallback) used
    match foreignKeyDefinition? m t name fk with
    | some d => d :: foreignKeyDefinitions m t (name :: used) fks
    | none => foreignKeyDefinitions m t used fks

def tableDefinitions (m : Model) (t : Table) : List Definition :=
  t.columns.map columnDefinition ++ keyDefinitions t.columns ++
    foreignKeyDefinitions m t [] t.foreignKeys

/-- An empty comment counts as none. -/
def commentText (comment : Option String) : Option String :=
  comment.filter (· != "")

def tableBlock (m : Model) (schema : String) (t : Table) : Block :=
  let key : QualifiedName := ⟨schema, t.name⟩
  let tableComment := (commentText t.comment).toList.map (Statement.commentOnTable key)
  let columnComments := t.columns.filterMap fun c =>
    (commentText c.comment).map (Statement.commentOnColumn key c.name)
  .createTable key (tableDefinitions m t) :: (tableComment ++ columnComments)

def schemaBlock? (s : Schema) : Option Block :=
  if s.name == defaultSchema then none else some [.createSchema s.name]

def typeBlock? (schema : String) (t : EnumType) : Option Block :=
  if t.values.isEmpty then none else some [.createType ⟨schema, t.name⟩ t.values]

def typeBlocks (m : Model) (s : Schema) : List Block :=
  (m.types.filter fun t => t.schemaId == s.id).filterMap (typeBlock? s.name)

def tableBlocks (m : Model) (s : Schema) : List Block :=
  let tables := m.tables.filter fun t => t.schemaId == s.id
  (Model.sortedByName Table.name tables).map (tableBlock m s.name)

/-- All schemas first, then all types, then all tables with their comments. -/
def blocks (m : Model) : List Block :=
  let schemas := m.sortedSchemas
  schemas.filterMap schemaBlock? ++ schemas.flatMap (typeBlocks m) ++
    schemas.flatMap (tableBlocks m)

/-- The canonical script of a model. -/
def generate (m : Model) : String :=
  scriptText (blocks m)

end Ddl

end SchemaDdl
