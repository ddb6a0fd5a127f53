import SchemaDdl.Script.Reading

/-!
# From a draft to a model

When every table of a script is known, ids are given out and foreign keys and comments find their
targets. Forward and self references need no care, and missing targets are reported foreign keys
first.
-/

namespace SchemaDdl.Script

def ColumnDraft.place (c : ColumnDraft) (id : String) : Column :=
  { id, name := c.name, type := c.type, nullable := c.nullable, defaultValue := c.defaultValue
    isPrimaryKey := c.isPrimaryKey, isUnique := c.isUnique }

/-- A table that has its ids but no foreign keys yet. -/
structure Placed where
  draft : TableDraft
  table : Table

namespace Placed

def columnId? (p : Placed) (name : String) : Option String :=
  (p.table.columnNamed? name).map Column.id

end Placed

def schemaId (ids : Ids) (schemas : List String) (name : String) : String :=
  ids.schema (schemas.idxOf name)

def TableDraft.place (ids : Ids) (schemas : List String) (i : Nat) (t : TableDraft) : Placed where
  draft := t
  table :=
    { id := ids.table i, schemaId := schemaId ids schemas t.key.schema, name := t.key.name
      columns := t.columns.mapIdx fun j c => c.place (ids.column i j) }

def findPlaced? (tables : List Placed) (key : QualifiedName) : Option Placed :=
  tables.find? fun p => p.draft.key == key

/-- The ids at both ends of a foreign key of `p`. -/
structure Ends where
  fromColumnId : String
  toTableId : String
  toColumnId : String

def resolveEnds (tables : List Placed) (p : Placed) (fk : ForeignKeyDraft) :
    Except ParseError Ends :=
  match p.columnId? fk.fromColumn with
  | none => .error (.missingReference fk.name s!"{p.draft.key.spelling}.{fk.fromColumn}")
  | some fromColumnId =>
    match findPlaced? tables fk.target with
    | none => .error missing
    | some target =>
      match target.columnId? fk.targetColumn with
      | none => .error missing
      | some toColumnId => .ok ⟨fromColumnId, target.table.id, toColumnId⟩
where
  missing : ParseError :=
    .missingReference fk.name s!"{fk.target.spelling}.{fk.targetColumn}"

/-- The names of the foreign keys of one table, sanitized and told apart. -/
def constraintNames (table : String) (used : List String) : List ForeignKeyDraft → List String
  | [] => []
  | fk :: fks =>
    let fallback := Naming.constraintName [table, fk.fromColumn, "fkey"] "fk"
    let name := Naming.ensureUnique (Naming.sanitize fk.name fallback) used
    name :: constraintNames table (name :: used) fks

def foreignKey (id name : String) (ends : Ends) (fk : ForeignKeyDraft) : ForeignKey :=
  { id, name, fromColumnId := ends.fromColumnId, toTableId := ends.toTableId
    toColumnId := ends.toColumnId, onDelete := fk.onDelete, onUpdate := fk.onUpdate }

/-- The `i`-th table with its foreign keys. -/
def resolveForeignKeys (ids : Ids) (tables : List Placed) (i : Nat) (p : Placed) :
    Except ParseError Table := do
  let drafts := p.draft.foreignKeys
  let ends ← drafts.mapM (resolveEnds tables p)
  let names := constraintNames p.draft.key.name [] drafts
  return { p.table with
    foreignKeys := ((names.zip ends).zip drafts).mapIdx fun j ((name, ends), fk) =>
      foreignKey (ids.foreignKey i j) name ends fk }

/-- Tables with the key that the script gives them. -/
abbrev KeyedTables := List (QualifiedName × Table)

def applyComment (tables : KeyedTables) (comment : CommentDraft) : Except ParseError KeyedTables :=
  match comment.target with
  | .table key =>
    let write := fun ((k, t) : QualifiedName × Table) => (k, { t with comment := comment.text })
    match updateFirst? (·.1 == key) write tables with
    | some tables => .ok tables
    | none => .error missing
  | .column key name =>
    match (tables.find? (·.1 == key)).bind fun (_, t) =>
        updateFirst? (·.name == name) (fun c => { c with comment := comment.text }) t.columns with
    | some columns =>
      .ok (tables.map fun (k, t) => (k, if k == key then { t with columns } else t))
    | none => .error missing
where
  missing : ParseError := .missingCommentTarget comment.target.spelling

def Draft.resolve (ids : Ids) (d : Draft) : Except ParseError Model := do
  let placed := d.tables.mapIdx fun i t => t.place ids d.schemas i
  let tables ← placed.zipIdx.mapM fun (p, i) => resolveForeignKeys ids placed i p
  let keyed ← d.comments.foldlM applyComment ((d.tables.map TableDraft.key).zip tables)
  return {
    version := Model.currentVersion
    schemas := d.schemas.mapIdx fun i name => ⟨ids.schema i, name⟩
    tables := keyed.map Prod.snd
    types := d.types.mapIdx fun i t =>
      { id := ids.type i, schemaId := schemaId ids d.schemas t.key.schema, name := t.key.name
        values := t.values } }

/-- Reads a script into a model. -/
def parse (ids : Ids) (options : Options) (script : String) : Except ParseError Model := do
  let draft ← Draft.ofStatements options (statements script.toList)
  draft.resolve ids

end SchemaDdl.Script
