import SchemaDdl.Check.Structure
import SchemaDdl.Ddl.Generate
import SchemaDdl.Text.LowerCase

/-!
# Keys and foreign keys

A table should have columns and a primary key. Both ends of a foreign key should be there and have
the same type, up to case and surrounding white space.
-/

namespace SchemaDdl.Check

/-- A column with its table and, if that is known, its schema. -/
def qualifiedColumn (m : Model) (t : Table) (c : Column) : String :=
  match m.schema? t.schemaId with
  | some s => s!"{s.name}.{t.name}.{c.name}"
  | none => s!"{t.name}.{c.name}"

def comparableType (c : Column) : String :=
  Text.lowerCase (Text.trimmed c.type)

def typeIssue (m : Model) (fk : ForeignKey) (t : Table) (c : Column) (target : Table)
    (targetColumn : Column) : List Issue :=
  given (comparableType c != comparableType targetColumn)
    (.typeMismatch fk.name (qualifiedColumn m t c) c.type (qualifiedColumn m target targetColumn)
      targetColumn.type)

def referenceIssues (m : Model) (t : Table) (fk : ForeignKey) : List Issue :=
  let source := t.column? fk.fromColumnId
  given source.isNone (.missingSource fk.name t.name) ++
    match m.referencedTable? fk.toTableId with
    | none => [.missingTable fk.name fk.toTableId]
    | some target =>
      match target.column? fk.toColumnId with
      | none => [.missingTarget fk.name target.name]
      | some targetColumn =>
        source.toList.flatMap fun c => typeIssue m fk t c target targetColumn

def keyIssues (m : Model) (t : Table) : List Issue :=
  given t.columns.isEmpty (.noColumns t.name) ++ given (!t.hasPrimaryKey) (.noPrimaryKey t.name) ++
    t.foreignKeys.flatMap (referenceIssues m t)

/-- Everything that is wrong with a model. -/
def validate (m : Model) : List Issue :=
  structureIssues m ++ m.tables.flatMap (keyIssues m)

end SchemaDdl.Check
