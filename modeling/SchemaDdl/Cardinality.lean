import SchemaDdl.Model

/-!
# Ends of a relationship

An end drawn at a key column is `one`, any other is `many`. Only uniqueness counts: a nullable
unique column still is `one`.
-/

namespace SchemaDdl

namespace Cardinality

def ofColumn (c : Column) : Cardinality :=
  if c.isKey then .one else .many

/-- The ends inferred for a relationship between two columns. -/
def infer (source target : Column) : Cardinality × Cardinality :=
  (ofColumn source, ofColumn target)

end Cardinality

/-- The ends to draw for a foreign key of `t`. Ends that are given win over inferred ones. There are
none when a column at either end is missing. -/
def Model.endpoints (m : Model) (t : Table) (fk : ForeignKey) :
    Option (Cardinality × Cardinality) := do
  let source ← t.column? fk.fromColumnId
  let target ← (← m.table? fk.toTableId).column? fk.toColumnId
  let (start, stop) := Cardinality.infer source target
  return (fk.startCardinality.getD start, fk.endCardinality.getD stop)

end SchemaDdl
