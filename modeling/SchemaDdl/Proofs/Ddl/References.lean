import SchemaDdl.Proofs.Outline.Script

/-!
# References in a script

A foreign key of a script stands in the table that holds its column. The table that it refers to is
created by the script too, unless that table belongs to no schema of the model: then it is left out,
and the reference looks for it in the default schema.
-/

namespace SchemaDdl

namespace Ddl

/-- What a foreign key in the body of a table refers to. -/
structure Reference where
  column : String
  target : QualifiedName
  targetColumn : String
  deriving DecidableEq

def Definition.columnName? : Definition → Option String
  | .column name _ _ _ => some name
  | _ => none

def Definition.reference? : Definition → Option Reference
  | .foreignKey _ source target targetColumn _ _ => some ⟨source, target, targetColumn⟩
  | _ => none

/-- A table as a statement creates it. -/
structure CreatedTable where
  key : QualifiedName
  definitions : List Definition
  deriving DecidableEq

namespace CreatedTable

def columnNames (t : CreatedTable) : List String :=
  t.definitions.filterMap Definition.columnName?

def references (t : CreatedTable) : List Reference :=
  t.definitions.filterMap Definition.reference?

end CreatedTable

def Statement.createdTable? : Statement → Option CreatedTable
  | .createTable key definitions => some ⟨key, definitions⟩
  | _ => none

def createdTables (bs : List Block) : List CreatedTable :=
  bs.flatten.filterMap Statement.createdTable?

/-- The table as the schema of that name has it. -/
def tableIn (m : Model) (schema : String) (t : Table) : CreatedTable :=
  ⟨⟨schema, t.name⟩, tableDefinitions m t⟩

/-- The script creates the table, and with that column. -/
def Creates (bs : List Block) (key : QualifiedName) (column : String) : Prop :=
  ∃ t ∈ createdTables bs, t.key = key ∧ column ∈ t.columnNames

/-- Every foreign key has its column in the table that it stands in, and refers to a column of a
table that the script creates. -/
def Closed (bs : List Block) : Prop :=
  ∀ t ∈ createdTables bs, ∀ r ∈ t.references,
    r.column ∈ t.columnNames ∧ Creates bs r.target r.targetColumn

instance (bs : List Block) (key : QualifiedName) (column : String) :
    Decidable (Creates bs key column) :=
  inferInstanceAs (Decidable (∃ t ∈ createdTables bs, t.key = key ∧ column ∈ t.columnNames))

instance (bs : List Block) : Decidable (Closed bs) :=
  inferInstanceAs (Decidable (∀ t ∈ createdTables bs, ∀ r ∈ t.references,
    r.column ∈ t.columnNames ∧ Creates bs r.target r.targetColumn))

end Ddl

/-- The types of a script, each with the schema that it stands in. -/
def Model.typePlacements (m : Model) : List (Schema × EnumType) :=
  m.sortedSchemas.flatMap fun s => (m.types.filter fun t => t.schemaId == s.id).map (Prod.mk s)

/-- What the foreign key refers to. None when the column at either end is missing. -/
def Model.reference? (m : Model) (t : Table) (fk : ForeignKey) : Option Ddl.Reference :=
  (m.foreignKeyOutline? t fk).map fun d => ⟨d.fromColumn, d.target, d.targetColumn⟩

namespace Ddl

/-! ## The body of a table -/

section Definitions

variable (m : Model) (t : Table)

theorem filterMap_keyDefinitions {α : Type} {f : Definition → Option α}
    (hprimary : ∀ names, f (.primaryKey names) = none) (hunique : ∀ name, f (.unique name) = none)
    (cs : List Column) : (keyDefinitions cs).filterMap f = [] := by
  rw [keyDefinitions, List.filterMap_append, List.filterMap_map]
  simp only [List.append_eq_nil_iff, List.filterMap_eq_nil_iff, Function.comp_apply, hunique,
    implies_true, and_true]
  split <;> simp [hprimary]

/-- Under whatever names, the foreign keys that are written are those that have both ends. -/
theorem filterMap_reference?_foreignKeyDefinitions (used : List String) (fks : List ForeignKey) :
    (foreignKeyDefinitions m t used fks).filterMap Definition.reference? =
      fks.filterMap (m.reference? t) := by
  induction fks generalizing used with
  | nil => rfl
  | cons fk fks ih =>
    rw [foreignKeyDefinitions, foreignKeyDefinition?_eq, List.filterMap_cons, Model.reference?]
    cases m.foreignKeyOutline? t fk with
    | none => exact ih used
    | some d =>
      simp only [Option.map_some, List.filterMap_cons]
      rw [ih]
      rfl

theorem filterMap_columnName?_foreignKeyDefinitions (used : List String) (fks : List ForeignKey) :
    (foreignKeyDefinitions m t used fks).filterMap Definition.columnName? = [] := by
  induction fks generalizing used with
  | nil => rfl
  | cons fk fks ih =>
    rw [foreignKeyDefinitions, foreignKeyDefinition?_eq]
    cases m.foreignKeyOutline? t fk with
    | none => exact ih used
    | some d => exact ih _

theorem columnNames_tableDefinitions (key : QualifiedName) :
    (CreatedTable.mk key (tableDefinitions m t)).columnNames = t.columns.map Column.name := by
  have hcolumns : (t.columns.map columnDefinition).filterMap Definition.columnName? =
      t.columns.map Column.name := by
    rw [List.filterMap_map, ← List.filterMap_eq_map]
    rfl
  rw [CreatedTable.columnNames, tableDefinitions, List.filterMap_append, List.filterMap_append,
    hcolumns, filterMap_keyDefinitions (fun _ => rfl) (fun _ => rfl),
    filterMap_columnName?_foreignKeyDefinitions, List.append_nil, List.append_nil]

theorem references_tableDefinitions (key : QualifiedName) :
    (CreatedTable.mk key (tableDefinitions m t)).references =
      t.foreignKeys.filterMap (m.reference? t) := by
  have hcolumns : (t.columns.map columnDefinition).filterMap Definition.reference? = [] := by
    simp [columnDefinition, Definition.reference?]
  rw [CreatedTable.references, tableDefinitions, List.filterMap_append, List.filterMap_append,
    hcolumns, filterMap_keyDefinitions (fun _ => rfl) (fun _ => rfl),
    filterMap_reference?_foreignKeyDefinitions, List.nil_append, List.nil_append]

end Definitions

/-! ## The statements of a script, kind by kind -/

section Statements

variable {α : Type} {f : Statement → Option α}

theorem flatMap_typeBlocks (m : Model) :
    m.sortedSchemas.flatMap (typeBlocks m) =
      m.typePlacements.filterMap fun p => typeBlock? p.1.name p.2 := by
  rw [Model.typePlacements, List.filterMap_flatMap]
  simp only [List.filterMap_map]
  rfl

theorem flatten_typeBlocks (ps : List (Schema × EnumType)) :
    (ps.filterMap fun p => typeBlock? p.1.name p.2).flatten =
      (ps.filter fun p => !p.2.values.isEmpty).map fun p =>
        .createType ⟨p.1.name, p.2.name⟩ p.2.values := by
  induction ps with
  | nil => rfl
  | cons p ps ih =>
    rw [List.filterMap_cons, List.filter_cons, typeBlock?]
    cases p.2.values.isEmpty <;> simp [ih]

/-- A table is created by the one statement of its block that is no comment. -/
theorem filterMap_tableBlock (htable : ∀ key text, f (.commentOnTable key text) = none)
    (hcolumn : ∀ key column text, f (.commentOnColumn key column text) = none) (m : Model)
    (schema : String) (t : Table) :
    (tableBlock m schema t).filterMap f =
      (f (.createTable ⟨schema, t.name⟩ (tableDefinitions m t))).toList := by
  have hcomments : ((commentText t.comment).toList.map
        (Statement.commentOnTable ⟨schema, t.name⟩) ++
      t.columns.filterMap fun c => (commentText c.comment).map
        (Statement.commentOnColumn ⟨schema, t.name⟩ c.name)).filterMap f = [] := by
    rw [List.filterMap_eq_nil_iff]
    intro s hs
    rcases List.mem_append.1 hs with hs | hs
    · obtain ⟨text, -, rfl⟩ := List.mem_map.1 hs
      exact htable _ _
    · obtain ⟨c, -, hc⟩ := List.mem_filterMap.1 hs
      obtain ⟨text, -, rfl⟩ := Option.map_eq_some_iff.1 hc
      exact hcolumn _ _ _
  rw [tableBlock, List.filterMap_cons, hcomments]
  cases f (.createTable ⟨schema, t.name⟩ (tableDefinitions m t)) <;> rfl

/-- The statements of a script that are no comments, kind by kind. -/
theorem filterMap_blocks (htable : ∀ key text, f (.commentOnTable key text) = none)
    (hcolumn : ∀ key column text, f (.commentOnColumn key column text) = none) (m : Model) :
    (blocks m).flatten.filterMap f =
      ((m.sortedSchemas.map Schema.name).filter (· != defaultSchema)).filterMap
          (fun name => f (.createSchema name)) ++
        (m.typePlacements.filter fun p => !p.2.values.isEmpty).filterMap
          (fun p => f (.createType ⟨p.1.name, p.2.name⟩ p.2.values)) ++
        m.placements.filterMap fun p =>
          f (.createTable ⟨p.1.name, p.2.name⟩ (tableDefinitions m p.2)) := by
  have hschemas : (Outline.schemaBlocks (m.sortedSchemas.map Schema.name)).flatten =
      ((m.sortedSchemas.map Schema.name).filter (· != defaultSchema)).map .createSchema := by
    rw [Outline.schemaBlocks, ← List.flatMap_def, ← List.map_eq_flatMap]
  have htables : (m.placements.map fun p => tableBlock m p.1.name p.2).flatten.filterMap f =
      m.placements.filterMap fun p =>
        f (.createTable ⟨p.1.name, p.2.name⟩ (tableDefinitions m p.2)) := by
    rw [← List.flatMap_def, List.filterMap_flatMap, List.filterMap_eq_flatMap_toList]
    exact List.flatMap_congr fun p _ => filterMap_tableBlock htable hcolumn m p.1.name p.2
  rw [blocks, schemaBlocks_map_name, flatMap_typeBlocks, flatMap_tableBlocks, List.flatten_append,
    List.flatten_append, List.filterMap_append, List.filterMap_append, hschemas,
    flatten_typeBlocks, htables, List.filterMap_map, List.filterMap_map]
  rfl

theorem createdTables_blocks (m : Model) :
    createdTables (blocks m) = m.placements.map fun p => tableIn m p.1.name p.2 := by
  rw [createdTables, filterMap_blocks (fun _ _ => rfl) fun _ _ _ => rfl]
  simp [Statement.createdTable?, tableIn]

end Statements

/-! ## Created tables -/

section Blocks

variable {m : Model} {c : CreatedTable}

/-- A script creates the tables of its schemas, each under the name of its schema. -/
theorem mem_createdTables_blocks :
    c ∈ createdTables (blocks m) ↔ ∃ s ∈ m.schemas, ∃ t ∈ m.tables, t.schemaId = s.id ∧
      c = ⟨⟨s.name, t.name⟩, tableDefinitions m t⟩ := by
  rw [createdTables_blocks, List.mem_map]
  constructor
  · rintro ⟨p, hp, rfl⟩
    obtain ⟨hs, ht, hid⟩ := mem_placements.1 hp
    exact ⟨p.1, hs, p.2, ht, hid, rfl⟩
  · rintro ⟨s, hs, t, ht, hid, rfl⟩
    exact ⟨(s, t), mem_placements.2 ⟨hs, ht, hid⟩, rfl⟩

theorem creates_blocks_iff {key : QualifiedName} {column : String} :
    Creates (blocks m) key column ↔ ∃ s ∈ m.schemas, ∃ t ∈ m.tables, t.schemaId = s.id ∧
      key = ⟨s.name, t.name⟩ ∧ column ∈ t.columns.map Column.name := by
  constructor
  · rintro ⟨c, hc, rfl, hcolumn⟩
    obtain ⟨s, hs, t, ht, hid, rfl⟩ := mem_createdTables_blocks.1 hc
    rw [columnNames_tableDefinitions] at hcolumn
    exact ⟨s, hs, t, ht, hid, rfl, hcolumn⟩
  · rintro ⟨s, hs, t, ht, hid, rfl, hcolumn⟩
    refine ⟨_, mem_createdTables_blocks.2 ⟨s, hs, t, ht, hid, rfl⟩, rfl, ?_⟩
    rwa [columnNames_tableDefinitions]

end Blocks

end Ddl

namespace Model

variable {m : Model}

/-- A foreign key of the script refers to a table that belongs to no schema. -/
def Stray (m : Model) (r : Ddl.Reference) : Prop :=
  ∃ t ∈ m.tables, (m.schemaName? t.schemaId).isSome ∧ ∃ fk ∈ t.foreignKeys,
    m.reference? t fk = some r ∧
      ∃ u, m.referencedTable? fk.toTableId = some u ∧ m.schemaName? u.schemaId = none

/-- A reference has its column in its table, and its target in the script unless it is stray. -/
theorem ends_of_reference? {s : Schema} (hs : s ∈ m.schemas) {t : Table} (ht : t ∈ m.tables)
    (hid : t.schemaId = s.id) {fk : ForeignKey} (hfk : fk ∈ t.foreignKeys) {r : Ddl.Reference}
    (h : m.reference? t fk = some r) :
    r.column ∈ t.columns.map Column.name ∧
      (Ddl.Creates (Ddl.blocks m) r.target r.targetColumn ∨
        m.Stray r ∧ r.target.schema = defaultSchema) := by
  obtain ⟨d, hd, rfl⟩ := Option.map_eq_some_iff.1 h
  obtain ⟨hsource, u, hu, htarget, hcolumn⟩ := ends_of_foreignKeyOutline? hd
  refine ⟨hsource, ?_⟩
  cases hschema : m.schemaName? u.schemaId with
  | none =>
    refine .inr ⟨⟨t, ht, ?_, fk, hfk, h, u, hu, hschema⟩, ?_⟩
    · rw [hid]
      exact isSome_schemaName? hs
    · rw [← htarget, qualify, hschema]
      rfl
  | some name =>
    have hsome : (m.schemaName? u.schemaId).isSome := by rw [hschema]; rfl
    -- Of the schemas with that id, the reference names the last.
    obtain ⟨s', hs', hid', hname⟩ := exists_of_schemaName? hsome
    refine .inl (Ddl.creates_blocks_iff.2
      ⟨s', hs', u, mem_tables_of_referencedTable? hu, hid'.symm, ?_, hcolumn⟩)
    rw [← htarget, qualify, hname]
    rfl

end Model

namespace Ddl

section Closed

variable {m : Model}

theorem ends_of_mem_references {c : CreatedTable} (hc : c ∈ createdTables (blocks m)) {r : Reference}
    (hr : r ∈ c.references) : r.column ∈ c.columnNames ∧
      (Creates (blocks m) r.target r.targetColumn ∨ m.Stray r ∧ r.target.schema = defaultSchema) := by
  obtain ⟨s, hs, t, ht, hid, rfl⟩ := mem_createdTables_blocks.1 hc
  rw [references_tableDefinitions] at hr
  obtain ⟨fk, hfk, hr⟩ := List.mem_filterMap.1 hr
  rw [columnNames_tableDefinitions]
  exact Model.ends_of_reference? hs ht hid hfk hr

theorem closed_iff_stray :
    Closed (blocks m) ↔ ∀ r, m.Stray r → Creates (blocks m) r.target r.targetColumn := by
  constructor
  · rintro h r ⟨t, ht, hsome, fk, hfk, hr, -⟩
    obtain ⟨s, hs, hid, -⟩ := exists_of_schemaName? hsome
    refine (h _ (mem_createdTables_blocks.2 ⟨s, hs, t, ht, hid.symm, rfl⟩) r ?_).2
    rw [references_tableDefinitions]
    exact List.mem_filterMap.2 ⟨fk, hfk, hr⟩
  · intro h c hc r hr
    obtain ⟨hcolumn, htarget⟩ := ends_of_mem_references hc hr
    exact ⟨hcolumn, htarget.elim id fun hstray => h r hstray.1⟩

/-- Nothing is stray if every table belongs to a schema. -/
theorem closed_of_housed (h : ∀ t ∈ m.tables, (m.schemaName? t.schemaId).isSome) :
    Closed (blocks m) := by
  apply closed_iff_stray.2
  rintro r ⟨t, -, -, fk, -, -, u, hu, hnone⟩
  have hsome := h u (mem_tables_of_referencedTable? hu)
  rw [hnone] at hsome
  cases hsome

end Closed

/-- Every foreign key of a script has its column in the table that it stands in. What it refers to
is created by the script too, unless the target belongs to no schema: then the reference takes the
default schema, and it depends on a table of that name there whether the script is closed. -/
theorem closed_blocks_iff (m : Model) :
    (∀ t ∈ createdTables (blocks m), ∀ r ∈ t.references, r.column ∈ t.columnNames ∧
      (Creates (blocks m) r.target r.targetColumn ∨ m.Stray r ∧ r.target.schema = defaultSchema)) ∧
    (Closed (blocks m) ↔ ∀ r, m.Stray r → Creates (blocks m) r.target r.targetColumn) ∧
    ((∀ t ∈ m.tables, (m.schemaName? t.schemaId).isSome) → Closed (blocks m)) :=
  ⟨fun _ hc _ hr => ends_of_mem_references hc hr, closed_iff_stray, closed_of_housed⟩

/-- A table that refers to itself. -/
theorem closed_blocks_of_tree :
    ∃ m : Model, (∀ t ∈ m.tables, (m.schemaName? t.schemaId).isSome) ∧
      (createdTables (blocks m)).flatMap CreatedTable.references =
        [⟨"parent", ⟨"s", "node"⟩, "key"⟩] ∧ Closed (blocks m) := by
  let table : Table :=
    { id := "t1", schemaId := "s1", name := "node"
      columns := [{ id := "c1", name := "key", type := "int" },
        { id := "c2", name := "parent", type := "int" }]
      foreignKeys := [{ id := "f1", name := "up", fromColumnId := "c2", toTableId := "t1"
                        toColumnId := "c1" }] }
  let m : Model := { version := 1, schemas := [⟨"s1", "s"⟩], tables := [table] }
  have hhoused : ∀ t ∈ m.tables, (m.schemaName? t.schemaId).isSome := by decide
  exact ⟨m, hhoused, by decide +kernel, (closed_blocks_iff m).2.2 hhoused⟩

/-- The target belongs to a schema that is gone, and the script still refers to it. -/
theorem not_closed_blocks_of_missing_schema :
    ∃ m : Model, (createdTables (blocks m)).map CreatedTable.key = [⟨"public", "a"⟩] ∧
      (createdTables (blocks m)).flatMap CreatedTable.references =
        [⟨"x", ⟨"public", "b"⟩, "y"⟩] ∧ ¬ Closed (blocks m) := by
  let table : Table :=
    { id := "t1", schemaId := "s1", name := "a", columns := [{ id := "c1", name := "x", type := "int" }]
      foreignKeys := [{ id := "f1", name := "f", fromColumnId := "c1", toTableId := "t2"
                        toColumnId := "c2" }] }
  let target : Table :=
    { id := "t2", schemaId := "gone", name := "b"
      columns := [{ id := "c2", name := "y", type := "int" }] }
  exact ⟨{ version := 1, schemas := [⟨"s1", "public"⟩], tables := [table, target] },
    by decide +kernel, by decide +kernel, by decide +kernel⟩

end Ddl

end SchemaDdl
