import SchemaDdl.Proofs.Ddl.Inventory
import SchemaDdl.Proofs.Outline.Statements

/-!
# What the text of a script creates

A text is split into statements and each of them is read on its own. If the types and the defaults of
a model can be read, its script creates as a text what its statements were made to create, so it can be
told from the text alone which parts of the model it has, how often, and where its foreign keys lead.
-/

namespace SchemaDdl

open Script

/-- A table with the names of its columns and what its foreign keys refer to. -/
structure TableContents where
  key : QualifiedName
  columns : List String
  references : List Ddl.Reference
  deriving DecidableEq

/-- What a script creates. -/
structure Contents where
  schemas : List String
  types : List TypeDraft
  tables : List TableContents
  deriving DecidableEq

namespace Contents

def Creates (c : Contents) (key : QualifiedName) (column : String) : Prop :=
  ∃ t ∈ c.tables, t.key = key ∧ column ∈ t.columns

/-- Every foreign key has its column in its own table, and refers to a column that is created. -/
def Closed (c : Contents) : Prop :=
  ∀ t ∈ c.tables, ∀ r ∈ t.references, r.column ∈ t.columns ∧ c.Creates r.target r.targetColumn

end Contents

/-! ## Contents of a text -/

namespace Script

def ForeignKeyDraft.reference (fk : ForeignKeyDraft) : Ddl.Reference :=
  ⟨fk.fromColumn, fk.target, fk.targetColumn⟩

def TableDraft.contents (t : TableDraft) : TableContents :=
  ⟨t.key, t.columns.map ColumnDraft.name, t.foreignKeys.map ForeignKeyDraft.reference⟩

def Entry.createdSchema? : Entry → Option String
  | .schema name => some name
  | _ => none

def entryContents (es : List Entry) : Contents where
  schemas := es.filterMap Entry.createdSchema?
  types := es.filterMap Entry.type?
  tables := es.filterMap fun e => e.table?.map TableDraft.contents

/-- What the statements of a text create, each read on its own. It fails if one cannot be read. -/
def contents (options : Options) (text : String) : Except String Contents := do
  let es ← ((statements text.toList).map Statement.text).mapM (readAlone options)
  return entryContents es.reduceOption

/-- These are the types and the tables that reading the script in order comes to. -/
theorem contents_of_ofStatements {options : Options} {text : String} {d : Draft}
    (h : Draft.ofStatements options (statements text.toList) = .ok d) :
    ∃ c, contents options text = .ok c ∧ c.types = d.types ∧
      c.tables = d.tables.map TableDraft.contents := by
  obtain ⟨es, hes, -, rfl⟩ := Draft.ofStatements_eq_ok_iff.1 h
  refine ⟨entryContents es.reduceOption, bind_eq_ok_iff.2 ⟨es, hes, rfl⟩, ?_, ?_⟩
  · exact (Draft.types_foldl_add {} es.reduceOption).symm
  · have htables := Draft.tables_foldl_add {} es.reduceOption
    rw [htables]
    exact List.map_filterMap.symm

end Script

namespace Ddl

/-! ## Contents of statements -/

def CreatedTable.contents (t : CreatedTable) : TableContents :=
  ⟨t.key, t.columnNames, t.references⟩

/-- What a script was made to create. -/
def contents (bs : List Block) : Contents where
  schemas := createdSchemas bs
  types := createdTypes bs
  tables := (createdTables bs).map CreatedTable.contents

section Blocks

variable {bs : List Block}

theorem creates_contents_iff {key : QualifiedName} {column : String} :
    (contents bs).Creates key column ↔ Creates bs key column := by
  constructor
  · rintro ⟨_, hmem, hkey, hcolumn⟩
    obtain ⟨t, ht, rfl⟩ := List.mem_map.1 hmem
    exact ⟨t, ht, hkey, hcolumn⟩
  · rintro ⟨t, ht, hkey, hcolumn⟩
    exact ⟨t.contents, List.mem_map_of_mem ht, hkey, hcolumn⟩

theorem closed_contents_iff : (contents bs).Closed ↔ Closed bs := by
  constructor
  · intro h t ht r hr
    obtain ⟨hcolumn, htarget⟩ := h t.contents (List.mem_map_of_mem ht) r hr
    exact ⟨hcolumn, creates_contents_iff.1 htarget⟩
  · intro h _ hmem r hr
    obtain ⟨t, ht, rfl⟩ := List.mem_map.1 hmem
    obtain ⟨hcolumn, htarget⟩ := h t ht r hr
    exact ⟨hcolumn, creates_contents_iff.2 htarget⟩

end Blocks

/-! ## Statements read back -/

section Read

variable {strict inferId : Bool} {options : Options}

theorem contents_of_ofItems {key : QualifiedName} {ds : List Definition} {t : TableDraft}
    (h : TableDraft.ofItems strict key (ds.map (Definition.item inferId)) = .ok t) :
    t.contents = CreatedTable.contents ⟨key, ds⟩ := by
  have hcolumns : ((ds.map (Definition.item inferId)).filterMap TableItem.column?).map
      ColumnDraft.name = ds.filterMap Definition.columnName? := by
    rw [List.filterMap_map, List.map_filterMap]
    refine List.filterMap_congr fun d _ => ?_
    cases d <;> rfl
  have hreferences : ((ds.map (Definition.item inferId)).filterMap TableItem.foreignKey?).map
      ForeignKeyDraft.reference = ds.filterMap Definition.reference? := by
    rw [List.filterMap_map, List.map_filterMap]
    refine List.filterMap_congr fun d _ => ?_
    cases d <;> rfl
  obtain ⟨-, rfl⟩ := ofItems_eq_ok_iff.1 h
  rw [TableDraft.contents, map_name_markKeys, hcolumns, hreferences]
  rfl

/-- An entry that creates what the statement does. -/
structure Statement.SameContents (s : Statement) (e : Entry) : Prop where
  schema : e.createdSchema? = s.createdSchema?
  type : e.type? = s.createdType?
  table : e.table?.map TableDraft.contents = s.createdTable?.map CreatedTable.contents

theorem Statement.sameContents_of_read {s : Statement} {e : Entry} (h : s.read options = .ok e) :
    s.SameContents e := by
  cases s with
  | createTable key ds =>
    obtain ⟨t, ht, rfl⟩ := exists_of_map_eq_ok h
    exact ⟨rfl, rfl, congrArg some (contents_of_ofItems ht)⟩
  | _ =>
    cases h
    exact ⟨rfl, rfl, rfl⟩

theorem entryContents_of_mapM_read {bs : List Block} {es : List Entry}
    (h : bs.flatten.mapM (Statement.read options) = .ok es) : entryContents es = contents bs := by
  have hschemas := filterMap_eq_filterMap_of_mapM h fun s _ _ he => (s.sameContents_of_read he).schema
  have htypes := filterMap_eq_filterMap_of_mapM h fun s _ _ he => (s.sameContents_of_read he).type
  have htables := filterMap_eq_filterMap_of_mapM h fun s _ _ he => (s.sameContents_of_read he).table
  rw [entryContents, hschemas, htypes, htables, ← List.map_filterMap]
  rfl

end Read

/-! ## The statements of a model -/

/-- The statements that a script has for a model. -/
inductive Statement.OfModel (m : Model) : Statement → Prop where
  | createSchema (name : String) : OfModel m (.createSchema name)
  | createType (key : QualifiedName) {values : List String} (h : values ≠ []) :
    OfModel m (.createType key values)
  | createTable (key : QualifiedName) {t : Table} (h : t ∈ m.tables) :
    OfModel m (.createTable key (tableDefinitions m t))
  | commentOnTable (key : QualifiedName) {text : String} (h : text ≠ "") :
    OfModel m (.commentOnTable key text)
  | commentOnColumn (key : QualifiedName) (column : String) {text : String} (h : text ≠ "") :
    OfModel m (.commentOnColumn key column text)

section OfModel

variable {m : Model} {t : Table} {s : Statement} {b : Block}

theorem ne_empty_of_commentText {comment : Option String} {text : String}
    (h : commentText comment = some text) : text ≠ "" := by
  rintro rfl
  exact commentText_ne_some_empty comment h

theorem ofModel_of_mem_tableBlock (ht : t ∈ m.tables) {schema : String}
    (hs : s ∈ tableBlock m schema t) : s.OfModel m := by
  rcases List.mem_cons.1 hs with rfl | hs
  · exact .createTable _ ht
  · rcases List.mem_append.1 hs with hs | hs
    · obtain ⟨text, htext, rfl⟩ := List.mem_map.1 hs
      exact .commentOnTable _ (ne_empty_of_commentText (Option.mem_toList.1 htext))
    · obtain ⟨c, -, hs⟩ := List.mem_filterMap.1 hs
      obtain ⟨text, htext, rfl⟩ := Option.map_eq_some_iff.1 hs
      exact .commentOnColumn _ _ (ne_empty_of_commentText htext)

theorem ne_nil_and_ofModel_of_mem_blocks (hb : b ∈ blocks m) : b ≠ [] ∧ ∀ s ∈ b, s.OfModel m := by
  rw [blocks, flatMap_tableBlocks, List.mem_append, List.mem_append] at hb
  rcases hb with (hb | hb) | hb
  · obtain ⟨r, -, hb⟩ := List.mem_filterMap.1 hb
    rw [schemaBlock?] at hb
    split at hb
    · cases hb
    · cases hb
      exact ⟨List.cons_ne_nil _ _, List.forall_mem_singleton.2 (.createSchema _)⟩
  · obtain ⟨r, -, hb⟩ := List.mem_flatMap.1 hb
    obtain ⟨e, -, hb⟩ := List.mem_filterMap.1 hb
    rw [typeBlock?] at hb
    split at hb
    · cases hb
    · rename_i hvalues
      cases hb
      have hne : e.values ≠ [] := fun hnil => hvalues (List.isEmpty_iff.2 hnil)
      exact ⟨List.cons_ne_nil _ _, List.forall_mem_singleton.2 (.createType _ hne)⟩
  · obtain ⟨p, hp, rfl⟩ := List.mem_map.1 hb
    have ht := (mem_placements.1 hp).2.1
    exact ⟨List.cons_ne_nil _ _, fun s hs => ofModel_of_mem_tableBlock ht hs⟩

/-- The definitions of a table are those of drafts, with the names that its foreign keys get. -/
theorem tableDefinitions_eq (m : Model) (t : Table) :
    tableDefinitions m t = columnDefinitions (t.columns.map fun c => c.scripted.outline.toColumnDraft) ++
      m.writtenKeys t (ForeignKey.withFreshNames [] (t.foreignKeys.filter (m.resolves t))) := by
  have hcolumns := keyDefinitions_outline (t.columns.map Column.scripted)
  rw [keyDefinitions_scripted, List.map_map, List.map_map] at hcolumns
  rw [tableDefinitions, Model.foreignKeyDefinitions_eq_writtenKeys]
  exact congrArg (· ++ m.writtenKeys t _) hcolumns

theorem Statement.OfModel.readable (h : s.OfModel m)
    (htexts : ∀ t ∈ m.tables, ∀ c ∈ t.columns, c.Readable) : s.Readable := by
  cases h with
  | createSchema name => trivial
  | createType key hvalues => exact hvalues
  | @createTable key t ht =>
    intro d hd
    rw [tableDefinitions_eq] at hd
    rcases List.mem_append.1 hd with hd | hd
    · refine readable_columnDefinitions (fun c hc => ?_) d hd
      obtain ⟨column, hcolumn, rfl⟩ := List.mem_map.1 hc
      exact (htexts t ht column hcolumn).legible
    · obtain ⟨fk, -, rfl⟩ := List.mem_map.1 hd
      trivial
  | commentOnTable key htext => exact htext
  | commentOnColumn key column htext => exact htext

/-- Key lists only name columns of their table, so that strict reading does not mind them either. -/
theorem Statement.OfModel.exists_read (h : s.OfModel m) (options : Options) :
    ∃ e, s.read options = .ok e := by
  cases h with
  | @createTable key t ht =>
    rw [Statement.read, tableDefinitions_eq, Model.writtenKeys, ofItems_definitions]
    exact ⟨_, rfl⟩
  | _ => exact ⟨_, rfl⟩

end OfModel

/-! ## The script of a model -/

section Script

variable {m : Model} (htexts : ∀ t ∈ m.tables, ∀ c ∈ t.columns, c.Readable) (options : Options)

include htexts

/-- As a text, a script creates what its statements were made to create. -/
theorem contents_generate : Script.contents options (generate m) = .ok (contents (blocks m)) := by
  have hparts {b : Block} (hb : b ∈ blocks m) := ne_nil_and_ofModel_of_mem_blocks hb
  obtain ⟨es, hes⟩ : ∃ es, (blocks m).flatten.mapM (Statement.read options) = .ok es := by
    refine exists_mapM_eq_ok fun s hs => ?_
    obtain ⟨b, hb, hs⟩ := List.mem_flatten.1 hs
    exact ((hparts hb).2 s hs).exists_read options
  have halone := mapM_readAlone_scriptText (fun b hb => (hparts hb).1)
    (fun b hb s hs => ((hparts hb).2 s hs).readable htexts) hes
  refine bind_eq_ok_iff.2 ⟨es.map some, halone, ?_⟩
  rw [reduceOption_map_some, entryContents_of_mapM_read hes]
  rfl

/-- In the text of a script every foreign key has its column in the table that it stands in. Its
target is created by the text too unless it belongs to no schema, and then it depends on a table of
that name in the default schema whether the text is closed. -/
theorem closed_generate_iff : ∃ c, Script.contents options (generate m) = .ok c ∧
    (∀ t ∈ c.tables, ∀ r ∈ t.references, r.column ∈ t.columns ∧
      (c.Creates r.target r.targetColumn ∨ m.Stray r ∧ r.target.schema = defaultSchema)) ∧
    (c.Closed ↔ ∀ r, m.Stray r → c.Creates r.target r.targetColumn) ∧
    ((∀ t ∈ m.tables, (m.schemaName? t.schemaId).isSome) → c.Closed) := by
  refine ⟨_, contents_generate htexts options, ?_, ?_, ?_⟩
  · intro _ hmem r hr
    obtain ⟨t, ht, rfl⟩ := List.mem_map.1 hmem
    rw [creates_contents_iff]
    exact ends_of_mem_references ht hr
  · simp only [closed_contents_iff, creates_contents_iff]
    exact closed_iff_stray
  · exact fun hhoused => closed_contents_iff.2 (closed_of_housed hhoused)

end Script

/-- The only table of the text refers to one whose schema is gone, and which the text does not create. -/
theorem not_closed_generate_of_missing_schema :
    ∃ (m : Model) (c : Contents), (∀ t ∈ m.tables, ∀ c ∈ t.columns, c.Readable) ∧
      Script.contents {} (generate m) = .ok c ∧
      c.tables = [⟨⟨"public", "a"⟩, ["x"], [⟨"x", ⟨"public", "b"⟩, "y"⟩]⟩] ∧ ¬ c.Closed := by
  let table : Table :=
    { id := "t1", schemaId := "s1", name := "a", columns := [{ id := "c1", name := "x", type := "int" }]
      foreignKeys := [{ id := "f1", name := "f", fromColumnId := "c1", toTableId := "t2"
                        toColumnId := "c2" }] }
  let target : Table :=
    { id := "t2", schemaId := "gone", name := "b"
      columns := [{ id := "c2", name := "y", type := "int" }] }
  let m : Model := { version := 1, schemas := [⟨"s1", "public"⟩], tables := [table, target] }
  have htrim : Text.trimmed "int" = "int" := by decide +kernel
  have htypes : ∀ t ∈ m.tables, ∀ c ∈ t.columns, c.type = "int" ∧ c.defaultValue = none := by decide
  have htexts : ∀ t ∈ m.tables, ∀ c ∈ t.columns, c.Readable := by
    intro t ht c hc
    obtain ⟨htype, hdefault⟩ := htypes t ht c hc
    have htype : Text.trimmed c.type = "int" := (congrArg Text.trimmed htype).trans htrim
    exact Column.readable_of_word htype (by decide) (by decide) hdefault
  have htables : (contents (blocks m)).tables =
      [⟨⟨"public", "a"⟩, ["x"], [⟨"x", ⟨"public", "b"⟩, "y"⟩]⟩] := by decide +kernel
  refine ⟨m, _, htexts, contents_generate htexts {}, htables, fun hclosed => ?_⟩
  have hopen : ¬ Closed (blocks m) := by decide +kernel
  exact hopen (closed_contents_iff.1 hclosed)

end Ddl

/-- The table as its own schema has it. -/
def Model.tableContents (m : Model) (t : Table) : TableContents :=
  ⟨m.qualify t.schemaId t.name, t.columns.map Column.name, t.foreignKeys.filterMap (m.reference? t)⟩

theorem Model.contents_createdTable (m : Model) (t : Table) :
    (m.createdTable t).contents = m.tableContents t := by
  rw [createdTable, Ddl.CreatedTable.contents, Ddl.columnNames_tableDefinitions,
    Ddl.references_tableDefinitions]
  rfl

namespace Ddl

/-- The text of the script of a model without errors has every part of it, and no two tables under one
name. It creates each part exactly once if and only if every schema id that a table or a type gives has
one schema. -/
theorem createsOnce_generate_iff {m : Model} (hvalid : Check.hasErrors (Check.validate m) = false)
    (htexts : ∀ t ∈ m.tables, ∀ c ∈ t.columns, c.Readable) (options : Options) :
    ∃ c, Script.contents options (generate m) = .ok c ∧
      c.schemas.Perm ((m.schemas.map Schema.name).filter (· != defaultSchema)) ∧ c.schemas.Nodup ∧
      (∀ t ∈ m.types, m.typeOutline t ∈ c.types) ∧ (∀ t ∈ m.tables, m.tableContents t ∈ c.tables) ∧
      (c.tables.map TableContents.key).Nodup ∧
      (c.types.Perm (m.types.map m.typeOutline) ∧ c.tables.Perm (m.tables.map m.tableContents) ↔
        ∀ id ∈ usedSchemaIds m, (m.schemasWith id).length = 1) := by
  have hall := createsAll hvalid
  refine ⟨_, contents_generate htexts options, hall.schemas, hall.distinctSchemas, hall.types, ?_, ?_,
    ?_⟩
  · intro t ht
    rw [← m.contents_createdTable]
    exact List.mem_map_of_mem (hall.tables t ht)
  · have hkeys : ((contents (blocks m)).tables.map TableContents.key) =
        (createdTables (blocks m)).map CreatedTable.key := List.map_map
    rw [hkeys]
    exact hall.distinctTables
  · constructor
    · rintro ⟨htypes, htables⟩
      apply length_schemasWith_of_length hvalid
      · exact htypes.length_eq.trans (List.length_map _)
      · simpa only [contents, List.length_map] using htables.length_eq
    · intro hone
      have honce := createsOnce_of_length hvalid hone
      have htables := honce.onceTables.map CreatedTable.contents
      rw [List.map_map] at htables
      refine ⟨honce.onceTypes, htables.trans (.of_eq ?_)⟩
      exact List.map_congr_left fun t _ => m.contents_createdTable t

end Ddl

end SchemaDdl
