import SchemaDdl.Proofs.Ddl.Wording
import SchemaDdl.Proofs.Outline.Basic
import SchemaDdl.Proofs.Text.Names

/-!
# The script of an outline

The statements that declare an outline, and when a model generates exactly those of its outline in
sorted order: its texts have to be readable, its constraint names clean, and no comment empty.
-/

namespace SchemaDdl

open Script

def Script.ColumnDraft.definition (c : ColumnDraft) : Ddl.Definition :=
  .column c.name c.type (!c.nullable || c.isPrimaryKey) c.defaultValue

def Script.ForeignKeyDraft.definition (fk : ForeignKeyDraft) : Ddl.Definition :=
  .foreignKey fk.name fk.fromColumn fk.target fk.targetColumn fk.onDelete fk.onUpdate

/-- Names of the primary-key columns. -/
def primaryNames (cs : List ColumnDraft) : List String :=
  (cs.filter ColumnDraft.isPrimaryKey).map ColumnDraft.name

/-- Names of the unique columns that are no primary keys. -/
def uniqueNames (cs : List ColumnDraft) : List String :=
  (cs.filter fun c => c.isUnique && !c.isPrimaryKey).map ColumnDraft.name

/-- The definitions of a table body without its foreign keys. -/
def columnDefinitions (cs : List ColumnDraft) : List Ddl.Definition :=
  cs.map ColumnDraft.definition ++
    ((if (primaryNames cs).isEmpty then [] else [.primaryKey (primaryNames cs)]) ++
      (uniqueNames cs).map .unique)

namespace TableOutline

def drafts (t : TableOutline) : List ColumnDraft :=
  t.columns.map ColumnOutline.toColumnDraft

def definitions (t : TableOutline) : List Ddl.Definition :=
  columnDefinitions t.drafts ++ t.foreignKeys.map ForeignKeyDraft.definition

def comments (t : TableOutline) : List Ddl.Statement :=
  t.comment.toList.map (.commentOnTable t.key) ++
    t.columns.filterMap fun c => c.comment.map (.commentOnColumn t.key c.name)

def block (t : TableOutline) : Ddl.Block :=
  .createTable t.key t.definitions :: t.comments

end TableOutline

namespace Outline

def schemaBlocks (names : List String) : List Ddl.Block :=
  (names.filter fun name => name != defaultSchema).map fun name => [.createSchema name]

def script (o : Outline) : List Ddl.Block :=
  schemaBlocks o.schemas ++ o.types.map (fun t => [.createType t.key t.values]) ++
    o.tables.map TableOutline.block

end Outline

namespace Model

/-- The table as it stands in the schema of that name. -/
def tableOutlineIn (m : Model) (schema : String) (t : Table) : TableOutline :=
  { m.tableOutline t with key := ⟨schema, t.name⟩ }

def typesIn (m : Model) (s : Schema) : List TypeDraft :=
  (m.types.filter fun t => t.schemaId == s.id).map fun t => ⟨⟨s.name, t.name⟩, t.values⟩

def tablesIn (m : Model) (s : Schema) : List TableOutline :=
  (m.tables.filter fun t => t.schemaId == s.id).map (m.tableOutlineIn s.name)

/-- What the script of a model declares. Types and tables stand in every schema with the id of
theirs, so schemas that share an id hold the same. -/
def declared (m : Model) : Outline where
  schemas := m.schemas.map Schema.name
  types := m.schemas.flatMap m.typesIn
  tables := m.schemas.flatMap m.tablesIn

end Model

/-! ## Legible outlines -/

/-- Type and default are read back as they are written. -/
structure Script.ColumnDraft.Legible (c : ColumnDraft) : Prop where
  type : TypeExcerpt c.type.toList (Ddl.lexed c.type)
  default : ∀ e ∈ c.defaultValue, DefaultExcerpt e.toList (Ddl.lexed e)

/-- A table that a script can declare. A comment on a column means the first column so named. -/
structure TableOutline.Legible (t : TableOutline) : Prop where
  columns : ∀ c ∈ t.drafts, c.Legible
  comment : t.comment ≠ some ""
  columnComments : ∀ c ∈ t.columns, c.comment ≠ some ""
  commentedFirst : t.columns.Pairwise fun b c => c.comment ≠ none → b.name ≠ c.name
  constraints : (t.foreignKeys.map ForeignKeyDraft.name).Nodup
  clean : ∀ fk ∈ t.foreignKeys, Naming.Clean fk.name
  sources : ∀ fk ∈ t.foreignKeys, fk.fromColumn ∈ t.drafts.map ColumnDraft.name

/-- An outline that a script can declare. -/
structure Outline.Legible (o : Outline) : Prop extends Distinct o where
  values : ∀ t ∈ o.types, t.values ≠ []
  each : ∀ t ∈ o.tables, t.Legible
  targets : ∀ t ∈ o.tables, ∀ fk ∈ t.foreignKeys,
    ∃ u ∈ o.tables, u.key = fk.target ∧ fk.targetColumn ∈ u.drafts.map ColumnDraft.name

/-! ## The statements of a model -/

section Blocks

variable {m : Model}

/-- The tables that a script creates, each with the schema that it stands in. -/
def Model.placements (m : Model) : List (Schema × Table) :=
  m.sortedSchemas.flatMap fun s =>
    (sortedByName Table.name (m.tables.filter fun t => t.schemaId == s.id)).map (Prod.mk s)

theorem mem_placements {p : Schema × Table} :
    p ∈ m.placements ↔ p.1 ∈ m.schemas ∧ p.2 ∈ m.tables ∧ p.2.schemaId = p.1.id := by
  simp only [Model.placements, List.mem_flatMap, List.mem_map, Model.sortedSchemas,
    (Model.perm_sortedByName _ _).mem_iff, List.mem_filter, beq_iff_eq]
  constructor
  · rintro ⟨s, hs, t, ht, rfl⟩
    exact ⟨hs, ht⟩
  · rintro ⟨hs, ht⟩
    exact ⟨p.1, hs, p.2, ht, rfl⟩

theorem flatMap_tableBlocks (m : Model) :
    m.sortedSchemas.flatMap (Ddl.tableBlocks m) =
      m.placements.map fun p => Ddl.tableBlock m p.1.name p.2 := by
  simp only [Model.placements, List.map_flatMap, List.map_map]
  rfl

theorem schemaName?_eq_some {s : Schema} (hids : (m.schemas.map Schema.id).Nodup)
    (hs : s ∈ m.schemas) : m.schemaName? s.id = some s.name := by
  rw [Model.schemaName?, find?_reverse_eq_of_nodup hids hs]
  rfl

theorem exists_of_schemaName? {id : String} (h : (m.schemaName? id).isSome) :
    ∃ s ∈ m.schemas, s.id = id ∧ m.schemaName? id = some s.name := by
  rw [Model.schemaName?, Option.isSome_map] at h
  obtain ⟨s, hs⟩ := Option.isSome_iff_exists.1 h
  refine ⟨s, List.mem_reverse.1 (List.mem_of_find?_eq_some hs), by simpa using List.find?_some hs, ?_⟩
  rw [Model.schemaName?, hs]
  rfl

theorem isSome_schemaName? {s : Schema} (hs : s ∈ m.schemas) : (m.schemaName? s.id).isSome := by
  rw [Model.schemaName?, Option.isSome_map, List.find?_isSome]
  exact ⟨s, List.mem_reverse.2 hs, beq_self_eq_true s.id⟩

theorem mem_schemas_of_schemaName? {id : String} (h : (m.schemaName? id).isSome) (name : String) :
    (m.qualify id name).schema ∈ m.schemas.map Schema.name := by
  obtain ⟨s, hs, -, hname⟩ := exists_of_schemaName? h
  rw [Model.qualify, hname]
  exact List.mem_map_of_mem hs

/-- A part is in the schema that its id says. -/
theorem qualify_schema_iff {s : Schema} {id name : String}
    (hids : (m.schemas.map Schema.id).Nodup) (hnames : (m.schemas.map Schema.name).Nodup)
    (hs : s ∈ m.schemas) (h : (m.schemaName? id).isSome) :
    (m.qualify id name).schema = s.name ↔ id = s.id := by
  obtain ⟨r, hr, rfl, hname⟩ := exists_of_schemaName? h
  rw [Model.qualify, hname, Option.getD_some]
  constructor
  · intro heq
    rw [List.inj_on_of_nodup_map hnames hr hs heq]
  · intro heq
    rw [List.inj_on_of_nodup_map hids hr hs heq]

theorem trimmed_of_trim {s : String} (h : Text.trim s.toList = s.toList) : Text.trimmed s = s := by
  rw [Text.trimmed, h, String.ofList_toList]

theorem columnDefinition_outline {c : Column} (h : c.outline.toColumnDraft.Legible) :
    Ddl.columnDefinition c = c.outline.toColumnDraft.definition := by
  obtain ⟨htype, hdefault⟩ := h
  have htrim : Text.trimmed c.type = c.type := trimmed_of_trim htype.trim
  have hfilter : (c.defaultValue.map Text.trimmed).filter (· != "") = c.defaultValue := by
    cases he : c.defaultValue with
    | none => rfl
    | some e =>
      have hexcerpt := hdefault e he
      have hne : (e != "") = true := by
        rw [bne_iff_ne]
        rintro rfl
        exact hexcerpt.ne_nil rfl
      rw [Option.map_some, trimmed_of_trim hexcerpt.trim, Option.filter_some, hne]
      rfl
  rw [Ddl.columnDefinition, htrim, hfilter]
  rfl

theorem keyDefinitions_outline (columns : List Column) :
    columns.map (fun c => c.outline.toColumnDraft.definition) ++ Ddl.keyDefinitions columns =
      columnDefinitions (columns.map fun c => c.outline.toColumnDraft) := by
  rw [Ddl.keyDefinitions, columnDefinitions, primaryNames, uniqueNames]
  simp only [List.filter_map, List.map_map]
  rfl

theorem foreignKeyDefinition?_eq (m : Model) (t : Table) (name : String) (fk : ForeignKey) :
    Ddl.foreignKeyDefinition? m t name fk =
      (m.foreignKeyOutline? t fk).map fun d => { d with name }.definition := by
  rw [Ddl.foreignKeyDefinition?, Model.foreignKeyOutline?]
  cases t.column? fk.fromColumnId with
  | none => rfl
  | some source =>
    cases m.referencedTable? fk.toTableId with
    | none => rfl
    | some target =>
      simp only [Option.bind_eq_bind, Option.bind_some]
      cases target.column? fk.toColumnId <;> rfl

theorem name_foreignKeyOutline? {t : Table} {fk : ForeignKey} {d : ForeignKeyDraft}
    (h : m.foreignKeyOutline? t fk = some d) : d.name = fk.name := by
  rw [Model.foreignKeyOutline?] at h
  simp only [Option.bind_eq_bind, Option.bind_eq_some_iff, Option.pure_def, Option.some.injEq] at h
  obtain ⟨_, _, _, _, _, _, rfl⟩ := h
  rfl

theorem mem_tables_of_referencedTable? {id : String} {u : Table} (h : m.referencedTable? id = some u) :
    u ∈ m.tables :=
  List.mem_reverse.1 (List.mem_of_find?_eq_some h)

/-- A foreign key that has an outline has both its ends. -/
theorem ends_of_foreignKeyOutline? {t : Table} {fk : ForeignKey} {d : ForeignKeyDraft}
    (h : m.foreignKeyOutline? t fk = some d) :
    d.fromColumn ∈ t.columns.map Column.name ∧ ∃ u, m.referencedTable? fk.toTableId = some u ∧
      m.qualify u.schemaId u.name = d.target ∧ d.targetColumn ∈ u.columns.map Column.name := by
  obtain ⟨source, hsource, h⟩ := Option.bind_eq_some_iff.1 h
  obtain ⟨u, hu, h⟩ := Option.bind_eq_some_iff.1 h
  obtain ⟨target, htarget, h⟩ := Option.bind_eq_some_iff.1 h
  cases h
  refine ⟨List.mem_map_of_mem (List.mem_of_find?_eq_some hsource), u, hu, rfl, ?_⟩
  exact List.mem_map_of_mem (List.mem_of_find?_eq_some htarget)

/-- Names that are clean and told apart are written as they are. -/
theorem foreignKeyDefinitions_eq (m : Model) (t : Table) (used : List String)
    (fks : List ForeignKey)
    (hclean : ∀ d ∈ fks.filterMap (m.foreignKeyOutline? t), Naming.Clean d.name)
    (hfresh : ∀ d ∈ fks.filterMap (m.foreignKeyOutline? t), d.name ∉ used)
    (hnodup : ((fks.filterMap (m.foreignKeyOutline? t)).map ForeignKeyDraft.name).Nodup) :
    Ddl.foreignKeyDefinitions m t used fks =
      (fks.filterMap (m.foreignKeyOutline? t)).map ForeignKeyDraft.definition := by
  induction fks generalizing used with
  | nil => rfl
  | cons fk fks ih =>
    rw [Ddl.foreignKeyDefinitions, foreignKeyDefinition?_eq]
    cases h : m.foreignKeyOutline? t fk with
    | none =>
      rw [List.filterMap_cons_none h] at hclean hfresh hnodup ⊢
      exact ih used hclean hfresh hnodup
    | some d =>
      rw [List.filterMap_cons_some h] at hclean hfresh hnodup ⊢
      have hname := name_foreignKeyOutline? h
      have hunique : Naming.ensureUnique
          (Naming.sanitize fk.name (ForeignKey.fallbackName fk.id)) used = d.name := by
        rw [← hname, (hclean d List.mem_cons_self).sanitize_eq]
        exact Naming.ensureUnique_of_free (hfresh d List.mem_cons_self)
      rw [List.map_cons, List.nodup_cons] at hnodup
      have hmore := ih (d.name :: used) (fun e he => hclean e (List.mem_cons_of_mem d he))
        (fun e he => by
          rw [List.mem_cons, not_or]
          refine ⟨fun heq => hnodup.1 ?_, hfresh e (List.mem_cons_of_mem d he)⟩
          exact heq ▸ List.mem_map_of_mem he) hnodup.2
      rw [hunique]
      exact congrArg (d.definition :: ·) hmore

theorem commentText_eq {comment : Option String} (h : comment ≠ some "") :
    Ddl.commentText comment = comment := by
  cases comment with
  | none => rfl
  | some text =>
    have hne : (text != "") = true := by
      rw [bne_iff_ne]
      rintro rfl
      exact h rfl
    rw [Ddl.commentText, Option.filter_some, hne]
    rfl

theorem tableBlock_outline {schema : String} {t : Table} (h : (m.tableOutlineIn schema t).Legible) :
    Ddl.tableBlock m schema t = (m.tableOutlineIn schema t).block := by
  have hcolumns : t.columns.map Ddl.columnDefinition =
      t.columns.map fun c => c.outline.toColumnDraft.definition := by
    refine List.map_congr_left fun c hc => columnDefinition_outline (h.columns _ ?_)
    exact List.mem_map_of_mem (List.mem_map_of_mem hc)
  have hdrafts : (m.tableOutlineIn schema t).drafts = t.columns.map fun c => c.outline.toColumnDraft := by
    rw [TableOutline.drafts, Model.tableOutlineIn, Model.tableOutline, List.map_map]
    rfl
  have hfks := foreignKeyDefinitions_eq m t [] t.foreignKeys h.clean (fun _ _ => List.not_mem_nil)
    h.constraints
  have hdefinitions : Ddl.tableDefinitions m t = (m.tableOutlineIn schema t).definitions := by
    rw [Ddl.tableDefinitions, hcolumns, keyDefinitions_outline, hfks, TableOutline.definitions, hdrafts]
    rfl
  have hcomments : (t.columns.filterMap fun c => (Ddl.commentText c.comment).map
        (Ddl.Statement.commentOnColumn (m.tableOutlineIn schema t).key c.name)) =
      (m.tableOutlineIn schema t).columns.filterMap fun c =>
        c.comment.map (Ddl.Statement.commentOnColumn (m.tableOutlineIn schema t).key c.name) := by
    rw [show (m.tableOutlineIn schema t).columns = t.columns.map Column.outline from rfl, List.filterMap_map]
    refine List.filterMap_congr fun c hc => ?_
    have hcomment : Ddl.commentText c.comment = c.comment :=
      commentText_eq (h.columnComments c.outline (List.mem_map_of_mem hc))
    rw [hcomment]
    rfl
  have hcomment := commentText_eq h.comment
  rw [TableOutline.block, TableOutline.comments, ← hdefinitions, ← hcomments, ← hcomment]
  rfl

theorem map_name_sortedSchemas (m : Model) :
    m.sortedSchemas.map Schema.name = m.declared.sorted.schemas :=
  Model.map_sortedByName fun _ _ => rfl

theorem schemaBlocks_map_name (ss : List Schema) :
    ss.filterMap Ddl.schemaBlock? = Outline.schemaBlocks (ss.map Schema.name) := by
  induction ss with
  | nil => rfl
  | cons s ss ih =>
    rw [List.filterMap_cons, ih, Ddl.schemaBlock?, Outline.schemaBlocks, Outline.schemaBlocks]
    by_cases hs : s.name = defaultSchema <;> simp [hs]

section Declared

variable {s : Schema}

theorem mem_typesIn {o : TypeDraft} : o ∈ m.typesIn s ↔
    ∃ t ∈ m.types, t.schemaId = s.id ∧ (⟨⟨s.name, t.name⟩, t.values⟩ : TypeDraft) = o := by
  rw [Model.typesIn, List.mem_map]
  simp only [List.mem_filter, beq_iff_eq, and_assoc]

theorem mem_tablesIn {o : TableOutline} : o ∈ m.tablesIn s ↔
    ∃ t ∈ m.tables, t.schemaId = s.id ∧ m.tableOutlineIn s.name t = o := by
  rw [Model.tablesIn, List.mem_map]
  simp only [List.mem_filter, beq_iff_eq, and_assoc]

theorem schema_of_mem_typesIn {o : TypeDraft} (ho : o ∈ m.typesIn s) : o.key.schema = s.name := by
  obtain ⟨t, -, -, rfl⟩ := mem_typesIn.1 ho
  rfl

theorem schema_of_mem_tablesIn {o : TableOutline} (ho : o ∈ m.tablesIn s) :
    o.key.schema = s.name := by
  obtain ⟨t, -, -, rfl⟩ := mem_tablesIn.1 ho
  rfl

section Names

variable (hnames : (m.schemas.map Schema.name).Nodup) (hs : s ∈ m.schemas)

include hnames hs

theorem typesOf_declared : m.declared.typesOf s.name = m.typesIn s :=
  group_flatMap hnames m.typesIn (fun _ _ _ ho => schema_of_mem_typesIn ho) hs

theorem tablesOf_declared :
    m.declared.tablesOf s.name = Model.sortedByName (fun t => t.key.name) (m.tablesIn s) :=
  congrArg _ (group_flatMap hnames m.tablesIn (fun _ _ _ ho => schema_of_mem_tablesIn ho) hs)

end Names

section Legible

variable (h : m.declared.Legible) (hs : s ∈ m.schemas)

include h hs

theorem typeBlocks_declared :
    Ddl.typeBlocks m s = (m.declared.typesOf s.name).map fun t => [.createType t.key t.values] := by
  rw [typesOf_declared h.schemas hs, Model.typesIn, List.map_map, Ddl.typeBlocks,
    ← List.filterMap_eq_map]
  refine List.filterMap_congr fun t ht => ?_
  obtain ⟨ht, hid⟩ := List.mem_filter.1 ht
  have hmem : (⟨⟨s.name, t.name⟩, t.values⟩ : TypeDraft) ∈ m.declared.types :=
    List.mem_flatMap.2 ⟨s, hs, mem_typesIn.2 ⟨t, ht, by simpa using hid, rfl⟩⟩
  have hvalues : t.values.isEmpty = false := List.isEmpty_eq_false_iff.2 (h.values _ hmem)
  rw [Ddl.typeBlock?, hvalues]
  rfl

theorem tableBlocks_declared :
    Ddl.tableBlocks m s = (m.declared.tablesOf s.name).map TableOutline.block := by
  have hsorted : Model.sortedByName (fun t => t.key.name) (m.tablesIn s) = (Model.sortedByName Table.name
      (m.tables.filter fun t => t.schemaId == s.id)).map (m.tableOutlineIn s.name) :=
    (Model.map_sortedByName fun _ _ => rfl).symm
  rw [tablesOf_declared h.schemas hs, hsorted, List.map_map, Ddl.tableBlocks]
  refine List.map_congr_left fun t ht => ?_
  obtain ⟨ht, hid⟩ := List.mem_filter.1 ((Model.perm_sortedByName _ _).mem_iff.1 ht)
  have hmem : m.tableOutlineIn s.name t ∈ m.declared.tables :=
    List.mem_flatMap.2 ⟨s, hs, mem_tablesIn.2 ⟨t, ht, by simpa using hid, rfl⟩⟩
  exact tableBlock_outline (h.each _ hmem)

end Legible

/-- A model generates the script of what it declares, in sorted order. -/
theorem blocks_eq_script (h : m.declared.Legible) : Ddl.blocks m = m.declared.sorted.script := by
  have hmem (s : Schema) (hs : s ∈ m.sortedSchemas) : s ∈ m.schemas :=
    (Model.perm_sortedByName _ _).mem_iff.1 hs
  have htypes : m.sortedSchemas.flatMap (Ddl.typeBlocks m) =
      m.declared.sorted.types.map fun t => [.createType t.key t.values] := by
    have hsorted : m.declared.sorted.types =
      (m.sortedSchemas.map Schema.name).flatMap m.declared.typesOf := by
        rw [map_name_sortedSchemas]
        rfl
    rw [hsorted, List.map_flatMap, List.flatMap_map]
    exact List.flatMap_congr fun s hs => typeBlocks_declared h (hmem s hs)
  have htables : m.sortedSchemas.flatMap (Ddl.tableBlocks m) =
      m.declared.sorted.tables.map TableOutline.block := by
    have hsorted : m.declared.sorted.tables =
      (m.sortedSchemas.map Schema.name).flatMap m.declared.tablesOf := by
        rw [map_name_sortedSchemas]
        rfl
    rw [hsorted, List.map_flatMap, List.flatMap_map]
    exact List.flatMap_congr fun s hs => tableBlocks_declared h (hmem s hs)
  rw [Ddl.blocks, Outline.script, schemaBlocks_map_name, map_name_sortedSchemas]
  exact congrArg₂ _ (congrArg _ htypes) htables

section DistinctIds

variable (hids : (m.schemas.map Schema.id).Nodup) (hnames : (m.schemas.map Schema.name).Nodup)
  (hhoused : m.Housed)

include hids hnames hhoused

theorem typesIn_eq (hs : s ∈ m.schemas) : m.typesIn s = m.outline.typesOf s.name := by
  have hschema (t : EnumType) (ht : t ∈ m.types) :
      (m.typeOutline t).key.schema = s.name ↔ t.schemaId = s.id :=
    qualify_schema_iff hids hnames hs (hhoused.types t ht)
  have hfilter : (m.types.filter fun t => (m.typeOutline t).key.schema == s.name) =
      m.types.filter fun t => t.schemaId == s.id :=
    List.filter_congr fun t ht => by rw [Bool.eq_iff_iff, beq_iff_eq, beq_iff_eq, hschema t ht]
  rw [Outline.typesOf, group, Model.outline, List.filter_map, Function.comp_def, hfilter, Model.typesIn]
  refine List.map_congr_left fun t ht => ?_
  obtain ⟨ht, hid⟩ := List.mem_filter.1 ht
  rw [← (hschema t ht).2 (by simpa using hid)]
  rfl

theorem tablesIn_eq (hs : s ∈ m.schemas) :
    m.tablesIn s = group (fun t => t.key.schema) m.outline.tables s.name := by
  have hschema (t : Table) (ht : t ∈ m.tables) :
      (m.tableOutline t).key.schema = s.name ↔ t.schemaId = s.id :=
    qualify_schema_iff hids hnames hs (hhoused.tables t ht)
  have hfilter : (m.tables.filter fun t => (m.tableOutline t).key.schema == s.name) =
      m.tables.filter fun t => t.schemaId == s.id :=
    List.filter_congr fun t ht => by rw [Bool.eq_iff_iff, beq_iff_eq, beq_iff_eq, hschema t ht]
  rw [group, Model.outline, List.filter_map, Function.comp_def, hfilter, Model.tablesIn]
  refine List.map_congr_left fun t ht => ?_
  obtain ⟨ht, hid⟩ := List.mem_filter.1 ht
  rw [Model.tableOutlineIn, ← (hschema t ht).2 (by simpa using hid)]
  rfl

/-- With distinct schema ids, what a model declares is its outline. -/
theorem similar_declared : m.declared.Similar m.outline := by
  refine ⟨.rfl, fun schema => ?_, ?_⟩
  · by_cases hmem : schema ∈ m.schemas.map Schema.name
    · obtain ⟨s, hs, rfl⟩ := List.mem_map.1 hmem
      rw [typesOf_declared hnames hs, typesIn_eq hids hnames hhoused hs]
    · have hdeclared : m.declared.typesOf schema = [] := by
        refine group_eq_nil fun o ho hschema => hmem ?_
        obtain ⟨s, hs, ho⟩ := List.mem_flatMap.1 ho
        rw [← hschema, schema_of_mem_typesIn ho]
        exact List.mem_map_of_mem hs
      have houtline : m.outline.typesOf schema = [] := by
        refine group_eq_nil fun o ho hschema => hmem ?_
        obtain ⟨t, ht, rfl⟩ := List.mem_map.1 ho
        rw [← hschema]
        exact mem_schemas_of_schemaName? (hhoused.types t ht) t.name
      rw [hdeclared, houtline]
  · have htables : m.declared.tables = (m.schemas.map Schema.name).flatMap
        (group (fun t => t.key.schema) m.outline.tables) := by
      rw [List.flatMap_map]
      exact List.flatMap_congr fun s hs => tablesIn_eq hids hnames hhoused hs
    rw [htables]
    refine perm_flatMap_group hnames fun o ho => ?_
    obtain ⟨t, ht, rfl⟩ := List.mem_map.1 ho
    exact mem_schemas_of_schemaName? (hhoused.tables t ht) t.name

end DistinctIds

end Declared

end Blocks

end SchemaDdl
