import SchemaDdl.Proofs.Check.Faultless
import SchemaDdl.Proofs.Outline.RoundTrip

/-!
# Models that were built by hand

A script keeps of a model what it means and drops how that was written: white space around types and
defaults, blank defaults, empty comments, constraint names that are not in snake case, and foreign
keys without a source. Apart from that, a model without errors is read back from its script.
-/

namespace SchemaDdl

open Script

/-! ## What a script keeps -/

def Column.scripted (c : Column) : Column :=
  { c with
    type := Text.trimmed c.type
    defaultValue := (c.defaultValue.map Text.trimmed).filter (· != "")
    comment := Ddl.commentText c.comment }

def ForeignKey.scripted (fk : ForeignKey) : ForeignKey :=
  { fk with name := Check.sanitizedName fk }

/-- The foreign keys that have their source, as only these are written. -/
def Table.sourcedForeignKeys (t : Table) : List ForeignKey :=
  t.foreignKeys.filter fun fk => (t.column? fk.fromColumnId).isSome

def Table.scripted (t : Table) : Table :=
  { t with
    comment := Ddl.commentText t.comment
    columns := t.columns.map Column.scripted
    foreignKeys := t.sourcedForeignKeys.map ForeignKey.scripted }

/-- The model as its script means it. -/
def Model.scripted (m : Model) : Model :=
  m.mapTables Table.scripted

namespace Column

variable (c : Column)

@[simp] theorem id_scripted : c.scripted.id = c.id := by
  rw [scripted]

@[simp] theorem name_scripted : c.scripted.name = c.name := by
  rw [scripted]

@[simp] theorem nullable_scripted : c.scripted.nullable = c.nullable := by
  rw [scripted]

@[simp] theorem isPrimaryKey_scripted : c.scripted.isPrimaryKey = c.isPrimaryKey := by
  rw [scripted]

@[simp] theorem isUnique_scripted : c.scripted.isUnique = c.isUnique := by
  rw [scripted]

@[simp] theorem comment_scripted : c.scripted.comment = Ddl.commentText c.comment := by
  rw [scripted]

end Column

theorem keepsReferences_scripted : KeepsReferences Table.scripted Column.scripted := by
  constructor
  · exact fun _ => rfl
  · exact fun _ => rfl
  · exact fun _ => rfl
  · exact fun _ => rfl
  · exact Column.id_scripted
  · exact Column.name_scripted

section Scripted

variable (m : Model) (t : Table)

theorem trimmed_trimmed (s : String) : Text.trimmed (Text.trimmed s) = Text.trimmed s := by
  apply trimmed_of_trim
  rw [Text.trimmed, String.toList_ofList, Text.trim_trim]

theorem commentText_commentText (comment : Option String) :
    Ddl.commentText (Ddl.commentText comment) = Ddl.commentText comment := by
  rw [Ddl.commentText, Ddl.commentText, Option.filter_filter]
  simp

theorem columnDefinition_scripted (c : Column) :
    Ddl.columnDefinition c.scripted = Ddl.columnDefinition c := by
  have hdefault : ((c.scripted.defaultValue.map Text.trimmed).filter (· != "")) =
      c.scripted.defaultValue := by
    rw [Column.scripted]
    cases c.defaultValue with
    | none => rfl
    | some e =>
      rw [Option.map_some, Option.filter_some]
      by_cases he : Text.trimmed e = ""
      · rw [he]
        rfl
      · have hne : (Text.trimmed e != "") = true := bne_iff_ne.2 he
        rw [if_pos hne, Option.map_some, trimmed_trimmed, Option.filter_some, if_pos hne]
  rw [Ddl.columnDefinition, hdefault, Ddl.columnDefinition]
  simp only [Column.scripted, trimmed_trimmed]

theorem keyDefinitions_scripted (cs : List Column) :
    Ddl.keyDefinitions (cs.map Column.scripted) = Ddl.keyDefinitions cs := by
  have hkey : Column.isPrimaryKey ∘ Column.scripted = Column.isPrimaryKey :=
    funext Column.isPrimaryKey_scripted
  have hname : Column.name ∘ Column.scripted = Column.name := funext Column.name_scripted
  have hunique : ((fun c : Column => c.isUnique && !c.isPrimaryKey) ∘ Column.scripted) =
      fun c => c.isUnique && !c.isPrimaryKey := by
    funext c
    rw [Function.comp_apply, Column.isUnique_scripted, Column.isPrimaryKey_scripted]
  rw [Ddl.keyDefinitions, Ddl.keyDefinitions]
  simp only [List.filter_map, List.map_map, hkey, hname, hunique, Function.comp_def,
    Column.name_scripted]

theorem foreignKeyOutline?_rename (fk : ForeignKey) (name : String) :
    m.foreignKeyOutline? t { fk with name } =
      (m.foreignKeyOutline? t fk).map fun d => { d with name } := by
  rw [Model.foreignKeyOutline?, Model.foreignKeyOutline?]
  cases t.column? fk.fromColumnId with
  | none => rfl
  | some source =>
    cases m.referencedTable? fk.toTableId with
    | none => rfl
    | some target =>
      simp only [Option.bind_eq_bind, Option.bind_some]
      cases target.column? fk.toColumnId <;> rfl

theorem foreignKeyOutline?_scripted (fk : ForeignKey) :
    m.scripted.foreignKeyOutline? t.scripted fk.scripted =
      (m.foreignKeyOutline? t fk).map fun d => { d with name := Check.sanitizedName fk } := by
  rw [Model.scripted, keepsReferences_scripted.foreignKeyOutline?]
  exact foreignKeyOutline?_rename m t fk _

theorem foreignKeyDefinition?_scripted (name : String) (fk : ForeignKey) :
    Ddl.foreignKeyDefinition? m.scripted t.scripted name fk.scripted =
      Ddl.foreignKeyDefinition? m t name fk := by
  rw [foreignKeyDefinition?_eq, foreignKeyDefinition?_eq, foreignKeyOutline?_scripted, Option.map_map]
  rfl

theorem foreignKeyDefinition?_eq_none {fk : ForeignKey}
    (h : (t.column? fk.fromColumnId).isSome = false) (name : String) :
    Ddl.foreignKeyDefinition? m t name fk = none := by
  rw [Ddl.foreignKeyDefinition?]
  cases hsource : t.column? fk.fromColumnId with
  | none => rfl
  | some source =>
    rw [hsource] at h
    cases h

/-- Foreign keys without a source take up no name, and sanitized names stay as they are. -/
theorem foreignKeyDefinitions_scripted (used : List String) (fks : List ForeignKey) :
    Ddl.foreignKeyDefinitions m.scripted t.scripted used
        ((fks.filter fun fk => (t.column? fk.fromColumnId).isSome).map ForeignKey.scripted) =
      Ddl.foreignKeyDefinitions m t used fks := by
  induction fks generalizing used with
  | nil => rfl
  | cons fk fks ih =>
    rw [Ddl.foreignKeyDefinitions, List.filter_cons]
    by_cases hsource : (t.column? fk.fromColumnId).isSome = true
    · have hname : Naming.sanitize fk.scripted.name (ForeignKey.fallbackName fk.scripted.id) =
          Naming.sanitize fk.name (ForeignKey.fallbackName fk.id) :=
        (Naming.clean_sanitize _ _).sanitize_eq _
      rw [if_pos hsource, List.map_cons, Ddl.foreignKeyDefinitions, hname,
        foreignKeyDefinition?_scripted]
      simp only [ih]
    · have hnone := foreignKeyDefinition?_eq_none m t (by simpa using hsource)
      rw [if_neg hsource, ih, hnone]

theorem tableBlock_scripted (schema : String) :
    Ddl.tableBlock m.scripted schema t.scripted = Ddl.tableBlock m schema t := by
  have hcolumns : (t.columns.map Column.scripted).map Ddl.columnDefinition =
      t.columns.map Ddl.columnDefinition := by
    rw [List.map_map]
    exact List.map_congr_left fun c _ => columnDefinition_scripted c
  have hdefinitions : Ddl.tableDefinitions m.scripted t.scripted = Ddl.tableDefinitions m t := by
    have hfks := foreignKeyDefinitions_scripted m t [] t.foreignKeys
    rw [Ddl.tableDefinitions, Ddl.tableDefinitions, ← hfks, ← hcolumns,
      ← keyDefinitions_scripted t.columns]
    rfl
  have hcomments : (t.scripted.columns.filterMap fun c => (Ddl.commentText c.comment).map
        (Ddl.Statement.commentOnColumn ⟨schema, t.name⟩ c.name)) =
      t.columns.filterMap fun c => (Ddl.commentText c.comment).map
        (Ddl.Statement.commentOnColumn ⟨schema, t.name⟩ c.name) := by
    rw [Table.scripted, List.filterMap_map]
    refine List.filterMap_congr fun c _ => ?_
    rw [Function.comp_apply, Column.comment_scripted, Column.name_scripted, commentText_commentText]
  rw [Ddl.tableBlock, Ddl.tableBlock, hdefinitions]
  simp only [← hcomments]
  change _ :: ((Ddl.commentText (Ddl.commentText t.comment)).toList.map _ ++ _) = _
  rw [commentText_commentText]
  rfl

/-- What a script drops changes no script. -/
theorem generate_scripted : Ddl.generate m.scripted = Ddl.generate m := by
  have htables : m.scripted.sortedSchemas.flatMap (Ddl.tableBlocks m.scripted) =
      m.sortedSchemas.flatMap (Ddl.tableBlocks m) := by
    have hplacements : m.scripted.placements = m.placements.map fun p => (p.1, p.2.scripted) :=
      keepsReferences_scripted.placements m
    rw [flatMap_tableBlocks, flatMap_tableBlocks, hplacements, List.map_map]
    exact List.map_congr_left fun p _ => tableBlock_scripted m p.2 p.1.name
  rw [Ddl.generate, Ddl.generate, Ddl.blocks, Ddl.blocks, htables]
  rfl

end Scripted

/-! ## Foreign keys as they are written -/

namespace Model

/-- Both ends of the foreign key are there. -/
def resolves (m : Model) (t : Table) (fk : ForeignKey) : Bool :=
  (m.foreignKeyOutline? t fk).isSome

section Written

variable {m : Model} {t : Table}

/-- The definitions of those foreign keys that have an outline. -/
def writtenKeys (m : Model) (t : Table) (fks : List ForeignKey) : List Ddl.Definition :=
  (fks.filterMap (m.foreignKeyOutline? t)).map Script.ForeignKeyDraft.definition

theorem writtenKeys_cons_some {fk : ForeignKey} {d : Script.ForeignKeyDraft}
    (h : m.foreignKeyOutline? t fk = some d) (fks : List ForeignKey) :
    m.writtenKeys t (fk :: fks) = d.definition :: m.writtenKeys t fks := by
  rw [writtenKeys, List.filterMap_cons_some h, List.map_cons]
  rfl

/-- A script tells the names apart of those foreign keys that it writes. -/
theorem foreignKeyDefinitions_eq_writtenKeys (used : List String) (fks : List ForeignKey) :
    Ddl.foreignKeyDefinitions m t used fks =
      m.writtenKeys t (ForeignKey.withFreshNames used (fks.filter (m.resolves t))) := by
  induction fks generalizing used with
  | nil => rfl
  | cons fk fks ih =>
    rw [Ddl.foreignKeyDefinitions, foreignKeyDefinition?_eq, List.filter_cons, resolves]
    cases h : m.foreignKeyOutline? t fk with
    | none => exact ih used
    | some d =>
      simp only [Option.map_some, Option.isSome_some, if_true, ForeignKey.withFreshNames]
      rw [writtenKeys_cons_some (by rw [foreignKeyOutline?_rename, h]; rfl), ← ih]

end Written

end Model

/-! ## Models without errors -/

/-- Type and default read back as they are written, white space around them aside. -/
structure Column.Readable (c : Column) : Prop where
  type : ∃ ls, TypeExcerpt (Text.trimmed c.type).toList ls
  default : ∀ e ∈ c.defaultValue,
    Text.trimmed e = "" ∨ ∃ ls, DefaultExcerpt (Text.trimmed e).toList ls

theorem lexed_of_lexemes {s : String} {ls : List Lexeme} (h : lexemes s.toList = .ok (ls, [])) :
    Ddl.lexed s = ls := by
  rw [Ddl.lexed, h]

theorem Column.Readable.legible {c : Column} (h : c.Readable) :
    c.scripted.outline.toColumnDraft.Legible := by
  obtain ⟨⟨ls, htype⟩, hdefault⟩ := h
  constructor
  · change TypeExcerpt (Text.trimmed c.type).toList (Ddl.lexed (Text.trimmed c.type))
    rwa [lexed_of_lexemes htype.read]
  · intro e he
    obtain ⟨hmem, hne⟩ := Option.mem_filter_iff.1 he
    obtain ⟨raw, hraw, rfl⟩ := Option.map_eq_some_iff.1 hmem
    rcases hdefault raw hraw with hempty | ⟨ls, hexcerpt⟩
    · rw [hempty] at hne
      cases hne
    · rwa [lexed_of_lexemes hexcerpt.read]

/-- A type of one word is read back as it is written, unless a clause starts with that word. -/
theorem typeExcerpt_word {w : String} (hword : Ddl.isWord w = true)
    (hclause : startsClause (Ddl.keyword [] w) = false) : TypeExcerpt w.toList [Ddl.keyword [] w] where
  read := by
    have hchain : Chain [Ddl.keyword [] w] [] :=
      (Ddl.detached_nil).after (Ddl.whole_keyword .nil hword)
    refine lexemes_eq_ok_iff.2 ⟨?_, hchain, .closed .nil⟩
    simp [written, Ddl.keyword]
  flush := ⟨_, _, rfl, rfl⟩
  level := ⟨⟨rfl, rfl⟩, rfl⟩
  noClause := ⟨fun _ => hclause, trivial⟩

theorem Column.readable_of_word {c : Column} {w : String} (htype : Text.trimmed c.type = w)
    (hword : Ddl.isWord w = true) (hclause : startsClause (Ddl.keyword [] w) = false)
    (hdefault : c.defaultValue = none) : c.Readable := by
  constructor
  · rw [htype]
    exact ⟨_, typeExcerpt_word hword hclause⟩
  · rw [hdefault]
    exact nofun

theorem commentText_ne_some_empty (comment : Option String) :
    Ddl.commentText comment ≠ some "" := by
  intro h
  obtain ⟨-, hne⟩ := Option.mem_filter_iff.1 h
  cases hne

section TableOutlineIn

variable (m : Model) (schema : String) (t : Table)

theorem map_name_drafts :
    (m.tableOutlineIn schema t).drafts.map ColumnDraft.name = t.columns.map Column.name := by
  rw [TableOutline.drafts, Model.tableOutlineIn, Model.tableOutline, List.map_map, List.map_map]
  rfl

theorem columns_tableOutlineIn_scripted :
    (m.scripted.tableOutlineIn schema t.scripted).columns = t.columns.map fun c => c.scripted.outline :=
  List.map_map

theorem drafts_tableOutlineIn_scripted :
    (m.scripted.tableOutlineIn schema t.scripted).drafts =
      t.columns.map fun c => c.scripted.outline.toColumnDraft := by
  rw [TableOutline.drafts, columns_tableOutlineIn_scripted, List.map_map]
  rfl

end TableOutlineIn

theorem isSome_schemaName?_of_hasSchema {m : Model} {id : String}
    (h : Check.hasSchema m id = true) : (m.schemaName? id).isSome := by
  obtain ⟨s, hs, hsid⟩ := List.any_eq_true.1 h
  rw [← beq_iff_eq.1 hsid]
  exact isSome_schemaName? hs

theorem exists_of_mem_declared_scripted {m : Model} {o : TableOutline}
    (ho : o ∈ m.scripted.declared.tables) :
    ∃ schema, ∃ t ∈ m.tables, m.scripted.tableOutlineIn schema t.scripted = o := by
  obtain ⟨s, -, ho⟩ := List.mem_flatMap.1 ho
  obtain ⟨t', ht', -, rfl⟩ := mem_tablesIn.1 ho
  obtain ⟨t, ht, rfl⟩ := List.mem_map.1 ht'
  exact ⟨s.name, t, ht, rfl⟩

section Valid

variable {m : Model} (h : Check.hasErrors (Check.validate m) = false)

include h

theorem linked_scripted : m.scripted.Linked := by
  constructor
  · constructor
    · exact fun t ht => isSome_schemaName?_of_hasSchema (Check.hasSchema_of_type h ht)
    · intro t ht
      obtain ⟨u, hu, rfl⟩ := List.mem_map.1 ht
      have hschema := isSome_schemaName?_of_hasSchema (Check.hasSchema_of_table h hu)
      exact hschema
  · intro t ht fk hfk
    obtain ⟨u, hu, rfl⟩ := List.mem_map.1 ht
    obtain ⟨raw, hraw, rfl⟩ := List.mem_map.1 hfk
    obtain ⟨hmem, hsourced⟩ := List.mem_filter.1 hraw
    obtain ⟨source, hsource⟩ := Option.isSome_iff_exists.1 hsourced
    obtain ⟨target, htarget, c, hc⟩ := Check.exists_target h hu hmem
    rw [foreignKeyOutline?_scripted, Option.isSome_map, Model.foreignKeyOutline?, hsource]
    simp only [Option.bind_eq_bind, Option.bind_some, htarget, hc]
    rfl

/-- No two tables come to stand under one name, even if schemas share an id. -/
theorem nodup_placedKeys :
    (m.schemas.flatMap fun s => (m.tables.filter fun t => t.schemaId == s.id).map fun t =>
      (⟨s.name, t.name⟩ : QualifiedName)).Nodup := by
  have hnames := List.pairwise_map.1 (Check.nodup_schemaNames h)
  have htables := List.pairwise_map.1 (Check.nodup_tableNames h)
  rw [List.nodup_flatMap]
  constructor
  · intro s _
    have hin : (m.tables.filter fun t => t.schemaId == s.id).Pairwise fun t u => t.name ≠ u.name := by
      refine (htables.filter _).imp_of_mem fun {t u} ht hu hne hname => hne ?_
      have hid : t.schemaId = u.schemaId :=
        (beq_iff_eq.1 (List.mem_filter.1 ht).2).trans (beq_iff_eq.1 (List.mem_filter.1 hu).2).symm
      rw [hid, hname]
    rw [List.Nodup, List.pairwise_map]
    exact hin.imp fun hne heq => hne (congrArg QualifiedName.name heq)
  · refine hnames.imp fun {s r} hne => ?_
    intro key hs hr
    obtain ⟨t, -, rfl⟩ := List.mem_map.1 hs
    obtain ⟨u, -, hkey⟩ := List.mem_map.1 hr
    exact hne (congrArg QualifiedName.schema hkey).symm

/-- No table is declared twice, even if schemas share an id. -/
theorem nodup_keys : (m.scripted.declared.tables.map TableOutline.key).Nodup := by
  have hmap (s : Schema) : (m.scripted.tablesIn s).map TableOutline.key =
      (m.tables.filter fun t => t.schemaId == s.id).map fun t => ⟨s.name, t.name⟩ := by
    rw [Model.tablesIn, Model.scripted, Model.mapTables, List.filter_map, List.map_map, List.map_map]
    rfl
  rw [Model.declared, List.map_flatMap, List.flatMap_congr fun s _ => hmap s]
  exact nodup_placedKeys h

theorem legible_tableOutline_scripted {t : Table} (ht : t ∈ m.tables)
    (hnames : (t.columns.map Column.name).Nodup) (htexts : ∀ c ∈ t.columns, c.Readable)
    (schema : String) : (m.scripted.tableOutlineIn schema t.scripted).Legible := by
  have hfk {d : ForeignKeyDraft} (hd : d ∈ (m.scripted.tableOutline t.scripted).foreignKeys) :
      ∃ fk ∈ t.foreignKeys, d.name = Check.sanitizedName fk ∧
        m.scripted.foreignKeyOutline? t.scripted fk.scripted = some d := by
    obtain ⟨fk', hfk', hd⟩ := List.mem_filterMap.1 hd
    obtain ⟨fk, hfk, rfl⟩ := List.mem_map.1 hfk'
    exact ⟨fk, (List.mem_filter.1 hfk).1, name_foreignKeyOutline? hd, hd⟩
  constructor
  · intro d hd
    rw [drafts_tableOutlineIn_scripted] at hd
    obtain ⟨c, hc, rfl⟩ := List.mem_map.1 hd
    exact (htexts c hc).legible
  · exact commentText_ne_some_empty t.comment
  · intro o ho
    rw [columns_tableOutlineIn_scripted] at ho
    obtain ⟨c, -, rfl⟩ := List.mem_map.1 ho
    exact commentText_ne_some_empty c.comment
  · rw [columns_tableOutlineIn_scripted, List.pairwise_map]
    refine (List.pairwise_map.1 hnames).imp fun {a b} hne _ => ?_
    rwa [Column.name_outline, Column.name_outline, Column.name_scripted, Column.name_scripted]
  · have hsanitized := List.pairwise_map.1 (Check.nodup_sanitizedNames h ht)
    change (((t.sourcedForeignKeys.map ForeignKey.scripted).filterMap
      (m.scripted.foreignKeyOutline? t.scripted)).map ForeignKeyDraft.name).Nodup
    rw [List.Nodup, List.pairwise_map, List.pairwise_filterMap, List.pairwise_map]
    refine (hsanitized.filter _).imp fun hne d hd d' hd' => ?_
    rwa [name_foreignKeyOutline? hd, name_foreignKeyOutline? hd', ForeignKey.scripted,
      ForeignKey.scripted]
  · intro d hd
    obtain ⟨fk, -, hname, -⟩ := hfk hd
    rw [hname]
    exact Naming.clean_sanitize _ _
  · intro d hd
    obtain ⟨fk, -, -, hd⟩ := hfk hd
    exact (map_name_drafts m.scripted schema t.scripted).symm ▸ (ends_of_foreignKeyOutline? hd).1

section Texts

variable (hnames : ∀ t ∈ m.tables, (t.columns.map Column.name).Nodup)
  (htexts : ∀ t ∈ m.tables, ∀ c ∈ t.columns, c.Readable)

include hnames htexts

/-- The script of a model without errors declares something that can be read back. -/
theorem legible_declared_scripted : m.scripted.declared.Legible := by
  have hlinked := linked_scripted h
  have hschemas := Check.nodup_schemaNames h
  refine ⟨⟨hschemas, ?_, ?_, nodup_keys h⟩, ?_, ?_, ?_⟩
  · intro o ho
    obtain ⟨s, hs, ho⟩ := List.mem_flatMap.1 ho
    rw [schema_of_mem_typesIn ho]
    exact List.mem_map_of_mem hs
  · intro o ho
    obtain ⟨s, hs, ho⟩ := List.mem_flatMap.1 ho
    rw [schema_of_mem_tablesIn ho]
    exact List.mem_map_of_mem hs
  · intro o ho
    obtain ⟨s, -, ho⟩ := List.mem_flatMap.1 ho
    obtain ⟨t, ht, -, rfl⟩ := mem_typesIn.1 ho
    exact Check.values_ne_nil h ht
  · intro o ho
    obtain ⟨schema, t, ht, rfl⟩ := exists_of_mem_declared_scripted ho
    exact legible_tableOutline_scripted h ht (hnames t ht) (htexts t ht) schema
  · intro o ho d hd
    obtain ⟨schema, t, ht, rfl⟩ := exists_of_mem_declared_scripted ho
    obtain ⟨fk, -, hd⟩ := List.mem_filterMap.1 hd
    obtain ⟨-, u, hu, hkey, hcolumn⟩ := ends_of_foreignKeyOutline? hd
    have hu := mem_tables_of_referencedTable? hu
    -- Of the schemas that the target stands in, the reference names the last.
    obtain ⟨s, hs, hid, hname⟩ := exists_of_schemaName? (hlinked.tables u hu)
    refine ⟨m.scripted.tableOutlineIn s.name u, ?_, ?_, ?_⟩
    · exact List.mem_flatMap.2 ⟨s, hs, mem_tablesIn.2 ⟨u, hu, hid.symm, rfl⟩⟩
    · rw [← hkey, Model.qualify, hname]
      rfl
    · rwa [map_name_drafts]

omit hnames htexts in
theorem keyed_declared_scripted : ∀ o ∈ m.scripted.declared.tables, ∀ c ∈ o.drafts, c.Keyed false := by
  intro o ho d hd
  obtain ⟨schema, t, ht, rfl⟩ := exists_of_mem_declared_scripted ho
  rw [drafts_tableOutlineIn_scripted] at hd
  obtain ⟨c, hc, rfl⟩ := List.mem_map.1 hd
  have hstrong := Check.strong_primaryKey h ht hc
  rw [← c.isPrimaryKey_scripted, ← c.isUnique_scripted, ← c.nullable_scripted] at hstrong
  exact ⟨hstrong, fun hinfer => by cases hinfer⟩

/-- A model without errors means something that can be read back. -/
theorem rereadable_scripted (hids : (m.schemas.map Schema.id).Nodup) :
    m.scripted.Rereadable false := by
  have hhoused := (linked_scripted h).toHoused
  have hlegible := legible_declared_scripted h hnames htexts
  have hsimilar : m.scripted.declared.Similar m.scripted.outline :=
    similar_declared hids hlegible.schemas hhoused
  refine ⟨hids, hhoused, hsimilar.legible hlegible, fun o ho c hc => ?_⟩
  exact keyed_declared_scripted h o (hsimilar.tables.mem_iff.2 ho) c hc

end Texts

end Valid

/-- A model without errors whose texts can be read is read back from its script as what it means,
with all its structure. Whatever is a string is free to hold anything. -/
theorem parse_generate_of_valid {ids : Ids} (hids : ids.Distinct) {m : Model}
    (hvalid : Check.hasErrors (Check.validate m) = false) (hschemas : (m.schemas.map Schema.id).Nodup)
    (hnames : ∀ t ∈ m.tables, (t.columns.map Column.name).Nodup)
    (htexts : ∀ t ∈ m.tables, ∀ c ∈ t.columns, c.Readable) :
    ∃ m', parse ids { strict := true, inferId := false } (Ddl.generate m) = .ok m' ∧
      m.scripted.Linked ∧ m'.Linked ∧ m'.outline.Similar m.scripted.outline.withDefault := by
  have hre := rereadable_scripted hvalid hnames htexts hschemas
  have hnames' (t : Table) (ht : t ∈ m.scripted.tables) : (t.columns.map Column.name).Nodup := by
    obtain ⟨u, hu, rfl⟩ := List.mem_map.1 ht
    rw [keepsReferences_scripted.columns, List.map_map,
      show Column.name ∘ Column.scripted = Column.name from funext Column.name_scripted]
    exact hnames u hu
  obtain ⟨m', hm', hlinked, hsimilar⟩ :=
    hre.exists_parse_similar hnames' hids { strict := true, inferId := false } rfl
  rw [generate_scripted] at hm'
  exact ⟨m', hm', linked_scripted hvalid, hlinked, hsimilar⟩

/-- Names, comments and constraint names can hold quotes, line breaks and semicolons. -/
theorem parse_generate_of_valid_quotes :
    ∃ m m' : Model, m.outline.tables = [{
        key := ⟨"a\"b;", "t'--"⟩, comment := some "it's;"
        columns := [{ name := "x\ny", type := " int ", defaultValue := some " now() " }]
        foreignKeys := [⟨"?", "x\ny", ⟨"a\"b;", "t'--"⟩, "x\ny", none, none⟩] }] ∧
      parse .positional { strict := true, inferId := false } (Ddl.generate m) = .ok m' ∧
      m'.outline.Similar m.scripted.outline.withDefault := by
  let column : Column := { id := "c", name := "x\ny", type := " int ", defaultValue := some " now() " }
  let table : Table :=
    { id := "t", schemaId := "s", name := "t'--", comment := some "it's;", columns := [column]
      foreignKeys := [{ id := "f", name := "?", fromColumnId := "c", toTableId := "t", toColumnId := "c" }] }
  let m : Model := { version := 1, schemas := [⟨"s", "a\"b;"⟩], tables := [table] }
  have htype : Text.trimmed " int " = "int" := by decide +kernel
  have hdefault : Text.trimmed " now() " = "now()" := by decide +kernel
  have hreadable : column.Readable := by
    constructor
    · rw [htype]
      exact ⟨_, typeExcerpt_word (by decide) (by decide)⟩
    · intro e he
      cases he
      refine .inr ⟨[⟨[], ['n', 'o', 'w'], .word "now"⟩, ⟨[], ['('], .openParen⟩,
        ⟨[], [')'], .closeParen⟩], ⟨?_, ⟨_, _, rfl, rfl⟩, ⟨⟨rfl, rfl⟩, rfl⟩⟩, rfl, ?_⟩
      · rw [hdefault]
        decide +kernel
      · intro l ls hls
        cases hls
        exact ⟨fun _ => rfl, (fun h => by cases h), trivial⟩
  have hvalid : Check.hasErrors (Check.validate m) = false := by decide +kernel
  obtain ⟨m', hm', -, -, hsimilar⟩ := parse_generate_of_valid Ids.distinct_positional hvalid
    (List.nodup_singleton _) (fun t ht => by
      rw [List.mem_singleton.1 ht]
      exact List.nodup_singleton _)
    fun t ht c hc => by
      rw [List.mem_singleton.1 ht] at hc
      rw [List.mem_singleton.1 hc]
      exact hreadable
  exact ⟨m, m', rfl, hm', hsimilar⟩

end SchemaDdl
