import SchemaDdl.Proofs.Fallible
import SchemaDdl.Proofs.Outline.Keys

/-!
# The draft of an outline's script

The statements that declare an outline are read as entries, which make up a draft with the same
schemas, types, tables and comments.
-/

namespace SchemaDdl

open Script

/-! ## Entries one after another -/

def Script.Entry.type? : Entry → Option TypeDraft
  | .type t => some t
  | _ => none

def Script.Entry.table? : Entry → Option TableDraft
  | .table t => some t
  | _ => none

def Script.Entry.comment? : Entry → Option CommentDraft
  | .comment c => some c
  | _ => none

namespace Script.Draft

theorem types_withSchema (d : Draft) (name : String) : (d.withSchema name).types = d.types := by
  rw [withSchema]
  split <;> rfl

theorem tables_withSchema (d : Draft) (name : String) : (d.withSchema name).tables = d.tables := by
  rw [withSchema]
  split <;> rfl

theorem comments_withSchema (d : Draft) (name : String) :
    (d.withSchema name).comments = d.comments := by
  rw [withSchema]
  split <;> rfl

theorem types_add (d : Draft) (e : Entry) : (d.add e).types = d.types ++ e.type?.toList := by
  cases e <;> simp [add, Entry.type?, types_withSchema]

theorem tables_add (d : Draft) (e : Entry) : (d.add e).tables = d.tables ++ e.table?.toList := by
  cases e <;> simp [add, Entry.table?, tables_withSchema]

theorem comments_add (d : Draft) (e : Entry) :
    (d.add e).comments = d.comments ++ e.comment?.toList := by
  cases e <;> simp [add, Entry.comment?, comments_withSchema]

theorem types_foldl_add (d : Draft) (es : List Entry) :
    (es.foldl add d).types = d.types ++ es.filterMap Entry.type? := by
  induction es generalizing d with
  | nil => simp
  | cons e es ih =>
    rw [List.foldl_cons, ih, types_add, List.append_assoc]
    cases h : e.type? <;> simp [h]

theorem tables_foldl_add (d : Draft) (es : List Entry) :
    (es.foldl add d).tables = d.tables ++ es.filterMap Entry.table? := by
  induction es generalizing d with
  | nil => simp
  | cons e es ih =>
    rw [List.foldl_cons, ih, tables_add, List.append_assoc]
    cases h : e.table? <;> simp [h]

theorem comments_foldl_add (d : Draft) (es : List Entry) :
    (es.foldl add d).comments = d.comments ++ es.filterMap Entry.comment? := by
  induction es generalizing d with
  | nil => simp
  | cons e es ih =>
    rw [List.foldl_cons, ih, comments_add, List.append_assoc]
    cases h : e.comment? <;> simp [h]

/-- New schemas are listed in their order. -/
theorem schemas_foldl_schema {d : Draft} {names : List String} (h : (d.schemas ++ names).Nodup) :
    ((names.map Entry.schema).foldl add d).schemas = d.schemas ++ names := by
  induction names generalizing d with
  | nil => simp
  | cons name names ih =>
    have hfresh : d.schemas.contains name = false := by
      rw [← Bool.not_eq_true, List.contains_iff_mem]
      exact fun hmem => (List.nodup_append.1 h).2.2 name hmem name List.mem_cons_self rfl
    have hadd : (d.add (.schema name)).schemas = d.schemas ++ [name] := by
      rw [add, withSchema, hfresh]
      rfl
    rw [List.map_cons, List.foldl_cons, ih, hadd, List.append_assoc]
    · rfl
    · rw [hadd, List.append_assoc]
      exact h

/-- Whether what the entry declares is in a schema of the list. -/
def Fits (names : List String) : Entry → Prop
  | .schema name => name ∈ names
  | .type t => t.key.schema ∈ names
  | .table t => t.key.schema ∈ names
  | .comment _ => True

theorem schemas_add_of_fits {d : Draft} {e : Entry} (h : Fits d.schemas e) :
    (d.add e).schemas = d.schemas := by
  have hknown {name : String} (hname : name ∈ d.schemas) : (d.withSchema name).schemas = d.schemas := by
    rw [withSchema, if_pos (List.contains_iff_mem.2 hname)]
  cases e with
  | schema name => exact hknown h
  | type t => exact hknown h
  | table t => exact hknown h
  | comment c => rfl

theorem schemas_foldl_of_fits {d : Draft} {es : List Entry} (h : ∀ e ∈ es, Fits d.schemas e) :
    (es.foldl add d).schemas = d.schemas := by
  induction es generalizing d with
  | nil => rfl
  | cons e es ih =>
    have he := schemas_add_of_fits (h e List.mem_cons_self)
    rw [List.foldl_cons, ih, he]
    intro x hx
    rw [he]
    exact h x (List.mem_cons_of_mem e hx)

theorem key_ofItems {strict : Bool} {key : QualifiedName} {items : List TableItem} {t : TableDraft}
    (h : TableDraft.ofItems strict key items = .ok t) : t.key = key := by
  rw [TableDraft.ofItems] at h
  obtain ⟨_, -, h⟩ := bind_eq_ok_iff.1 h
  obtain ⟨_, -, h⟩ := bind_eq_ok_iff.1 h
  cases h
  rfl

end Script.Draft

/-! ## Entries of an outline -/

namespace TableOutline

variable (inferId : Bool) (t : TableOutline)

/-- The table as its definitions are read. -/
def draft : TableDraft :=
  ⟨t.key, rekeyed inferId t.drafts, t.foreignKeys⟩

def columnComments : List CommentDraft :=
  t.columns.filterMap fun c => c.comment.map fun text => ⟨.column t.key c.name, some text⟩

def commentDrafts : List CommentDraft :=
  t.comment.toList.map (fun text => ⟨.table t.key, some text⟩) ++ t.columnComments

def entries : List Entry :=
  .table (t.draft inferId) :: t.commentDrafts.map .comment

theorem map_read_comments (options : Options) :
    t.comments.map (Ddl.Statement.read options) = (t.commentDrafts.map Entry.comment).map .ok := by
  rw [comments, commentDrafts, columnComments, List.map_append, List.map_append, List.map_append]
  congr 1
  · cases t.comment <;> rfl
  · rw [List.map_filterMap, List.map_filterMap, List.map_filterMap]
    refine List.filterMap_congr fun c _ => ?_
    cases c.comment <;> rfl

theorem map_read_block (options : Options) :
    t.block.map (Ddl.Statement.read options) = (t.entries options.inferId).map .ok := by
  have htable : (Ddl.Statement.createTable t.key t.definitions).read options =
      .ok (.table (t.draft options.inferId)) := by
    rw [Ddl.Statement.read, definitions, ofItems_definitions]
    rfl
  rw [block, entries, List.map_cons, List.map_cons, htable, map_read_comments]

end TableOutline

namespace Outline

variable (inferId : Bool) (o : Outline)

/-- The schemas of a script's model: the default schema and those that the script creates. -/
def createdSchemas : List String :=
  o.schemas.filter fun name => name != defaultSchema

def entries : List Entry :=
  o.createdSchemas.map .schema ++ o.types.map .type ++ o.tables.flatMap (TableOutline.entries inferId)

def draft : Draft where
  schemas := defaultSchema :: o.createdSchemas
  types := o.types
  tables := o.tables.map (TableOutline.draft inferId)
  comments := o.tables.flatMap TableOutline.commentDrafts

theorem flatten_map_singleton {α β : Type} (f : α → β) (xs : List α) :
    (xs.map fun x => [f x]).flatten = xs.map f := by
  rw [← List.flatMap_def, ← List.map_eq_flatMap]

theorem map_read_script (options : Options) :
    o.script.flatten.map (Ddl.Statement.read options) = (o.entries options.inferId).map .ok := by
  have hschemas : (schemaBlocks o.schemas).flatten.map (Ddl.Statement.read options) =
      (o.createdSchemas.map Entry.schema).map .ok := by
    rw [schemaBlocks, flatten_map_singleton, List.map_map, List.map_map]
    rfl
  have htypes : ((o.types.map fun t => [Ddl.Statement.createType t.key t.values]).flatten).map
      (Ddl.Statement.read options) = (o.types.map Entry.type).map .ok := by
    rw [flatten_map_singleton, List.map_map, List.map_map]
    rfl
  have htables : ((o.tables.map TableOutline.block).flatten).map (Ddl.Statement.read options) =
      (o.tables.flatMap (TableOutline.entries options.inferId)).map .ok := by
    rw [List.map_flatten, List.map_map, List.map_flatMap, List.flatMap_def]
    exact congrArg _ (List.map_congr_left fun t _ => t.map_read_block options)
  rw [script, entries, List.flatten_append, List.flatten_append, List.map_append, List.map_append,
    hschemas, htypes, htables, List.map_append, List.map_append]

/-- What the entries of an outline are, kind by kind. -/
theorem filterMap_entries {α : Type} (kind : Entry → Option α)
    (hschema : ∀ name, kind (.schema name) = none) :
    (o.entries inferId).filterMap kind =
      (o.types.map Entry.type).filterMap kind ++
        o.tables.flatMap fun t => (t.entries inferId).filterMap kind := by
  have hschemas : (o.createdSchemas.map Entry.schema).filterMap kind = [] := by
    rw [List.filterMap_map, List.filterMap_eq_nil_iff]
    exact fun name _ => hschema name
  rw [entries, List.filterMap_append, List.filterMap_append, hschemas, List.nil_append,
    List.filterMap_flatMap]

theorem types_entries : (o.entries inferId).filterMap Entry.type? = o.types := by
  have htypes : (o.types.map Entry.type).filterMap Entry.type? = o.types := by
    rw [List.filterMap_map]
    exact List.filterMap_some
  have htables : (o.tables.flatMap fun t => (t.entries inferId).filterMap Entry.type?) = [] := by
    refine List.flatMap_eq_nil_iff.2 fun t _ => List.filterMap_eq_nil_iff.2 fun e he => ?_
    rcases List.mem_cons.1 he with rfl | he
    · rfl
    · obtain ⟨c, -, rfl⟩ := List.mem_map.1 he
      rfl
  rw [filterMap_entries inferId o _ fun _ => rfl, htypes, htables, List.append_nil]

theorem tables_entries :
    (o.entries inferId).filterMap Entry.table? = o.tables.map (TableOutline.draft inferId) := by
  have htypes : (o.types.map Entry.type).filterMap Entry.table? = [] := by
    rw [List.filterMap_map, List.filterMap_eq_nil_iff]
    exact fun _ _ => rfl
  have htable (t : TableOutline) : (t.entries inferId).filterMap Entry.table? = [t.draft inferId] := by
    have hcomments : (t.commentDrafts.map Entry.comment).filterMap Entry.table? = [] := by
      rw [List.filterMap_map, List.filterMap_eq_nil_iff]
      exact fun _ _ => rfl
    exact congrArg (t.draft inferId :: ·) hcomments
  rw [filterMap_entries inferId o _ fun _ => rfl, htypes, List.nil_append,
    List.flatMap_congr fun t _ => htable t, List.map_eq_flatMap]

theorem comments_entries :
    (o.entries inferId).filterMap Entry.comment? = o.tables.flatMap TableOutline.commentDrafts := by
  have htypes : (o.types.map Entry.type).filterMap Entry.comment? = [] := by
    rw [List.filterMap_map, List.filterMap_eq_nil_iff]
    exact fun _ _ => rfl
  have htable (t : TableOutline) : (t.entries inferId).filterMap Entry.comment? = t.commentDrafts := by
    have hcomments : (t.commentDrafts.map Entry.comment).filterMap Entry.comment? = t.commentDrafts := by
      rw [List.filterMap_map]
      exact List.filterMap_some
    exact hcomments
  rw [filterMap_entries inferId o _ fun _ => rfl, htypes, List.nil_append,
    List.flatMap_congr fun t _ => htable t]

variable {o}

theorem mem_createdSchemas {name : String} :
    name ∈ o.createdSchemas ↔ name ∈ o.schemas ∧ name ≠ defaultSchema := by
  rw [createdSchemas, List.mem_filter, bne_iff_ne]

theorem Distinct.nodup_createdSchemas (h : o.Distinct) :
    (defaultSchema :: o.createdSchemas).Nodup :=
  List.nodup_cons.2 ⟨fun hmem => (mem_createdSchemas.1 hmem).2 rfl, h.schemas.filter _⟩

theorem mem_defaultSchema_cons {name : String} (h : name ∈ o.schemas) :
    name ∈ defaultSchema :: o.createdSchemas := by
  by_cases hname : name = defaultSchema
  · exact hname ▸ List.mem_cons_self
  · exact List.mem_cons_of_mem _ (mem_createdSchemas.2 ⟨h, hname⟩)

theorem Distinct.schemas_foldl_entries (h : o.Distinct) :
    ((o.entries inferId).foldl Draft.add {}).schemas = defaultSchema :: o.createdSchemas := by
  have hcreated : ((o.createdSchemas.map Entry.schema).foldl Draft.add {}).schemas =
      defaultSchema :: o.createdSchemas := Draft.schemas_foldl_schema h.nodup_createdSchemas
  rw [entries, List.append_assoc, List.foldl_append, Draft.schemas_foldl_of_fits, hcreated]
  intro e he
  rw [hcreated]
  rcases List.mem_append.1 he with he | he
  · obtain ⟨t, ht, rfl⟩ := List.mem_map.1 he
    exact mem_defaultSchema_cons (h.types t ht)
  · obtain ⟨t, ht, he⟩ := List.mem_flatMap.1 he
    rcases List.mem_cons.1 he with rfl | he
    · exact mem_defaultSchema_cons (h.tables t ht)
    · obtain ⟨c, -, rfl⟩ := List.mem_map.1 he
      trivial

/-- The entries of an outline make up its draft. -/
theorem Distinct.foldl_entries (h : o.Distinct) :
    (o.entries inferId).foldl Draft.add {} = o.draft inferId := by
  have hschemas := h.schemas_foldl_entries inferId
  have htypes := Draft.types_foldl_add {} (o.entries inferId)
  have htables := Draft.tables_foldl_add {} (o.entries inferId)
  have hcomments := Draft.comments_foldl_add {} (o.entries inferId)
  rw [types_entries] at htypes
  rw [tables_entries] at htables
  rw [comments_entries] at hcomments
  cases hfold : (o.entries inferId).foldl Draft.add {}
  rw [hfold] at hschemas htypes htables hcomments
  rw [draft, Draft.mk.injEq]
  exact ⟨hschemas, htypes, htables, hcomments⟩

end Outline

/-! ## Texts that can be read -/

theorem Script.ColumnDraft.Legible.readable {c : ColumnDraft} (h : c.Legible) :
    c.definition.Readable :=
  ⟨h.type, h.default⟩

theorem readable_columnDefinitions {cs : List ColumnDraft} (h : ∀ c ∈ cs, c.Legible) :
    ∀ d ∈ columnDefinitions cs, d.Readable := by
  intro d hd
  rcases List.mem_append.1 hd with hd | hd
  · obtain ⟨c, hc, rfl⟩ := List.mem_map.1 hd
    exact (h c hc).readable
  · rcases List.mem_append.1 hd with hd | hd
    · split at hd
      · cases hd
      · rename_i hne
        rw [List.mem_singleton.1 hd]
        exact fun hnil => hne (List.isEmpty_iff.2 hnil)
    · obtain ⟨n, -, rfl⟩ := List.mem_map.1 hd
      trivial

theorem TableOutline.Legible.readable {t : TableOutline} (h : t.Legible) :
    ∀ s ∈ t.block, s.Readable := by
  intro s hs
  rcases List.mem_cons.1 hs with rfl | hs
  · intro d hd
    rcases List.mem_append.1 hd with hd | hd
    · exact readable_columnDefinitions h.columns d hd
    · obtain ⟨fk, -, rfl⟩ := List.mem_map.1 hd
      trivial
  · rcases List.mem_append.1 hs with hs | hs
    · obtain ⟨text, htext, rfl⟩ := List.mem_map.1 hs
      rintro rfl
      exact h.comment (Option.mem_toList.1 htext)
    · obtain ⟨c, hc, hs⟩ := List.mem_filterMap.1 hs
      obtain ⟨text, htext, rfl⟩ := Option.map_eq_some_iff.1 hs
      rintro rfl
      exact h.columnComments c hc htext

namespace Outline

variable {o : Outline}

theorem Legible.readable (h : o.Legible) : ∀ b ∈ o.script, ∀ s ∈ b, s.Readable := by
  intro b hb s hs
  rcases List.mem_append.1 hb with hb | hb
  · rcases List.mem_append.1 hb with hb | hb
    · obtain ⟨name, -, rfl⟩ := List.mem_map.1 hb
      rw [List.mem_singleton.1 hs]
      trivial
    · obtain ⟨t, ht, rfl⟩ := List.mem_map.1 hb
      rw [List.mem_singleton.1 hs]
      exact h.values t ht
  · obtain ⟨t, ht, rfl⟩ := List.mem_map.1 hb
    exact (h.each t ht).readable s hs

theorem ne_nil_of_mem_script {b : Ddl.Block} (hb : b ∈ o.script) : b ≠ [] := by
  rcases List.mem_append.1 hb with hb | hb
  · rcases List.mem_append.1 hb with hb | hb
    · obtain ⟨name, -, rfl⟩ := List.mem_map.1 hb
      exact List.cons_ne_nil _ _
    · obtain ⟨t, -, rfl⟩ := List.mem_map.1 hb
      exact List.cons_ne_nil _ _
  · obtain ⟨t, -, rfl⟩ := List.mem_map.1 hb
    exact List.cons_ne_nil _ _

end Outline

end SchemaDdl
