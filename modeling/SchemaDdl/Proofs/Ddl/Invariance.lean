import Mathlib.Data.List.Find
import SchemaDdl.Proofs.Outline.Script

/-!
# What a script does not show

A script shows neither the ids of a model nor the order of its schemas and tables, and of the order
of its types only that within a schema. A foreign key's id is not renamed: it can be part of the name
of the constraint.
-/

namespace SchemaDdl

/-- New ids for old ones. A column's id belongs to its table. -/
structure Renaming where
  schema : String → String
  type : String → String
  table : String → String
  column : (table : String) → String → String

namespace Renaming

variable (r : Renaming)

def onSchema (s : Schema) : Schema :=
  { s with id := r.schema s.id }

def onType (e : EnumType) : EnumType :=
  { e with id := r.type e.id, schemaId := r.schema e.schemaId }

def onColumn (table : String) (c : Column) : Column :=
  { c with id := r.column table c.id }

def onForeignKey (table : String) (fk : ForeignKey) : ForeignKey :=
  { fk with
    fromColumnId := r.column table fk.fromColumnId
    toTableId := r.table fk.toTableId
    toColumnId := r.column fk.toTableId fk.toColumnId }

def onTable (t : Table) : Table :=
  { t with
    id := r.table t.id
    schemaId := r.schema t.schemaId
    columns := t.columns.map (r.onColumn t.id)
    foreignKeys := t.foreignKeys.map (r.onForeignKey t.id) }

end Renaming

namespace Model

def renamed (r : Renaming) (m : Model) : Model :=
  { m with
    schemas := m.schemas.map r.onSchema
    types := m.types.map r.onType
    tables := m.tables.map r.onTable }

/-! ## Ids that stay apart -/

/-- The ids of schemas that the model has or refers to. -/
def schemaIds (m : Model) : List String :=
  m.schemas.map Schema.id ++ m.types.map EnumType.schemaId ++ m.tables.map Table.schemaId

def tableIds (m : Model) : List String :=
  m.tables.map Table.id ++ m.tables.flatMap fun t => t.foreignKeys.map ForeignKey.toTableId

/-- The ids of columns that tables with the given id have, or that are looked for in one. -/
def columnIds (m : Model) (table : String) : List String :=
  (group Table.id m.tables table).flatMap (fun t =>
      t.columns.map Column.id ++ t.foreignKeys.map ForeignKey.fromColumnId) ++
    m.tables.flatMap fun t =>
      (group ForeignKey.toTableId t.foreignKeys table).map ForeignKey.toColumnId

end Model

/-- No two ids become one, be it that of a part or one that only a reference has. -/
structure Renaming.Separates (r : Renaming) (m : Model) : Prop where
  schemas : ∀ a ∈ m.schemaIds, ∀ b ∈ m.schemaIds, r.schema a = r.schema b → a = b
  tables : ∀ a ∈ m.tableIds, ∀ b ∈ m.tableIds, r.table a = r.table b → a = b
  columns : ∀ table, ∀ a ∈ m.columnIds table, ∀ b ∈ m.columnIds table,
    r.column table a = r.column table b → a = b

section Mentioned

variable {m : Model} {t u : Table} (ht : t ∈ m.tables)

theorem id_mem_schemaIds {s : Schema} (hs : s ∈ m.schemas) : s.id ∈ m.schemaIds :=
  List.mem_append_left _ (List.mem_append_left _ (List.mem_map_of_mem hs))

theorem schemaId_mem_of_type {e : EnumType} (he : e ∈ m.types) : e.schemaId ∈ m.schemaIds :=
  List.mem_append_left _ (List.mem_append_right _ (List.mem_map_of_mem he))

include ht

theorem schemaId_mem_of_table : t.schemaId ∈ m.schemaIds :=
  List.mem_append_right _ (List.mem_map_of_mem ht)

theorem id_mem_tableIds : t.id ∈ m.tableIds :=
  List.mem_append_left _ (List.mem_map_of_mem ht)

theorem id_mem_columnIds {c : Column} (hc : c ∈ t.columns) : c.id ∈ m.columnIds t.id :=
  List.mem_append_left _ (List.mem_flatMap.2
    ⟨t, mem_group.2 ⟨ht, rfl⟩, List.mem_append_left _ (List.mem_map_of_mem hc)⟩)

variable {fk : ForeignKey} (hfk : fk ∈ t.foreignKeys)

include hfk

theorem toTableId_mem : fk.toTableId ∈ m.tableIds :=
  List.mem_append_right _ (List.mem_flatMap.2 ⟨t, ht, List.mem_map_of_mem hfk⟩)

theorem fromColumnId_mem : fk.fromColumnId ∈ m.columnIds t.id :=
  List.mem_append_left _ (List.mem_flatMap.2
    ⟨t, mem_group.2 ⟨ht, rfl⟩, List.mem_append_right _ (List.mem_map_of_mem hfk)⟩)

theorem toColumnId_mem : fk.toColumnId ∈ m.columnIds fk.toTableId :=
  List.mem_append_right _ (List.mem_flatMap.2
    ⟨t, ht, List.mem_map_of_mem (mem_group.2 ⟨hfk, rfl⟩)⟩)

end Mentioned

/-! ## Looking up renamed ids -/

section Lookup

variable {α β : Type} {key : α → String} {key' : β → String} {f : α → β} {g : String → String}
  {xs : List α} {k : String}

theorem beq_of_separate {ids : List String} (hsep : ∀ a ∈ ids, ∀ b ∈ ids, g a = g b → a = b)
    {a b : String} (ha : a ∈ ids) (hb : b ∈ ids) : (g a == g b) = (a == b) := by
  by_cases hab : a = b
  · rw [hab, beq_self_eq_true, beq_self_eq_true]
  · rw [beq_eq_false_iff_ne.2 hab, beq_eq_false_iff_ne.2 fun h => hab (hsep a ha b hb h)]

theorem find?_map_key (hkey : ∀ x ∈ xs, (key' (f x) == g k) = (key x == k)) :
    (xs.map f).find? (fun y => key' y == g k) = (xs.find? fun x => key x == k).map f := by
  rw [List.find?_map]
  exact congrArg _ (List.find?_congr hkey)

theorem filter_map_key (hkey : ∀ x ∈ xs, (key' (f x) == g k) = (key x == k)) :
    (xs.map f).filter (fun y => key' y == g k) = (xs.filter fun x => key x == k).map f := by
  rw [List.filter_map]
  exact congrArg _ (List.filter_congr hkey)

/-- Among different ids the first match is the only one, so the order does not matter. -/
theorem find?_eq_of_perm {xs ys : List α} (hperm : xs.Perm ys) (hxs : (xs.map key).Nodup)
    (k : String) : xs.find? (fun x => key x == k) = ys.find? fun y => key y == k := by
  cases h : ys.find? fun y => key y == k with
  | none =>
    rw [List.find?_eq_none] at h ⊢
    exact fun x hx => h x (hperm.mem_iff.1 hx)
  | some y =>
    have hid : key y = k := by simpa using List.find?_some h
    rw [← hid]
    exact find?_eq_of_nodup hxs (hperm.mem_iff.2 (List.mem_of_find?_eq_some h))

end Lookup

/-! ## Foreign keys that mean the same -/

namespace Ddl

variable {m m' : Model} {t t' : Table}

theorem foreignKeyDefinitions_map {f : ForeignKey → ForeignKey} {fks : List ForeignKey}
    (hid : ∀ fk, (f fk).id = fk.id) (hname : ∀ fk, (f fk).name = fk.name)
    (h : ∀ fk ∈ fks, m'.foreignKeyOutline? t' (f fk) = m.foreignKeyOutline? t fk)
    (used : List String) :
    foreignKeyDefinitions m' t' used (fks.map f) = foreignKeyDefinitions m t used fks := by
  induction fks generalizing used with
  | nil => rfl
  | cons fk fks ih =>
    have ih := ih fun k hk => h k (List.mem_cons_of_mem fk hk)
    rw [List.map_cons, foreignKeyDefinitions, foreignKeyDefinitions, foreignKeyDefinition?_eq,
      foreignKeyDefinition?_eq, h fk List.mem_cons_self, hid, hname]
    cases m.foreignKeyOutline? t fk with
    | none => exact ih used
    | some d => exact congrArg _ (ih _)

end Ddl

/-! ## Other ids -/

section Renamed

variable {m : Model} {r : Renaming} (hr : r.Separates m)

theorem map_onColumn_columns (table : String) (columns : List Column) :
    (columns.map (r.onColumn table)).map Ddl.columnDefinition =
        columns.map Ddl.columnDefinition ∧
      Ddl.keyDefinitions (columns.map (r.onColumn table)) = Ddl.keyDefinitions columns := by
  constructor
  · rw [List.map_map]
    rfl
  · rw [Ddl.keyDefinitions, Ddl.keyDefinitions]
    simp only [List.filter_map, List.map_map]
    rfl

include hr

namespace Renaming.Separates

theorem column? {t : Table} (ht : t ∈ m.tables) {id : String} (hid : id ∈ m.columnIds t.id) :
    (r.onTable t).column? (r.column t.id id) = (t.column? id).map (r.onColumn t.id) :=
  find?_map_key fun _ hc => beq_of_separate (hr.columns t.id) (id_mem_columnIds ht hc) hid

theorem referencedTable? {id : String} (hid : id ∈ m.tableIds) :
    (m.renamed r).referencedTable? (r.table id) = (m.referencedTable? id).map r.onTable := by
  rw [Model.referencedTable?, Model.renamed, ← List.map_reverse]
  refine find?_map_key fun u hu => ?_
  exact beq_of_separate hr.tables (id_mem_tableIds (List.mem_reverse.1 hu)) hid

theorem schemaName? {id : String} (hid : id ∈ m.schemaIds) :
    (m.renamed r).schemaName? (r.schema id) = m.schemaName? id := by
  have hfind : (m.schemas.map r.onSchema).reverse.find? (fun s => s.id == r.schema id) =
      (m.schemas.reverse.find? fun s => s.id == id).map r.onSchema := by
    rw [← List.map_reverse]
    refine find?_map_key fun s hs => ?_
    exact beq_of_separate hr.schemas (id_mem_schemaIds (List.mem_reverse.1 hs)) hid
  rw [Model.schemaName?, Model.renamed, hfind, Option.map_map]
  rfl

theorem foreignKeyOutline? {t : Table} (ht : t ∈ m.tables) {fk : ForeignKey}
    (hfk : fk ∈ t.foreignKeys) :
    (m.renamed r).foreignKeyOutline? (r.onTable t) (r.onForeignKey t.id fk) =
      m.foreignKeyOutline? t fk := by
  have hsource := hr.column? ht (fromColumnId_mem ht hfk)
  have htarget := hr.referencedTable? (toTableId_mem ht hfk)
  rw [Model.foreignKeyOutline?, Model.foreignKeyOutline?, Renaming.onForeignKey, hsource, htarget]
  cases t.column? fk.fromColumnId with
  | none => rfl
  | some source =>
    cases hu : m.referencedTable? fk.toTableId with
    | none => rfl
    | some u =>
      have hmem := mem_tables_of_referencedTable? hu
      have hid : u.id = fk.toTableId := by simpa using List.find?_some hu
      have hcolumn := hr.column? hmem (hid ▸ toColumnId_mem ht hfk)
      have hschema := hr.schemaName? (schemaId_mem_of_table hmem)
      rw [hid] at hcolumn
      simp only [Option.map_some, Option.bind_eq_bind, Option.bind_some, hcolumn, Model.qualify]
      cases u.column? fk.toColumnId with
      | none => rfl
      | some target =>
        simp only [Option.map_some, Option.bind_some, Renaming.onTable, hschema]
        rfl

theorem tableBlock {t : Table} (ht : t ∈ m.tables) (schema : String) :
    Ddl.tableBlock (m.renamed r) schema (r.onTable t) = Ddl.tableBlock m schema t := by
  have hkeys := Ddl.foreignKeyDefinitions_map (f := r.onForeignKey t.id) (fun _ => rfl)
    (fun _ => rfl) (fun fk hfk => hr.foreignKeyOutline? ht hfk) []
  have hcolumns := map_onColumn_columns (r := r) t.id t.columns
  have hdefinitions : Ddl.tableDefinitions (m.renamed r) (r.onTable t) = Ddl.tableDefinitions m t := by
    rw [Ddl.tableDefinitions, Ddl.tableDefinitions, ← hkeys, ← hcolumns.1, ← hcolumns.2]
    rfl
  rw [Ddl.tableBlock, Ddl.tableBlock, hdefinitions]
  simp only [Renaming.onTable, List.filterMap_map]
  rfl

theorem typeBlocks {s : Schema} (hs : s ∈ m.schemas) :
    Ddl.typeBlocks (m.renamed r) (r.onSchema s) = Ddl.typeBlocks m s := by
  have hfilter : (m.types.map r.onType).filter (fun e => e.schemaId == r.schema s.id) =
      (m.types.filter fun e => e.schemaId == s.id).map r.onType :=
    filter_map_key fun e he =>
      beq_of_separate hr.schemas (schemaId_mem_of_type he) (id_mem_schemaIds hs)
  calc
    _ = ((m.types.map r.onType).filter fun e => e.schemaId == r.schema s.id).filterMap
        (Ddl.typeBlock? s.name) := rfl
    _ = Ddl.typeBlocks m s := by
      rw [hfilter, List.filterMap_map]
      rfl

theorem tableBlocks {s : Schema} (hs : s ∈ m.schemas) :
    Ddl.tableBlocks (m.renamed r) (r.onSchema s) = Ddl.tableBlocks m s := by
  have hfilter : (m.tables.map r.onTable).filter (fun t => t.schemaId == r.schema s.id) =
      (m.tables.filter fun t => t.schemaId == s.id).map r.onTable :=
    filter_map_key fun t ht =>
      beq_of_separate hr.schemas (schemaId_mem_of_table ht) (id_mem_schemaIds hs)
  calc
    _ = (Model.sortedByName Table.name
          ((m.tables.map r.onTable).filter fun t => t.schemaId == r.schema s.id)).map
        (Ddl.tableBlock (m.renamed r) s.name) := rfl
    _ = (Model.sortedByName Table.name (m.tables.filter fun t => t.schemaId == s.id)).map
        (Ddl.tableBlock (m.renamed r) s.name ∘ r.onTable) := by
      have hsorted (ts : List Table) : Model.sortedByName Table.name (ts.map r.onTable) =
          (Model.sortedByName Table.name ts).map r.onTable :=
        (Model.map_sortedByName fun _ _ => rfl).symm
      rw [hfilter, hsorted, List.map_map]
    _ = Ddl.tableBlocks m s := by
      refine List.map_congr_left fun t ht => hr.tableBlock ?_ s.name
      exact (List.mem_filter.1 ((Model.perm_sortedByName _ _).mem_iff.1 ht)).1

theorem blocks : Ddl.blocks (m.renamed r) = Ddl.blocks m := by
  have hsorted : (m.renamed r).sortedSchemas = m.sortedSchemas.map r.onSchema :=
    (Model.map_sortedByName fun _ _ => rfl).symm
  have hmem {s : Schema} (hs : s ∈ m.sortedSchemas) : s ∈ m.schemas :=
    (Model.perm_sortedByName _ _).mem_iff.1 hs
  rw [Ddl.blocks, Ddl.blocks, hsorted, List.filterMap_map, List.flatMap_map, List.flatMap_map]
  exact congrArg₂ _ (congrArg₂ _ rfl (List.flatMap_congr fun s hs => hr.typeBlocks (hmem hs)))
    (List.flatMap_congr fun s hs => hr.tableBlocks (hmem hs))

end Renaming.Separates

end Renamed

/-! ## Another order -/

namespace Model

/-- Schemas and tables in another order, and types with those of each schema in the same order. -/
structure Rearranges (m m' : Model) : Prop where
  schemas : m.schemas.Perm m'.schemas
  types : ∀ schema, group EnumType.schemaId m.types schema = group EnumType.schemaId m'.types schema
  tables : m.tables.Perm m'.tables

/-- Schemas and tables are told apart by their ids, and by their names. -/
structure ToldApart (m : Model) : Prop where
  schemaIds : (m.schemas.map Schema.id).Nodup
  schemaNames : (m.schemas.map Schema.name).Nodup
  tableIds : (m.tables.map Table.id).Nodup
  tableNames : (m.tables.map fun t => (t.schemaId, t.name)).Nodup

namespace Rearranges

variable {m m' : Model} (h : m.Rearranges m') (hm : m.ToldApart)

include h hm

theorem referencedTable? : m.referencedTable? = m'.referencedTable? := by
  funext id
  refine find?_eq_of_perm (m.tables.reverse_perm.trans (h.tables.trans m'.tables.reverse_perm.symm)) ?_ id
  rw [List.map_reverse, List.nodup_reverse]
  exact hm.tableIds

theorem schemaName? : m.schemaName? = m'.schemaName? := by
  funext id
  refine congrArg (Option.map Schema.name) (find?_eq_of_perm
    (m.schemas.reverse_perm.trans (h.schemas.trans m'.schemas.reverse_perm.symm)) ?_ id)
  rw [List.map_reverse, List.nodup_reverse]
  exact hm.schemaIds

theorem foreignKeyOutline? (t : Table) : m'.foreignKeyOutline? t = m.foreignKeyOutline? t := by
  funext fk
  rw [Model.foreignKeyOutline?, Model.foreignKeyOutline?, h.referencedTable? hm]
  simp only [Model.qualify, h.schemaName? hm]

theorem tableBlock : Ddl.tableBlock m' = Ddl.tableBlock m := by
  funext schema t
  have hkeys : Ddl.foreignKeyDefinitions m' t [] (t.foreignKeys.map id) =
      Ddl.foreignKeyDefinitions m t [] t.foreignKeys :=
    Ddl.foreignKeyDefinitions_map (fun _ => rfl) (fun _ => rfl)
      (fun fk _ => congrFun (h.foreignKeyOutline? hm t) fk) []
  rw [List.map_id] at hkeys
  rw [Ddl.tableBlock, Ddl.tableBlock, Ddl.tableDefinitions, Ddl.tableDefinitions, hkeys]

theorem tableBlocks (s : Schema) : Ddl.tableBlocks m' s = Ddl.tableBlocks m s := by
  have hnames : ((m.tables.filter fun t => t.schemaId == s.id).map Table.name).Nodup := by
    refine List.Nodup.map_on (fun t ht u hu htu => ?_) (.filter _ hm.tableIds.of_map)
    obtain ⟨ht, hts⟩ := List.mem_filter.1 ht
    obtain ⟨hu, hus⟩ := List.mem_filter.1 hu
    rw [beq_iff_eq] at hts hus
    exact List.inj_on_of_nodup_map hm.tableNames ht hu (Prod.ext (hts.trans hus.symm) htu)
  rw [Ddl.tableBlocks, Ddl.tableBlocks, h.tableBlock hm,
    Model.sortedByName_eq (h.tables.filter fun t => t.schemaId == s.id) hnames]

theorem blocks : Ddl.blocks m' = Ddl.blocks m := by
  have hsorted : m'.sortedSchemas = m.sortedSchemas :=
    (Model.sortedByName_eq h.schemas hm.schemaNames).symm
  have htypes : Ddl.typeBlocks m' = Ddl.typeBlocks m :=
    funext fun s => congrArg (List.filterMap _) (h.types s.id).symm
  rw [Ddl.blocks, Ddl.blocks, hsorted, htypes, funext (h.tableBlocks hm)]

end Rearranges

/-- Renaming keeps apart what is told apart. -/
theorem ToldApart.renamed {m : Model} {r : Renaming} (hr : r.Separates m) (hm : m.ToldApart) :
    (m.renamed r).ToldApart := by
  refine ⟨?_, ?_, ?_, ?_⟩
  · rw [Model.renamed, List.map_map]
    refine List.Nodup.map_on (fun s hs s' hs' heq => ?_) hm.schemaIds.of_map
    exact List.inj_on_of_nodup_map hm.schemaIds hs hs'
      (hr.schemas _ (id_mem_schemaIds hs) _ (id_mem_schemaIds hs') heq)
  · rw [Model.renamed, List.map_map]
    exact hm.schemaNames
  · rw [Model.renamed, List.map_map]
    refine List.Nodup.map_on (fun t ht u hu heq => ?_) hm.tableIds.of_map
    exact List.inj_on_of_nodup_map hm.tableIds ht hu
      (hr.tables _ (id_mem_tableIds ht) _ (id_mem_tableIds hu) heq)
  · rw [Model.renamed, List.map_map]
    refine List.Nodup.map_on (fun t ht u hu heq => ?_) hm.tableIds.of_map
    obtain ⟨hschema, hname⟩ := Prod.ext_iff.1 heq
    exact List.inj_on_of_nodup_map hm.tableNames ht hu (Prod.ext
      (hr.schemas _ (schemaId_mem_of_table ht) _ (schemaId_mem_of_table hu) hschema) hname)

/-- The script of a model is the same under other ids and in another order. -/
theorem generate_rearranged {m m' : Model} {r : Renaming} (hm : m.ToldApart) (hr : r.Separates m)
    (h : (m.renamed r).Rearranges m') : Ddl.generate m' = Ddl.generate m := by
  rw [Ddl.generate, Ddl.generate, h.blocks (hm.renamed hr), hr.blocks]

/-- The tables refer to each other, one of them also to a table that is missing, and both columns of
the other have one id. All lists are turned around but for the types of one schema. -/
theorem generate_rearranged_linked :
    ∃ (m m' : Model) (r : Renaming), m.ToldApart ∧ r.Separates m ∧ (m.renamed r).Rearranges m' ∧
      m'.schemas = (m.renamed r).schemas.reverse ∧ m'.tables = (m.renamed r).tables.reverse ∧
      m'.types ≠ (m.renamed r).types ∧ Ddl.generate m' = Ddl.generate m := by
  let column (name : String) : Column := { id := "c", name, type := "int" }
  let key (id target : String) : ForeignKey := ⟨id, "fk", "c", target, "c", none, none, none, none⟩
  let m : Model := {
    version := 1
    schemas := [⟨"s1", "public"⟩, ⟨"s2", "crm"⟩]
    types := [⟨"e1", "s1", "z", ["a"]⟩, ⟨"e2", "s2", "y", ["b"]⟩, ⟨"e3", "s1", "x", ["c"]⟩]
    tables := [
      { id := "t1", schemaId := "s2", name := "b", columns := [column "x"]
        foreignKeys := [key "f1" "t2", key "f2" "t3"] },
      { id := "t2", schemaId := "s1", name := "a", columns := [column "x", column "y"]
        foreignKeys := [key "f3" "t1"] }] }
  let other (id : String) : String := id ++ "x"
  let r : Renaming := ⟨other, other, other, fun _ => other⟩
  let m' : Model := {
    m.renamed r with
    schemas := (m.renamed r).schemas.reverse
    types := [⟨"e2x", "s2x", "y", ["b"]⟩, ⟨"e1x", "s1x", "z", ["a"]⟩, ⟨"e3x", "s1x", "x", ["c"]⟩]
    tables := (m.renamed r).tables.reverse }
  have hother (a b : String) (h : other a = other b) : a = b := by simpa [other] using h
  have hm : m.ToldApart := by constructor <;> decide
  have hr : r.Separates m :=
    ⟨fun a _ b _ => hother a b, fun a _ b _ => hother a b, fun _ a _ b _ => hother a b⟩
  have hm' : (m.renamed r).Rearranges m' := by
    refine ⟨(List.reverse_perm _).symm, fun schema => ?_, (List.reverse_perm _).symm⟩
    by_cases hpublic : schema = "s1x"
    · rw [hpublic]
      decide
    · by_cases hcrm : schema = "s2x"
      · rw [hcrm]
        decide
      · rw [group_eq_nil, group_eq_nil] <;>
          simp [m', m, r, other, Model.renamed, Renaming.onType, Ne.symm hpublic, Ne.symm hcrm]
  exact ⟨m, m', r, hm, hr, hm', rfl, rfl, by decide, generate_rearranged hm hr hm'⟩

end Model

end SchemaDdl
