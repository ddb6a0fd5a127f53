import Mathlib.Data.List.Find
import SchemaDdl.Proofs.Outline.Script
import SchemaDdl.Script.Resolve

/-!
# References between placed tables

Where no id is given out twice, a reference that is resolved to ids means in the model what it meant
in the script. Comments do not matter for that.
-/

namespace SchemaDdl

open Script

/-- No id is given out twice. -/
structure Ids.Distinct (ids : Ids) : Prop where
  schema : Function.Injective ids.schema
  table : Function.Injective ids.table
  column : ∀ i, Function.Injective (ids.column i)

/-- Ids that spell places are not given out twice. -/
theorem Ids.distinct_positional : Ids.positional.Distinct := by
  have hcounted {label : String} {i j : Nat}
      (h : label ++ toString (i + 1) = label ++ toString (j + 1)) : i = j := by
    have hnumber := (String.append_right_inj label).1 h
    exact Nat.succ.inj (Naming.toString_inj hnumber)
  constructor
  · intro i j h
    have hlabel : "s" ++ toString (i + 1) = "s" ++ toString (j + 1) := h
    exact hcounted hlabel
  · intro i j h
    have hlabel : "t" ++ toString (i + 1) = "t" ++ toString (j + 1) := h
    exact hcounted hlabel
  · intro i j k h
    have hlabel : s!"t{i + 1}c" ++ toString (j + 1) = s!"t{i + 1}c" ++ toString (k + 1) := h
    exact hcounted hlabel

section Indexed

variable {α β γ : Type} (f : Nat → α → β) (g : β → γ) (xs : List α)

theorem nodup_map_mapIdx {ids : Nat → γ} (hids : Function.Injective ids)
    (h : ∀ i a, g (f i a) = ids i) : ((xs.mapIdx f).map g).Nodup := by
  rw [List.Nodup, List.pairwise_iff_getElem]
  intro i j hi hj hij
  rw [List.getElem_map, List.getElem_map, List.getElem_mapIdx, List.getElem_mapIdx, h, h]
  exact fun heq => absurd (hids heq) (Nat.ne_of_lt hij)

theorem map_mapIdx_eq_map {k : α → γ} (h : ∀ i, ∀ a ∈ xs, g (f i a) = k a) :
    (xs.mapIdx f).map g = xs.map k := by
  refine List.ext_getElem (by simp) fun i hi hj => ?_
  rw [List.getElem_map, List.getElem_mapIdx, List.getElem_map]
  exact h i _ (List.getElem_mem _)

end Indexed

/-! ## Changes that references do not see -/

/-- Tables and columns keep all that a reference goes by. -/
structure KeepsReferences (f : Table → Table) (g : Column → Column) : Prop where
  columns : ∀ t, (f t).columns = t.columns.map g
  tableId : ∀ t, (f t).id = t.id
  schemaId : ∀ t, (f t).schemaId = t.schemaId
  tableName : ∀ t, (f t).name = t.name
  columnId : ∀ c, (g c).id = c.id
  columnName : ∀ c, (g c).name = c.name

def Model.mapTables (f : Table → Table) (m : Model) : Model :=
  { m with tables := m.tables.map f }

namespace KeepsReferences

variable {f : Table → Table} {g : Column → Column} (h : KeepsReferences f g)

include h

theorem column? (t : Table) (id : String) : (f t).column? id = (t.column? id).map g := by
  rw [Table.column?, Table.column?, h.columns, List.find?_map]
  refine congrArg _ (List.find?_congr fun c _ => ?_)
  rw [Function.comp_apply, h.columnId]

theorem referencedTable? (m : Model) (id : String) :
    (m.mapTables f).referencedTable? id = (m.referencedTable? id).map f := by
  rw [Model.referencedTable?, Model.referencedTable?, Model.mapTables, ← List.map_reverse,
    List.find?_map]
  refine congrArg _ (List.find?_congr fun t _ => ?_)
  rw [Function.comp_apply, h.tableId]

theorem foreignKeyOutline? (m : Model) (t : Table) (fk : ForeignKey) :
    (m.mapTables f).foreignKeyOutline? (f t) fk = m.foreignKeyOutline? t fk := by
  rw [Model.foreignKeyOutline?, Model.foreignKeyOutline?, h.column?, h.referencedTable?]
  cases t.column? fk.fromColumnId with
  | none => rfl
  | some source =>
    cases m.referencedTable? fk.toTableId with
    | none => rfl
    | some target =>
      simp only [Option.map_some, Option.bind_eq_bind, Option.bind_some, h.column?, h.columnName,
        h.schemaId, h.tableName]
      cases target.column? fk.toColumnId with
      | none => rfl
      | some targetColumn =>
        simp only [Option.map_some, Option.bind_some, h.columnName]
        rfl

theorem placements (m : Model) :
    (m.mapTables f).placements = m.placements.map fun p => (p.1, f p.2) := by
  rw [Model.placements, Model.placements, List.map_flatMap]
  refine List.flatMap_congr fun s _ => ?_
  have hfilter : (m.mapTables f).tables.filter (fun t => t.schemaId == s.id) =
      (m.tables.filter fun t => t.schemaId == s.id).map f := by
    rw [Model.mapTables, List.filter_map]
    refine congrArg _ (List.filter_congr fun t _ => ?_)
    rw [Function.comp_apply, h.schemaId]
  rw [hfilter, ← Model.map_sortedByName fun t _ => h.tableName t, List.map_map, List.map_map]
  rfl

end KeepsReferences

def Column.plain (c : Column) : Column :=
  { c with comment := none }

/-- A table without its comments. -/
def Table.plain (t : Table) : Table :=
  { t with comment := none, columns := t.columns.map Column.plain }

def Table.unlinked (t : Table) : Table :=
  { t with foreignKeys := [] }

theorem keepsReferences_plain : KeepsReferences Table.plain Column.plain := by
  constructor <;> exact fun _ => rfl

namespace Model

def plain (m : Model) : Model :=
  m.mapTables Table.plain

theorem foreignKeyOutline?_plain (m : Model) (t : Table) (fk : ForeignKey) :
    m.plain.foreignKeyOutline? t.plain fk = m.foreignKeyOutline? t fk :=
  keepsReferences_plain.foreignKeyOutline? m t fk

/-- References mean the same in models that differ in comments only. -/
theorem foreignKeyOutline?_congr {m m' : Model} {t t' : Table} (hm : m.plain = m'.plain)
    (ht : t.plain = t'.plain) : m.foreignKeyOutline? t = m'.foreignKeyOutline? t' := by
  funext fk
  rw [← foreignKeyOutline?_plain, hm, ht, foreignKeyOutline?_plain]

end Model

/-! ## Placed tables -/

namespace Script

/-- Every part of the draft belongs to a schema that is listed, and nothing is listed twice. -/
structure Draft.Distinct (d : Draft) : Prop where
  schemas : d.schemas.Nodup
  types : ∀ t ∈ d.types, t.key.schema ∈ d.schemas
  tables : ∀ t ∈ d.tables, t.key.schema ∈ d.schemas
  keys : (d.tables.map TableDraft.key).Nodup

def Draft.placed (ids : Ids) (d : Draft) : List Placed :=
  d.tables.mapIdx fun i t => t.place ids d.schemas i

/-- The model of the draft, given its tables. -/
def Draft.model (ids : Ids) (d : Draft) (tables : List Table) : Model where
  version := Model.currentVersion
  schemas := d.schemas.mapIdx fun i name => ⟨ids.schema i, name⟩
  tables := tables
  types := d.types.mapIdx fun i t =>
    { id := ids.type i, schemaId := schemaId ids d.schemas t.key.schema, name := t.key.name
      values := t.values }

/-- The columns at both ends of the foreign key are there. -/
def Draft.HasEnds (d : Draft) (t : TableDraft) (fk : ForeignKeyDraft) : Prop :=
  fk.fromColumn ∈ t.columns.map ColumnDraft.name ∧
    ∃ u ∈ d.tables, u.key = fk.target ∧ fk.targetColumn ∈ u.columns.map ColumnDraft.name

section Placed

variable {ids : Ids} {d : Draft}

theorem map_draft_placed (ids : Ids) (d : Draft) : (d.placed ids).map Placed.draft = d.tables := by
  have hid : (d.placed ids).map Placed.draft = d.tables.map id :=
    map_mapIdx_eq_map _ _ d.tables fun _ _ _ => rfl
  rw [hid, List.map_id]

theorem exists_place {p : Placed} (hp : p ∈ d.placed ids) :
    ∃ i, ∃ t ∈ d.tables, p = t.place ids d.schemas i := by
  obtain ⟨i, hi, rfl⟩ := List.mem_mapIdx.1 hp
  exact ⟨i, _, List.getElem_mem hi, rfl⟩

theorem nodup_tableIds (hids : ids.Distinct) (d : Draft) :
    ((d.placed ids).map fun p => p.table.id).Nodup :=
  nodup_map_mapIdx _ _ d.tables hids.table fun _ _ => rfl

theorem nodup_schemaIds (hids : ids.Distinct) (d : Draft) (ts : List Table) :
    ((d.model ids ts).schemas.map Schema.id).Nodup :=
  nodup_map_mapIdx _ _ d.schemas hids.schema fun _ _ => rfl

theorem nodup_columnIds (hids : ids.Distinct) {p : Placed} (hp : p ∈ d.placed ids) :
    (p.table.columns.map Column.id).Nodup := by
  obtain ⟨i, t, -, rfl⟩ := exists_place hp
  exact nodup_map_mapIdx _ _ t.columns (hids.column i) fun _ _ => rfl

theorem map_outline_columns {p : Placed} (hp : p ∈ d.placed ids) :
    p.table.columns.map Column.outline = p.draft.columns.map fun c => { toColumnDraft := c } := by
  obtain ⟨i, t, -, rfl⟩ := exists_place hp
  exact map_mapIdx_eq_map _ _ t.columns fun _ _ _ => rfl

theorem map_name_columns {p : Placed} (hp : p ∈ d.placed ids) :
    p.table.columns.map Column.name = p.draft.columns.map ColumnDraft.name := by
  have := congrArg (List.map fun c : ColumnOutline => c.name) (map_outline_columns hp)
  rwa [List.map_map, List.map_map] at this

theorem schemaName?_schemaId (hids : ids.Distinct) (ts : List Table) {name : String}
    (h : name ∈ d.schemas) :
    (d.model ids ts).schemaName? (schemaId ids d.schemas name) = some name := by
  have hmem : ⟨schemaId ids d.schemas name, name⟩ ∈ (d.model ids ts).schemas := by
    refine List.mem_mapIdx.2 ⟨d.schemas.idxOf name, List.idxOf_lt_length_iff.2 h, ?_⟩
    rw [List.getElem_idxOf]
    rfl
  exact schemaName?_eq_some (nodup_schemaIds hids d ts) hmem

theorem isSome_schemaName?_placed (hids : ids.Distinct) (hd : d.Distinct) (ts : List Table)
    {p : Placed} (hp : p ∈ d.placed ids) :
    ((d.model ids ts).schemaName? p.table.schemaId).isSome := by
  obtain ⟨i, t, ht, rfl⟩ := exists_place hp
  have hname := schemaName?_schemaId hids ts (hd.tables t ht)
  exact Option.isSome_iff_exists.2 ⟨_, hname⟩

/-- A placed table is known by the key of its draft. -/
theorem qualify_placed (hids : ids.Distinct) (hd : d.Distinct) (ts : List Table) {p : Placed}
    (hp : p ∈ d.placed ids) :
    (d.model ids ts).qualify p.table.schemaId p.table.name = p.draft.key := by
  obtain ⟨i, t, ht, rfl⟩ := exists_place hp
  rw [Model.qualify]
  change QualifiedName.mk (((d.model ids ts).schemaName? (schemaId ids d.schemas t.key.schema)).getD
    defaultSchema) t.key.name = t.key
  rw [schemaName?_schemaId hids ts (hd.tables t ht)]
  rfl

theorem exists_columnNamed? {t : Table} {name : String} (h : name ∈ t.columns.map Column.name) :
    ∃ c, t.columnNamed? name = some c := by
  obtain ⟨c, hc, rfl⟩ := List.mem_map.1 h
  refine Option.isSome_iff_exists.1 (List.find?_isSome.2 ⟨c, hc, ?_⟩)
  rw [beq_iff_eq]

theorem resolveEnds_eq_ok {tables : List Placed} {p : Placed} {fk : ForeignKeyDraft} {e : Ends}
    (h : resolveEnds tables p fk = .ok e) :
    ∃ c q c', p.table.columnNamed? fk.fromColumn = some c ∧ findPlaced? tables fk.target = some q ∧
      q.table.columnNamed? fk.targetColumn = some c' ∧ e = ⟨c.id, q.table.id, c'.id⟩ := by
  rw [resolveEnds] at h
  split at h
  · cases h
  · rename_i fromId hfrom
    obtain ⟨c, hc, rfl⟩ := Option.map_eq_some_iff.1 hfrom
    split at h
    · cases h
    · rename_i q hq
      split at h
      · cases h
      · rename_i toId hto
        obtain ⟨c', hc', rfl⟩ := Option.map_eq_some_iff.1 hto
        cases h
        exact ⟨c, q, c', hc, hq, hc', rfl⟩

theorem findPlaced?_eq_some {tables : List Placed} {key : QualifiedName} {q : Placed}
    (h : findPlaced? tables key = some q) : q ∈ tables ∧ q.draft.key = key :=
  ⟨List.mem_of_find?_eq_some h, by simpa using List.find?_some h⟩

theorem columnNamed?_eq_some {t : Table} {name : String} {c : Column}
    (h : t.columnNamed? name = some c) : c ∈ t.columns ∧ c.name = name :=
  ⟨List.mem_of_find?_eq_some h, by simpa using List.find?_some h⟩

/-- A foreign key is resolved if and only if both its ends are there. -/
theorem exists_resolveEnds_iff (hd : d.Distinct) {p : Placed} (hp : p ∈ d.placed ids)
    (fk : ForeignKeyDraft) :
    (∃ e, resolveEnds (d.placed ids) p fk = .ok e) ↔ d.HasEnds p.draft fk := by
  constructor
  · rintro ⟨e, he⟩
    obtain ⟨c, q, c', hc, hq, hc', -⟩ := resolveEnds_eq_ok he
    obtain ⟨hc, hname⟩ := columnNamed?_eq_some hc
    obtain ⟨hq, hkey⟩ := findPlaced?_eq_some hq
    obtain ⟨hc', hname'⟩ := columnNamed?_eq_some hc'
    refine ⟨?_, q.draft, ?_, hkey, ?_⟩
    · rw [← map_name_columns hp, ← hname]
      exact List.mem_map_of_mem hc
    · rw [← map_draft_placed ids d]
      exact List.mem_map_of_mem hq
    · rw [← map_name_columns hq, ← hname']
      exact List.mem_map_of_mem hc'
  · rintro ⟨hfrom, u, hu, hkey, hto⟩
    rw [← map_draft_placed ids d] at hu
    obtain ⟨q, hq, rfl⟩ := List.mem_map.1 hu
    have hkeys : ((d.placed ids).map fun p => p.draft.key).Nodup := by
      have := hd.keys
      rwa [← map_draft_placed ids d, List.map_map] at this
    rw [← map_name_columns hp] at hfrom
    rw [← map_name_columns hq] at hto
    obtain ⟨c, hc⟩ := exists_columnNamed? hfrom
    obtain ⟨c', hc'⟩ := exists_columnNamed? hto
    have hfind : findPlaced? (d.placed ids) fk.target = some q := by
      rw [← hkey]
      exact find?_eq_of_nodup hkeys hq
    refine ⟨⟨c.id, q.table.id, c'.id⟩, ?_⟩
    rw [resolveEnds, Placed.columnId?, hc]
    simp only [Option.map_some, hfind, Placed.columnId?, hc']

section Linked

variable (hids : ids.Distinct) (hd : d.Distinct) {ts : List Table}
  (hts : ts.map Table.unlinked = (d.placed ids).map Placed.table)

include hids hts

theorem referencedTable?_placed {q : Placed} (hq : q ∈ d.placed ids) :
    ∃ u, (d.model ids ts).referencedTable? q.table.id = some u ∧ u.unlinked = q.table := by
  have hmem : q.table ∈ ts.map Table.unlinked := by
    rw [hts]
    exact List.mem_map_of_mem hq
  obtain ⟨u, hu, hunlinked⟩ := List.mem_map.1 hmem
  have hnodup : (ts.map Table.id).Nodup := by
    have h := congrArg (List.map Table.id) hts
    rw [List.map_map, List.map_map] at h
    have hplaced := nodup_tableIds hids d
    rw [show (fun p : Placed => p.table.id) = Table.id ∘ Placed.table from rfl, ← h] at hplaced
    exact hplaced
  refine ⟨u, ?_, hunlinked⟩
  rw [← hunlinked]
  exact find?_reverse_eq_of_nodup hnodup hu

include hd

/-- A foreign key that is resolved means the columns and the table that its draft names. -/
theorem foreignKeyOutline?_resolved {p : Placed} (hp : p ∈ d.placed ids) {t : Table}
    (ht : t.unlinked = p.table) {fk : ForeignKeyDraft} {e : Ends}
    (he : resolveEnds (d.placed ids) p fk = .ok e) (id name : String) :
    (d.model ids ts).foreignKeyOutline? t (foreignKey id name e fk) = some { fk with name } := by
  obtain ⟨c, q, c', hc, hq, hc', rfl⟩ := resolveEnds_eq_ok he
  obtain ⟨hc, hname⟩ := columnNamed?_eq_some hc
  obtain ⟨hq, hkey⟩ := findPlaced?_eq_some hq
  obtain ⟨hc', hname'⟩ := columnNamed?_eq_some hc'
  obtain ⟨u, hu, hunlinked⟩ := referencedTable?_placed hids hts hq
  have hsource : t.column? c.id = some c := by
    have : p.table.column? c.id = some c := find?_eq_of_nodup (nodup_columnIds hids hp) hc
    rwa [← ht] at this
  have htarget : u.column? c'.id = some c' := by
    have : q.table.column? c'.id = some c' := find?_eq_of_nodup (nodup_columnIds hids hq) hc'
    rwa [← hunlinked] at this
  have hqualify : (d.model ids ts).qualify u.schemaId u.name = fk.target := by
    have := qualify_placed hids hd ts hq
    rwa [← hunlinked, hkey] at this
  rw [Model.foreignKeyOutline?]
  change (t.column? c.id).bind _ = _
  rw [hsource, Option.bind_some]
  change ((d.model ids ts).referencedTable? q.table.id).bind _ = _
  rw [hu, Option.bind_some]
  change (u.column? c'.id).bind _ = _
  rw [htarget, Option.bind_some, hqualify, hname, hname']
  rfl

end Linked

end Placed

end Script

end SchemaDdl
