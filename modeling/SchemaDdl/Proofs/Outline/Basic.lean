import Mathlib.Data.List.Nodup
import Mathlib.Data.List.Perm.Basic
import SchemaDdl.Ddl.Generate
import SchemaDdl.Script.Draft

/-!
# Outlines

The outline of a model is what it describes without the ids that hold it together: schemas are known
by their names, tables and types by their qualified names, and a foreign key names the columns at
its ends. Two outlines are similar if they differ only in the order of schemas, of tables and of
types of different schemas.
-/

namespace SchemaDdl

open Script

structure ColumnOutline extends ColumnDraft where
  comment : Option String := none
  deriving DecidableEq

structure TableOutline where
  key : QualifiedName
  comment : Option String
  columns : List ColumnOutline
  foreignKeys : List ForeignKeyDraft
  deriving DecidableEq

structure Outline where
  schemas : List String
  types : List TypeDraft
  tables : List TableOutline
  deriving DecidableEq

def Column.outline (c : Column) : ColumnOutline where
  name := c.name
  type := c.type
  nullable := c.nullable
  defaultValue := c.defaultValue
  isPrimaryKey := c.isPrimaryKey
  isUnique := c.isUnique
  comment := c.comment

@[simp] theorem Column.name_outline (c : Column) : c.outline.name = c.name := rfl

namespace Model

def qualify (m : Model) (schemaId name : String) : QualifiedName :=
  ⟨(m.schemaName? schemaId).getD defaultSchema, name⟩

/-- None when the column at either end is missing. -/
def foreignKeyOutline? (m : Model) (t : Table) (fk : ForeignKey) : Option ForeignKeyDraft := do
  let source ← t.column? fk.fromColumnId
  let target ← m.referencedTable? fk.toTableId
  let targetColumn ← target.column? fk.toColumnId
  return {
    name := fk.name, fromColumn := source.name, target := m.qualify target.schemaId target.name
    targetColumn := targetColumn.name, onDelete := fk.onDelete, onUpdate := fk.onUpdate }

def typeOutline (m : Model) (t : EnumType) : TypeDraft :=
  ⟨m.qualify t.schemaId t.name, t.values⟩

def tableOutline (m : Model) (t : Table) : TableOutline where
  key := m.qualify t.schemaId t.name
  comment := t.comment
  columns := t.columns.map Column.outline
  foreignKeys := t.foreignKeys.filterMap (m.foreignKeyOutline? t)

def outline (m : Model) : Outline where
  schemas := m.schemas.map Schema.name
  types := m.types.map m.typeOutline
  tables := m.tables.map m.tableOutline

/-- Every reference to a schema finds one. -/
structure Housed (m : Model) : Prop where
  types : ∀ t ∈ m.types, (m.schemaName? t.schemaId).isSome
  tables : ∀ t ∈ m.tables, (m.schemaName? t.schemaId).isSome

/-- Every reference by id finds what it means, so the outline leaves nothing out. -/
structure Linked (m : Model) : Prop extends Housed m where
  foreignKeys : ∀ t ∈ m.tables, ∀ fk ∈ t.foreignKeys, (m.foreignKeyOutline? t fk).isSome

end Model

/-! ## Looking up -/

section Find

variable {α κ : Type} [BEq κ] [LawfulBEq κ] {id : α → κ} {xs : List α} {x : α}

theorem find?_eq_of_nodup (h : (xs.map id).Nodup) (hx : x ∈ xs) :
    xs.find? (fun y => id y == id x) = some x := by
  cases hfind : xs.find? fun y => id y == id x with
  | none =>
    have := List.find?_eq_none.1 hfind x hx
    simp at this
  | some y =>
    have hid : id y = id x := by simpa using List.find?_some hfind
    rw [List.inj_on_of_nodup_map h (List.mem_of_find?_eq_some hfind) hx hid]

theorem find?_reverse_eq_of_nodup (h : (xs.map id).Nodup) (hx : x ∈ xs) :
    xs.reverse.find? (fun y => id y == id x) = some x := by
  refine find?_eq_of_nodup ?_ (List.mem_reverse.2 hx)
  rwa [List.map_reverse, List.nodup_reverse]

end Find

/-! ## Sorting by name -/

namespace Model

variable {α : Type} {name : α → String}

theorem perm_sortedByName (name : α → String) (xs : List α) : (sortedByName name xs).Perm xs :=
  List.mergeSort_perm xs _

theorem pairwise_sortedByName (name : α → String) (xs : List α) :
    (sortedByName name xs).Pairwise fun a b => name a ≤ name b := by
  have hle (a b : α) : (!decide (name b < name a)) = true ↔ name a ≤ name b := by
    rw [Bool.not_eq_true', decide_eq_false_iff_not, String.not_lt]
  have h : (sortedByName name xs).Pairwise fun a b => (!decide (name b < name a)) = true := by
    refine List.pairwise_mergeSort ?_ ?_ xs
    · exact fun a b c hab hbc => (hle a c).2 (String.le_trans ((hle a b).1 hab) ((hle b c).1 hbc))
    · intro a b
      rw [Bool.or_eq_true, hle, hle]
      exact String.le_total _ _
  exact h.imp fun hab => (hle _ _).1 hab

/-- Elements with different names have one sorted order. -/
theorem sortedByName_eq {xs ys : List α} (h : xs.Perm ys) (hxs : (xs.map name).Nodup) :
    sortedByName name xs = sortedByName name ys := by
  have hperm := (perm_sortedByName name xs).trans (h.trans (perm_sortedByName name ys).symm)
  refine hperm.eq_of_pairwise ?_ (pairwise_sortedByName name xs) (pairwise_sortedByName name ys)
  intro a b ha hb hab hba
  have ha' := (perm_sortedByName name xs).mem_iff.1 ha
  have hb' := h.mem_iff.2 ((perm_sortedByName name ys).mem_iff.1 hb)
  exact List.inj_on_of_nodup_map hxs ha' hb' (String.le_antisymm hab hba)

theorem map_sortedByName {β : Type} {name' : β → String} {f : α → β} {xs : List α}
    (h : ∀ x ∈ xs, name' (f x) = name x) :
    (sortedByName name xs).map f = sortedByName name' (xs.map f) := by
  refine List.map_mergeSort fun a ha b hb => ?_
  rw [h a ha, h b hb]

end Model

/-! ## Grouping by schema -/

section Group

variable {α : Type} {key : α → String}

/-- The elements with the given key. -/
def group (key : α → String) (xs : List α) (k : String) : List α :=
  xs.filter fun x => key x == k

theorem mem_group {xs : List α} {k : String} {x : α} : x ∈ group key xs k ↔ x ∈ xs ∧ key x = k := by
  rw [group, List.mem_filter, beq_iff_eq]

theorem group_eq_nil {xs : List α} {k : String} (h : ∀ x ∈ xs, key x ≠ k) : group key xs k = [] := by
  refine List.filter_eq_nil_iff.2 fun x hx => ?_
  rw [beq_iff_eq]
  exact h x hx

theorem group_of_const {xs : List α} {k : String} (h : ∀ x ∈ xs, key x = k) :
    group key xs k = xs := by
  refine List.filter_eq_self.2 fun x hx => ?_
  rw [beq_iff_eq]
  exact h x hx

/-- A group picked out of groups is that group. -/
theorem group_flatMap {β : Type} {name : β → String} {ks : List β} (hks : (ks.map name).Nodup)
    (g : β → List α) (hg : ∀ k ∈ ks, ∀ x ∈ g k, key x = name k) {k : β} (hk : k ∈ ks) :
    group key (ks.flatMap g) (name k) = g k := by
  induction ks with
  | nil => cases hk
  | cons j js ih =>
    obtain ⟨hj, hjs⟩ := List.nodup_cons.1 hks
    have htail := fun i hi => hg i (List.mem_cons_of_mem j hi)
    rw [List.flatMap_cons, group, List.filter_append]
    rcases List.mem_cons.1 hk with rfl | hk
    · have hrest : group key (js.flatMap g) (name k) = [] := by
        refine group_eq_nil fun x hx hxk => ?_
        obtain ⟨i, hi, hx⟩ := List.mem_flatMap.1 hx
        rw [htail i hi x hx] at hxk
        exact hj (hxk ▸ List.mem_map_of_mem hi)
      rw [group] at hrest
      rw [hrest, List.append_nil]
      exact group_of_const (hg k List.mem_cons_self)
    · have hfront : group key (g j) (name k) = [] := by
        refine group_eq_nil fun x hx hxk => ?_
        rw [hg j List.mem_cons_self x hx] at hxk
        exact hj (hxk ▸ List.mem_map_of_mem hk)
      rw [group] at hfront
      rw [hfront, List.nil_append]
      exact ih hjs htail hk

/-- Grouping by keys that cover a list only moves its elements. -/
theorem perm_flatMap_group {ks : List String} (hks : ks.Nodup) {xs : List α}
    (hxs : ∀ x ∈ xs, key x ∈ ks) : (ks.flatMap (group key xs)).Perm xs := by
  induction ks generalizing xs with
  | nil =>
    cases xs with
    | nil => exact .nil
    | cons x xs => cases hxs x List.mem_cons_self
  | cons k ks ih =>
    obtain ⟨hk, hks⟩ := List.nodup_cons.1 hks
    let others := xs.filter fun x => !(key x == k)
    have hothers (j : String) (hj : j ∈ ks) : group key xs j = group key others j := by
      rw [group, group, List.filter_filter]
      refine List.filter_congr fun x _ => ?_
      by_cases hx : key x = j
      · have hne : j ≠ k := fun h => hk (h ▸ hj)
        simp [hx, hne]
      · simp [hx]
    have hmem : ∀ x ∈ others, key x ∈ ks := by
      intro x hx
      obtain ⟨hx, hne⟩ := List.mem_filter.1 hx
      rcases List.mem_cons.1 (hxs x hx) with h | h
      · simp [h] at hne
      · exact h
    rw [List.flatMap_cons, List.flatMap_congr hothers]
    exact ((ih hks hmem).append_left _).trans (List.filter_append_perm _ xs)

end Group

/-! ## Similar outlines -/

namespace Outline

def typesOf (o : Outline) (schema : String) : List TypeDraft :=
  group (fun t => t.key.schema) o.types schema

def tablesOf (o : Outline) (schema : String) : List TableOutline :=
  Model.sortedByName (fun t => t.key.name) (group (fun t => t.key.schema) o.tables schema)

/-- Equal up to the order of schemas, of tables and of types of different schemas. -/
structure Similar (o o' : Outline) : Prop where
  schemas : o.schemas.Perm o'.schemas
  types : ∀ schema, o.typesOf schema = o'.typesOf schema
  tables : o.tables.Perm o'.tables

/-- Schemas in order of their names, then types and tables by schema, tables by name. -/
def sorted (o : Outline) : Outline :=
  let names := Model.sortedByName id o.schemas
  { schemas := names, types := names.flatMap o.typesOf, tables := names.flatMap o.tablesOf }

/-- No name is given twice, and every part belongs to a schema that is listed. -/
structure Distinct (o : Outline) : Prop where
  schemas : o.schemas.Nodup
  types : ∀ t ∈ o.types, t.key.schema ∈ o.schemas
  tables : ∀ t ∈ o.tables, t.key.schema ∈ o.schemas
  keys : (o.tables.map TableOutline.key).Nodup

variable {o o' : Outline}

theorem nodup_sortedByName {xs : List String} (h : xs.Nodup) : (Model.sortedByName id xs).Nodup :=
  (Model.perm_sortedByName id xs).nodup_iff.2 h

theorem Distinct.perm_types (h : o.Distinct) : o.sorted.types.Perm o.types := by
  refine perm_flatMap_group (nodup_sortedByName h.schemas) fun t ht => ?_
  exact (Model.perm_sortedByName id _).mem_iff.2 (h.types t ht)

theorem Distinct.perm_tables (h : o.Distinct) : o.sorted.tables.Perm o.tables := by
  refine .trans ?_ (perm_flatMap_group (nodup_sortedByName h.schemas) fun t ht =>
    (Model.perm_sortedByName id _).mem_iff.2 (h.tables t ht))
  exact List.Perm.flatMap_left _ fun s _ => Model.perm_sortedByName _ _

theorem Distinct.similar_sorted (h : o.Distinct) : o.sorted.Similar o := by
  refine ⟨Model.perm_sortedByName id _, fun schema => ?_, h.perm_tables⟩
  by_cases hs : schema ∈ o.schemas
  · have hnames : ((Model.sortedByName id o.schemas).map id).Nodup := by
      rw [List.map_id]
      exact nodup_sortedByName h.schemas
    exact group_flatMap hnames o.typesOf (fun s _ t ht => (mem_group.1 ht).2)
      ((Model.perm_sortedByName id _).mem_iff.2 hs)
  · have hnone (ts : List TypeDraft) (hts : ∀ t ∈ ts, t ∈ o.types) :
        group (fun t => t.key.schema) ts schema = [] :=
      group_eq_nil fun t ht hts' => hs (hts' ▸ h.types t (hts t ht))
    rw [typesOf, typesOf, hnone _ fun t ht => h.perm_types.mem_iff.1 ht, hnone _ fun _ ht => ht]

/-- Similar outlines are sorted alike. -/
theorem Similar.sorted_eq (h : o.Similar o') (ho : o.Distinct) : o.sorted = o'.sorted := by
  have hschemas : Model.sortedByName id o.schemas = Model.sortedByName id o'.schemas :=
    Model.sortedByName_eq h.schemas (by rw [List.map_id]; exact ho.schemas)
  have htypes : o.typesOf = o'.typesOf := funext h.types
  have htables : o.tablesOf = o'.tablesOf := by
    funext schema
    refine Model.sortedByName_eq (h.tables.filter _) ?_
    refine List.Nodup.map_on (fun t ht u hu htu => ?_) (.filter _ ho.keys.of_map)
    have hkey : t.key = u.key := by
      have hschema : t.key.schema = u.key.schema :=
        (mem_group.1 ht).2.trans (mem_group.1 hu).2.symm
      cases hk : t.key
      cases hk' : u.key
      rw [hk, hk'] at htu hschema
      cases htu
      cases hschema
      rfl
    exact List.inj_on_of_nodup_map ho.keys (mem_group.1 ht).1 (mem_group.1 hu).1 hkey
  rw [sorted, sorted, hschemas, htypes, htables]

end Outline

end SchemaDdl
