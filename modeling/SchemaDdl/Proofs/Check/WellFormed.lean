import SchemaDdl.Proofs.Check.Faultless
import SchemaDdl.Proofs.Outline.Basic

/-!
# Well-formed models

A model whose references resolve, whose parts are told apart and whose keys are sound has no errors
but blank names and foreign keys between columns of different types.
-/

namespace SchemaDdl

namespace Model

/-- The columns at both ends of the foreign key are there. -/
def HasEnds (m : Model) (t : Table) (fk : ForeignKey) : Prop :=
  ∃ c u d, t.column? fk.fromColumnId = some c ∧ m.table? fk.toTableId = some u ∧
    u.column? fk.toColumnId = some d

/-- Every part has an id, and tables and the columns of one table do not share theirs. -/
structure Identified (m : Model) : Prop where
  schemas : ∀ s ∈ m.schemas, s.id ≠ ""
  tables : ∀ t ∈ m.tables, t.id ≠ ""
  distinctTables : (m.tables.map Table.id).Nodup
  columns : ∀ t ∈ m.tables, ∀ c ∈ t.columns, c.id ≠ ""
  distinctColumns : ∀ t ∈ m.tables, (t.columns.map Column.id).Nodup
  foreignKeys : ∀ t ∈ m.tables, ∀ fk ∈ t.foreignKeys, fk.id ≠ ""

structure WellFormed (m : Model) : Prop where
  version : m.version = currentVersion
  default : m.schemas.head?.map Schema.name = some defaultSchema
  schemaNames : (m.schemas.map Schema.name).Nodup
  typeSchemas : ∀ t ∈ m.types, (m.schema? t.schemaId).isSome
  tableSchemas : ∀ t ∈ m.tables, (m.schema? t.schemaId).isSome
  tableNames : (m.tables.map fun t => ((m.schema? t.schemaId).map Schema.name, t.name)).Nodup
  values : ∀ t ∈ m.types, t.values ≠ []
  columnTypes : ∀ t ∈ m.tables, ∀ c ∈ t.columns, Check.isBlank c.type = false
  primaryKeys : ∀ t ∈ m.tables, ∀ c ∈ t.columns, c.isPrimaryKey = true →
    c.isUnique = true ∧ c.nullable = false
  foreignKeys : ∀ t ∈ m.tables, ∀ fk ∈ t.foreignKeys, m.HasEnds t fk
  constraints : ∀ t ∈ m.tables, (t.foreignKeys.map ForeignKey.name).Nodup
  sanitized : ∀ t ∈ m.tables, ∀ fk ∈ t.foreignKeys, ∀ fallback,
    Naming.sanitize fk.name fallback = fk.name

end Model

namespace Check

/-- The errors that a well-formed model can have: a blank name of a schema, a type, a table or a
column, and a foreign key between columns of different types. -/
inductive Residual (m : Model) : Issue → Prop where
  | schemaName {i : Nat} {s : Schema} (hs : m.schemas[i]? = some s) (h : isBlank s.name = true) :
    Residual m (.defect [⟨.schema, some s.name, i⟩] .blankName)
  | typeName {i : Nat} {t : EnumType} (ht : m.types[i]? = some t) (h : isBlank t.name = true) :
    Residual m (.defect [⟨.type, some t.name, i⟩] .blankName)
  | tableName {i : Nat} {t : Table} (ht : m.tables[i]? = some t) (h : isBlank t.name = true) :
    Residual m (.defect [⟨.table, some t.name, i⟩] .blankName)
  | columnName {i j : Nat} {t : Table} {c : Column} (ht : m.tables[i]? = some t)
    (hc : t.columns[j]? = some c) (h : isBlank c.name = true) :
    Residual m (.defect [⟨.table, some t.name, i⟩, ⟨.column, some c.name, j⟩] .blankName)
  | typeMismatch {t u : Table} {fk : ForeignKey} {c d : Column} (ht : t ∈ m.tables)
    (hfk : fk ∈ t.foreignKeys) (hc : t.column? fk.fromColumnId = some c)
    (hu : m.table? fk.toTableId = some u) (hd : u.column? fk.toColumnId = some d)
    (h : comparableType c ≠ comparableType d) :
    Residual m (.typeMismatch fk.name (qualifiedColumn m t c) c.type (qualifiedColumn m u d) d.type)

section Earlier

variable {α κ : Type} {key : α → κ} {xs front back : List α} {x : α}

theorem getElem?_of_split (h : xs = front ++ x :: back) : xs[front.length]? = some x := by
  rw [h, List.getElem?_append_right (Nat.le_refl _), Nat.sub_self]
  rfl

theorem mem_of_split (h : xs = front ++ x :: back) : x ∈ xs := by
  rw [h]
  exact List.mem_append_right _ List.mem_cons_self

variable [BEq κ] [LawfulBEq κ]

theorem any_earlier_eq_false (hxs : (xs.map key).Nodup) (h : xs = front ++ x :: back) :
    (front.any fun e => key e == key x) = false := by
  rw [h, List.map_append, List.map_cons, List.nodup_append] at hxs
  rw [List.any_eq_false]
  intro e he
  rw [beq_iff_eq]
  exact hxs.2.2 (key e) (List.mem_map_of_mem he) (key x) List.mem_cons_self

end Earlier

section WellFormed

variable {m : Model} (h : m.WellFormed) (hids : m.Identified)

theorem hasSchema_eq {id : String} : hasSchema m id = (m.schema? id).isSome :=
  List.isSome_find?.symm

include h

theorem any_earlier_table {front back : List Table} {t : Table}
    (hsplit : m.tables = front ++ t :: back) :
    (front.any fun e => e.schemaId == t.schemaId && e.name == t.name) = false := by
  have hnodup : (m.tables.map fun t => (t.schemaId, t.name)).Nodup := by
    refine List.Nodup.of_map (fun k => ((m.schema? k.1).map Schema.name, k.2)) ?_
    rw [List.map_map]
    exact h.tableNames
  exact any_earlier_eq_false hnodup hsplit

theorem typeDefects_residual {t : EnumType} (ht : t ∈ m.types) {d : Defect}
    (hd : d ∈ typeDefects m t) : d = .blankName ∧ isBlank t.name = true := by
  have hvalues : t.values.isEmpty = false := List.isEmpty_eq_false_iff.2 (h.values t ht)
  rw [typeDefects, hasSchema_eq, h.typeSchemas t ht, hvalues, List.mem_append, List.mem_append,
    mem_given, mem_given, mem_given] at hd
  rcases hd with (⟨hblank, rfl⟩ | ⟨hnone, -⟩) | ⟨hnone, -⟩
  · exact ⟨rfl, hblank⟩
  · cases hnone
  · cases hnone

include hids

theorem schemaDefects_residual {front back : List Schema} {s : Schema}
    (hsplit : m.schemas = front ++ s :: back) {d : Defect} (hd : d ∈ schemaDefects front s) :
    d = .blankName ∧ isBlank s.name = true := by
  rw [schemaDefects, any_earlier_eq_false h.schemaNames hsplit, List.mem_append, mem_given,
    beq_iff_eq] at hd
  rcases hd with ⟨hid, -⟩ | hd
  · exact absurd hid (hids.schemas s (mem_of_split hsplit))
  · split at hd
    · rename_i hblank
      exact ⟨List.mem_singleton.1 hd, hblank⟩
    · cases (mem_given.1 hd).1

theorem tableDefects_residual {front back : List Table} {t : Table}
    (hsplit : m.tables = front ++ t :: back) {d : Defect} (hd : d ∈ tableDefects m front t) :
    d = .blankName ∧ isBlank t.name = true := by
  have ht := mem_of_split hsplit
  have hid : (t.id == "") = false := beq_eq_false_iff_ne.2 (hids.tables t ht)
  rw [tableDefects, hid, any_earlier_eq_false hids.distinctTables hsplit, any_earlier_table h hsplit,
    hasSchema_eq, h.tableSchemas t ht, List.mem_append, List.mem_append, mem_given] at hd
  rcases hd with (hd | hd) | ⟨hnone, -⟩
  · cases hd
  · split at hd
    · rename_i hblank
      exact ⟨List.mem_singleton.1 hd, hblank⟩
    · cases (mem_given.1 hd).1
  · cases hnone

theorem columnDefects_residual {t : Table} (ht : t ∈ m.tables) {front back : List Column}
    {c : Column} (hsplit : t.columns = front ++ c :: back) {d : Defect}
    (hd : d ∈ columnDefects front c) : d = .blankName ∧ isBlank c.name = true := by
  have hc := mem_of_split hsplit
  have hid : (c.id == "") = false := beq_eq_false_iff_ne.2 (hids.columns t ht c hc)
  have hkey : (c.isPrimaryKey && (!c.isUnique || c.nullable)) = false := by
    rw [Bool.and_eq_false_imp]
    intro hprimary
    obtain ⟨hunique, hnullable⟩ := h.primaryKeys t ht c hc hprimary
    rw [hunique, hnullable]
    rfl
  rw [columnDefects, hid, any_earlier_eq_false (hids.distinctColumns t ht) hsplit,
    h.columnTypes t ht c hc, hkey, List.mem_append, List.mem_append, List.mem_append, mem_given,
    mem_given, mem_given] at hd
  rcases hd with ((hd | ⟨hblank, rfl⟩) | ⟨hnone, -⟩) | ⟨hnone, -⟩
  · cases hd
  · exact ⟨rfl, hblank⟩
  · cases hnone
  · cases hnone

theorem foreignKeyDefects_eq_nil_of_wellFormed {t : Table} (ht : t ∈ m.tables) {front back : List ForeignKey}
    {fk : ForeignKey} (hsplit : t.foreignKeys = front ++ fk :: back) :
    foreignKeyDefects front fk = [] := by
  have hfk := mem_of_split hsplit
  have hid : (fk.id == "") = false := beq_eq_false_iff_ne.2 (hids.foreignKeys t ht fk hfk)
  have hnames : (t.foreignKeys.map sanitizedName).Nodup := by
    have hsame : t.foreignKeys.map sanitizedName = t.foreignKeys.map ForeignKey.name :=
      List.map_congr_left fun fk hfk => h.sanitized t ht fk hfk _
    rw [hsame]
    exact h.constraints t ht
  rw [foreignKeyDefects, hid, any_earlier_eq_false hnames hsplit]
  rfl

/-- In a well-formed model nothing is wrong with single parts but blank names. -/
theorem structureIssues_residual {i : Issue} (hi : i ∈ structureIssues m) : Residual m i := by
  rw [structureIssues, h.version, bne_self_eq_false, List.mem_append, List.mem_append,
    List.mem_append] at hi
  rcases hi with ((hi | hi) | hi) | hi
  · cases hi
  · obtain ⟨front, s, back, hsplit, hi⟩ := mem_flatMapEarlier.1 hi
    obtain ⟨d, hd, rfl⟩ := List.mem_map.1 hi
    obtain ⟨rfl, hblank⟩ := schemaDefects_residual h hids hsplit hd
    exact .schemaName (getElem?_of_split hsplit) hblank
  · obtain ⟨front, t, back, hsplit, hi⟩ := mem_flatMapEarlier.1 hi
    obtain ⟨d, hd, rfl⟩ := List.mem_map.1 hi
    obtain ⟨rfl, hblank⟩ := typeDefects_residual h (mem_of_split hsplit) hd
    exact .typeName (getElem?_of_split hsplit) hblank
  · obtain ⟨front, t, back, hsplit, hi⟩ := mem_flatMapEarlier.1 hi
    have ht := getElem?_of_split hsplit
    rw [tableIssues, List.mem_append, List.mem_append] at hi
    rcases hi with (hi | hi) | hi
    · obtain ⟨d, hd, rfl⟩ := List.mem_map.1 hi
      obtain ⟨rfl, hblank⟩ := tableDefects_residual h hids hsplit hd
      exact .tableName ht hblank
    · obtain ⟨before, c, behind, hcolumns, hi⟩ := mem_flatMapEarlier.1 hi
      obtain ⟨d, hd, rfl⟩ := List.mem_map.1 hi
      obtain ⟨rfl, hblank⟩ := columnDefects_residual h hids (mem_of_split hsplit) hcolumns hd
      exact .columnName ht (getElem?_of_split hcolumns) hblank
    · obtain ⟨before, fk, behind, hfks, hi⟩ := mem_flatMapEarlier.1 hi
      obtain ⟨d, hd, -⟩ := List.mem_map.1 hi
      rw [List.nil_append, foreignKeyDefects_eq_nil_of_wellFormed h hids (mem_of_split hsplit) hfks] at hd
      cases hd

theorem referenceIssues_residual {t : Table} (ht : t ∈ m.tables) {fk : ForeignKey}
    (hfk : fk ∈ t.foreignKeys) {i : Issue} (hi : i ∈ referenceIssues m t fk) : Residual m i := by
  obtain ⟨c, u, d, hc, hu, hd⟩ := h.foreignKeys t ht fk hfk
  have hlast : m.referencedTable? fk.toTableId = some u := by
    obtain ⟨hmem, hid⟩ : u ∈ m.tables ∧ u.id = fk.toTableId :=
      ⟨List.mem_of_find?_eq_some hu, by simpa using List.find?_some hu⟩
    rw [← hid]
    exact find?_reverse_eq_of_nodup hids.distinctTables hmem
  rw [referenceIssues, hlast, hc] at hi
  simp only [hd] at hi
  rw [List.mem_append] at hi
  rcases hi with hi | hi
  · cases (mem_given.1 hi).1
  · rw [Option.toList_some, List.flatMap_singleton, typeIssue, mem_given, bne_iff_ne] at hi
    obtain ⟨hne, rfl⟩ := hi
    exact .typeMismatch ht hfk hc hu hd hne

/-- A well-formed model has no errors but blank names and foreign keys between different types. -/
theorem residual_of_isError {i : Issue} (hi : i ∈ validate m) (herror : i.isError = true) :
    Residual m i := by
  rcases List.mem_append.1 hi with hi | hi
  · exact structureIssues_residual h hids hi
  · obtain ⟨t, ht, hi⟩ := List.mem_flatMap.1 hi
    rw [keyIssues, List.mem_append, List.mem_append] at hi
    rcases hi with (hi | hi) | hi
    · obtain ⟨-, rfl⟩ := mem_given.1 hi
      cases herror
    · obtain ⟨-, rfl⟩ := mem_given.1 hi
      cases herror
    · obtain ⟨fk, hfk, hi⟩ := List.mem_flatMap.1 hi
      exact referenceIssues_residual h hids ht hfk hi

end WellFormed

end Check

end SchemaDdl
