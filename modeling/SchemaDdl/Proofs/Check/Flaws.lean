import Mathlib.Data.List.Nodup
import SchemaDdl.Proofs.Check.Faultless

/-!
# Flaws and errors

The checks walk through a model once, with what they have seen so far at hand. What they find is
stated here without the walk: a model has an error if and only if it has a flaw, where that two parts
share a name or an id is a condition on any two of them.
-/

namespace SchemaDdl

/-- The foreign key's table id stands for the last table that has it. -/
def Model.Denotes (m : Model) (fk : ForeignKey) (u : Table) : Prop :=
  ∃ front back, m.tables = front ++ u :: back ∧ u.id = fk.toTableId ∧
    ∀ v ∈ back, v.id ≠ fk.toTableId

/-- What makes a model unusable. -/
inductive Model.Flawed (m : Model) : Prop where
  | version (h : m.version ≠ 1)
  | schemaId {s : Schema} (hs : s ∈ m.schemas) (h : s.id = "")
  | schemaName {s : Schema} (hs : s ∈ m.schemas) (h : Check.isBlank s.name = true)
  | sharedSchemaName {s s' : Schema} (hs : [s, s'].Sublist m.schemas) (h : s.name = s'.name)
    (hname : Check.isBlank s.name = false)
  | typeName {e : EnumType} (he : e ∈ m.types) (h : Check.isBlank e.name = true)
  | typeSchema {e : EnumType} (he : e ∈ m.types) (h : ∀ s ∈ m.schemas, s.id ≠ e.schemaId)
  | typeValues {e : EnumType} (he : e ∈ m.types) (h : e.values = [])
  | tableId {t : Table} (ht : t ∈ m.tables) (h : t.id = "")
  | tableName {t : Table} (ht : t ∈ m.tables) (h : Check.isBlank t.name = true)
  | tableSchema {t : Table} (ht : t ∈ m.tables) (h : ∀ s ∈ m.schemas, s.id ≠ t.schemaId)
  | sharedTableId {t t' : Table} (ht : [t, t'].Sublist m.tables) (h : t.id = t'.id) (hid : t.id ≠ "")
  | sharedTableName {t t' : Table} (ht : [t, t'].Sublist m.tables) (hschema : t.schemaId = t'.schemaId)
    (h : t.name = t'.name) (hname : Check.isBlank t.name = false)
  | columnId {t : Table} {c : Column} (ht : t ∈ m.tables) (hc : c ∈ t.columns) (h : c.id = "")
  | columnName {t : Table} {c : Column} (ht : t ∈ m.tables) (hc : c ∈ t.columns)
    (h : Check.isBlank c.name = true)
  | columnType {t : Table} {c : Column} (ht : t ∈ m.tables) (hc : c ∈ t.columns)
    (h : Check.isBlank c.type = true)
  | sharedColumnId {t : Table} {c c' : Column} (ht : t ∈ m.tables) (hc : [c, c'].Sublist t.columns)
    (h : c.id = c'.id) (hid : c.id ≠ "")
  | primaryKey {t : Table} {c : Column} (ht : t ∈ m.tables) (hc : c ∈ t.columns)
    (hkey : c.isPrimaryKey = true) (h : c.isUnique = false ∨ c.nullable = true)
  | foreignKeyId {t : Table} {fk : ForeignKey} (ht : t ∈ m.tables) (hfk : fk ∈ t.foreignKeys)
    (h : fk.id = "")
  | sharedConstraint {t : Table} {fk fk' : ForeignKey} (ht : t ∈ m.tables)
    (hfk : [fk, fk'].Sublist t.foreignKeys)
    (h : Naming.sanitize fk.name (ForeignKey.fallbackName fk.id) =
      Naming.sanitize fk'.name (ForeignKey.fallbackName fk'.id))
  | missingTable {t : Table} {fk : ForeignKey} (ht : t ∈ m.tables) (hfk : fk ∈ t.foreignKeys)
    (h : ∀ u ∈ m.tables, u.id ≠ fk.toTableId)
  | missingColumn {t u : Table} {fk : ForeignKey} (ht : t ∈ m.tables) (hfk : fk ∈ t.foreignKeys)
    (hu : m.Denotes fk u) (h : ∀ c ∈ u.columns, c.id ≠ fk.toColumnId)
  | typeMismatch {t u : Table} {fk : ForeignKey} {c d : Column} (ht : t ∈ m.tables)
    (hfk : fk ∈ t.foreignKeys) (hu : m.Denotes fk u) (hc : t.column? fk.fromColumnId = some c)
    (hd : u.column? fk.toColumnId = some d)
    (h : Text.lowerCase (Text.trimmed c.type) ≠ Text.lowerCase (Text.trimmed d.type))

namespace Model

variable {m : Model} {fk : ForeignKey} {u : Table}

theorem referencedTable?_eq_some_iff : m.referencedTable? fk.toTableId = some u ↔ m.Denotes fk u := by
  rw [referencedTable?, List.find?_eq_some_iff_append]
  constructor
  · rintro ⟨hid, before, after, hsplit, hbefore⟩
    refine ⟨after.reverse, before.reverse, ?_, by simpa using hid, fun v hv => ?_⟩
    · rw [← List.reverse_reverse m.tables, hsplit, List.reverse_append, List.reverse_cons,
        List.append_assoc, List.singleton_append]
    · simpa using hbefore v (List.mem_reverse.1 hv)
  · rintro ⟨front, back, hsplit, hid, hback⟩
    refine ⟨by simpa using hid, back.reverse, front.reverse, ?_, fun v hv => ?_⟩
    · rw [hsplit, List.reverse_append, List.reverse_cons, List.append_assoc, List.singleton_append]
    · simpa using hback v (List.mem_reverse.1 hv)

theorem referencedTable?_eq_none_iff {id : String} :
    m.referencedTable? id = none ↔ ∀ u ∈ m.tables, u.id ≠ id := by
  simp [referencedTable?, List.find?_eq_none]

end Model

namespace Check

theorem pair_sublist_of_mem {α : Type} {xs front back : List α} {x y : α}
    (hsplit : xs = front ++ x :: back) (hy : y ∈ front) : [y, x].Sublist xs := by
  rw [hsplit]
  exact (List.singleton_sublist.2 hy).append (List.nil_sublist back |>.cons_cons x)

theorem ne_of_pair_sublist {α κ : Type} {xs : List α} {x y : α} {key : α → κ}
    (hnodup : (xs.map key).Nodup) (h : [x, y].Sublist xs) : key x ≠ key y := by
  have hpair : [key x, key y].Nodup := (h.map key).nodup hnodup
  simpa using hpair

theorem not_hasSchema_iff {m : Model} {id : String} :
    hasSchema m id = false ↔ ∀ s ∈ m.schemas, s.id ≠ id := by
  simp [hasSchema]

/-! ## Every error has a flaw -/

section Sound

variable {m : Model} {t : Table} {d : Defect}

theorem flawed_of_schemaDefects {s : Schema} {front back : List Schema}
    (hsplit : m.schemas = front ++ s :: back) (hd : d ∈ schemaDefects front s) : m.Flawed := by
  have hs : s ∈ m.schemas := hsplit ▸ List.mem_append_right _ List.mem_cons_self
  rw [schemaDefects, List.mem_append] at hd
  rcases hd with hd | hd
  · exact .schemaId hs (by simpa using (mem_given.1 hd).1)
  · split at hd
    · exact .schemaName hs ‹_›
    · obtain ⟨e, he, hname⟩ := List.any_eq_true.1 (mem_given.1 hd).1
      rw [beq_iff_eq] at hname
      refine .sharedSchemaName (pair_sublist_of_mem hsplit he) hname ?_
      rw [hname]
      exact Bool.eq_false_iff.2 ‹_›

theorem flawed_of_typeDefects {e : EnumType} (he : e ∈ m.types) (hd : d ∈ typeDefects m e) :
    m.Flawed := by
  rw [typeDefects, List.mem_append, List.mem_append] at hd
  rcases hd with (hd | hd) | hd
  · exact .typeName he (mem_given.1 hd).1
  · exact .typeSchema he (not_hasSchema_iff.1 (by simpa using (mem_given.1 hd).1))
  · exact .typeValues he (List.isEmpty_iff.1 (mem_given.1 hd).1)

theorem flawed_of_tableDefects {front back : List Table} (hsplit : m.tables = front ++ t :: back)
    (hd : d ∈ tableDefects m front t) : m.Flawed := by
  have ht : t ∈ m.tables := hsplit ▸ List.mem_append_right _ List.mem_cons_self
  rw [tableDefects, List.mem_append, List.mem_append] at hd
  rcases hd with (hd | hd) | hd
  · split at hd
    · exact .tableId ht (by simpa using ‹(t.id == "") = true›)
    · obtain ⟨e, he, hid⟩ := List.any_eq_true.1 (mem_given.1 hd).1
      rw [beq_iff_eq] at hid
      refine .sharedTableId (pair_sublist_of_mem hsplit he) hid ?_
      rw [hid]
      simpa using ‹¬(t.id == "") = true›
  · split at hd
    · exact .tableName ht ‹_›
    · obtain ⟨e, he, hname⟩ := List.any_eq_true.1 (mem_given.1 hd).1
      rw [Bool.and_eq_true, beq_iff_eq, beq_iff_eq] at hname
      refine .sharedTableName (pair_sublist_of_mem hsplit he) hname.1 hname.2 ?_
      rw [hname.2]
      exact Bool.eq_false_iff.2 ‹_›
  · exact .tableSchema ht (not_hasSchema_iff.1 (by simpa using (mem_given.1 hd).1))

theorem flawed_of_columnDefects (ht : t ∈ m.tables) {c : Column} {front back : List Column}
    (hsplit : t.columns = front ++ c :: back) (hd : d ∈ columnDefects front c) : m.Flawed := by
  have hc : c ∈ t.columns := hsplit ▸ List.mem_append_right _ List.mem_cons_self
  rw [columnDefects, List.mem_append, List.mem_append, List.mem_append] at hd
  rcases hd with ((hd | hd) | hd) | hd
  · split at hd
    · exact .columnId ht hc (by simpa using ‹(c.id == "") = true›)
    · obtain ⟨e, he, hid⟩ := List.any_eq_true.1 (mem_given.1 hd).1
      rw [beq_iff_eq] at hid
      refine .sharedColumnId ht (pair_sublist_of_mem hsplit he) hid ?_
      rw [hid]
      simpa using ‹¬(c.id == "") = true›
  · exact .columnName ht hc (mem_given.1 hd).1
  · exact .columnType ht hc (mem_given.1 hd).1
  · have hweak := (mem_given.1 hd).1
    rw [Bool.and_eq_true, Bool.or_eq_true, Bool.not_eq_true'] at hweak
    exact .primaryKey ht hc hweak.1 hweak.2

theorem flawed_of_foreignKeyDefects (ht : t ∈ m.tables) {fk : ForeignKey}
    {front back : List ForeignKey} (hsplit : t.foreignKeys = front ++ fk :: back)
    (hd : d ∈ foreignKeyDefects front fk) : m.Flawed := by
  have hfk : fk ∈ t.foreignKeys := hsplit ▸ List.mem_append_right _ List.mem_cons_self
  rw [foreignKeyDefects, List.mem_append] at hd
  rcases hd with hd | hd
  · exact .foreignKeyId ht hfk (by simpa using (mem_given.1 hd).1)
  · obtain ⟨e, he, hname⟩ := List.any_eq_true.1 (mem_given.1 hd).1
    exact .sharedConstraint ht (pair_sublist_of_mem hsplit he) (beq_iff_eq.1 hname)

theorem flawed_of_structureIssues {i : Issue} (h : i ∈ structureIssues m) : m.Flawed := by
  rw [structureIssues, List.mem_append, List.mem_append, List.mem_append] at h
  rcases h with ((h | h) | h) | h
  · obtain ⟨d, hd, -⟩ := List.mem_map.1 h
    exact .version (by simpa [Model.currentVersion] using (mem_given.1 hd).1)
  · obtain ⟨front, s, back, hsplit, h⟩ := mem_flatMapEarlier.1 h
    obtain ⟨d, hd, -⟩ := List.mem_map.1 h
    exact flawed_of_schemaDefects hsplit hd
  · obtain ⟨front, e, back, hsplit, h⟩ := mem_flatMapEarlier.1 h
    obtain ⟨d, hd, -⟩ := List.mem_map.1 h
    exact flawed_of_typeDefects (hsplit ▸ List.mem_append_right _ List.mem_cons_self) hd
  · obtain ⟨front, t, back, hsplit, h⟩ := mem_flatMapEarlier.1 h
    have ht : t ∈ m.tables := hsplit ▸ List.mem_append_right _ List.mem_cons_self
    rw [tableIssues, List.mem_append, List.mem_append] at h
    rcases h with (h | h) | h
    · obtain ⟨d, hd, -⟩ := List.mem_map.1 h
      exact flawed_of_tableDefects hsplit hd
    · obtain ⟨before, c, behind, hcolumns, h⟩ := mem_flatMapEarlier.1 h
      obtain ⟨d, hd, -⟩ := List.mem_map.1 h
      exact flawed_of_columnDefects ht hcolumns hd
    · obtain ⟨before, fk, behind, hforeignKeys, h⟩ := mem_flatMapEarlier.1 h
      obtain ⟨d, hd, -⟩ := List.mem_map.1 h
      exact flawed_of_foreignKeyDefects ht hforeignKeys hd

/-- A source column that is missing is only warned about. -/
theorem flawed_of_referenceIssues (ht : t ∈ m.tables) {fk : ForeignKey} (hfk : fk ∈ t.foreignKeys)
    {i : Issue} (h : i ∈ referenceIssues m t fk) (herror : i.isError = true) : m.Flawed := by
  rw [referenceIssues, List.mem_append] at h
  rcases h with h | h
  · rw [(mem_given.1 h).2] at herror
    cases herror
  · cases htable : m.referencedTable? fk.toTableId with
    | none => exact .missingTable ht hfk (Model.referencedTable?_eq_none_iff.1 htable)
    | some u =>
      have hu := Model.referencedTable?_eq_some_iff.1 htable
      rw [htable] at h
      cases htarget : u.column? fk.toColumnId with
      | none =>
        refine .missingColumn ht hfk hu fun c hc => ?_
        simpa using List.find?_eq_none.1 htarget c hc
      | some d =>
        simp only [htarget, List.mem_flatMap, Option.mem_toList] at h
        obtain ⟨c, hc, h⟩ := h
        exact .typeMismatch ht hfk hu hc htarget (bne_iff_ne.1 (mem_given.1 h).1)

theorem flawed_of_hasErrors (h : hasErrors (validate m) = true) : m.Flawed := by
  obtain ⟨i, hi, herror⟩ := List.any_eq_true.1 h
  rcases List.mem_append.1 hi with hi | hi
  · exact flawed_of_structureIssues hi
  · obtain ⟨t, ht, hi⟩ := List.mem_flatMap.1 hi
    rw [keyIssues, List.mem_append, List.mem_append] at hi
    rcases hi with (hi | hi) | hi
    · rw [(mem_given.1 hi).2] at herror
      cases herror
    · rw [(mem_given.1 hi).2] at herror
      cases herror
    · obtain ⟨fk, hfk, hi⟩ := List.mem_flatMap.1 hi
      exact flawed_of_referenceIssues ht hfk hi herror

end Sound

/-! ## No flaw goes without an error -/

section Complete

variable {m : Model} {t : Table} (h : hasErrors (validate m) = false)

include h

theorem schema_named {s : Schema} (hs : s ∈ m.schemas) :
    s.id ≠ "" ∧ isBlank s.name = false := by
  obtain ⟨front, back, hsplit⟩ := List.append_of_mem hs
  have hdefects := schemaDefects_eq_nil h hsplit
  rw [schemaDefects, List.append_eq_nil_iff, given_eq_nil] at hdefects
  refine ⟨by simpa using hdefects.1, ?_⟩
  cases hname : isBlank s.name with
  | false => rfl
  | true => simp [hname] at hdefects

theorem type_named {e : EnumType} (he : e ∈ m.types) : isBlank e.name = false := by
  have hdefects := typeDefects_eq_nil h he
  rw [typeDefects, List.append_eq_nil_iff, List.append_eq_nil_iff, given_eq_nil] at hdefects
  exact hdefects.1.1

theorem table_named (ht : t ∈ m.tables) : t.id ≠ "" ∧ isBlank t.name = false := by
  obtain ⟨front, back, hsplit⟩ := List.append_of_mem ht
  have hdefects := tableDefects_eq_nil h hsplit
  rw [tableDefects, List.append_eq_nil_iff, List.append_eq_nil_iff] at hdefects
  constructor
  · intro hid
    simp [hid] at hdefects
  · cases hname : isBlank t.name with
    | false => rfl
    | true => simp [hname] at hdefects

theorem nodup_tableIds : (m.tables.map Table.id).Nodup := by
  refine nodup_map_of_earlier fun front t back hsplit e he => ?_
  have hdefects := tableDefects_eq_nil h hsplit
  rw [tableDefects, List.append_eq_nil_iff, List.append_eq_nil_iff] at hdefects
  have hid := hdefects.1.1
  split at hid
  · cases hid
  · rw [given_eq_nil, List.any_eq_false] at hid
    simpa using hid e he

theorem column_named (ht : t ∈ m.tables) {c : Column} (hc : c ∈ t.columns) :
    c.id ≠ "" ∧ isBlank c.name = false ∧ isBlank c.type = false := by
  obtain ⟨front, back, hsplit⟩ := List.append_of_mem hc
  have hdefects := columnDefects_eq_nil h ht hsplit
  rw [columnDefects, List.append_eq_nil_iff, List.append_eq_nil_iff, List.append_eq_nil_iff,
    given_eq_nil, given_eq_nil] at hdefects
  refine ⟨fun hid => ?_, hdefects.1.1.2, hdefects.1.2⟩
  simp [hid] at hdefects

theorem nodup_columnIds (ht : t ∈ m.tables) : (t.columns.map Column.id).Nodup := by
  refine nodup_map_of_earlier fun front c back hsplit e he => ?_
  have hdefects := columnDefects_eq_nil h ht hsplit
  rw [columnDefects, List.append_eq_nil_iff, List.append_eq_nil_iff, List.append_eq_nil_iff]
    at hdefects
  have hid := hdefects.1.1.1
  split at hid
  · cases hid
  · rw [given_eq_nil, List.any_eq_false] at hid
    simpa using hid e he

theorem foreignKey_id_ne (ht : t ∈ m.tables) {fk : ForeignKey} (hfk : fk ∈ t.foreignKeys) :
    fk.id ≠ "" := by
  obtain ⟨front, back, hsplit⟩ := List.append_of_mem hfk
  have hdefects := foreignKeyDefects_eq_nil h ht hsplit
  rw [foreignKeyDefects, List.append_eq_nil_iff, given_eq_nil] at hdefects
  simpa using hdefects.1

theorem comparableType_eq (ht : t ∈ m.tables) {fk : ForeignKey} (hfk : fk ∈ t.foreignKeys)
    {u : Table} {c d : Column} (hc : t.column? fk.fromColumnId = some c)
    (hu : m.referencedTable? fk.toTableId = some u) (hd : u.column? fk.toColumnId = some d) :
    comparableType c = comparableType d := by
  by_contra hne
  have hmem : .typeMismatch fk.name (qualifiedColumn m t c) c.type (qualifiedColumn m u d) d.type ∈
      referenceIssues m t fk := by
    simp only [referenceIssues, hc, hu, hd, List.mem_append, Option.toList_some,
      List.flatMap_singleton]
    exact .inr (mem_given.2 ⟨bne_iff_ne.2 hne, rfl⟩)
  exact not_isError_of_mem_referenceIssues h ht hfk _ hmem rfl

theorem not_flawed : ¬ m.Flawed := by
  intro hflaw
  cases hflaw with
  | version hversion => exact hversion (version_eq_currentVersion h)
  | schemaId hs hid => exact (schema_named h hs).1 hid
  | schemaName hs hblank => exact absurd hblank (Bool.eq_false_iff.1 (schema_named h hs).2)
  | sharedSchemaName hs hname => exact ne_of_pair_sublist (nodup_schemaNames h) hs hname
  | typeName he hblank => exact absurd hblank (Bool.eq_false_iff.1 (type_named h he))
  | typeSchema he hschema =>
    exact absurd (hasSchema_of_type h he) (Bool.eq_false_iff.1 (not_hasSchema_iff.2 hschema))
  | typeValues he hvalues => exact values_ne_nil h he hvalues
  | tableId ht hid => exact (table_named h ht).1 hid
  | tableName ht hblank => exact absurd hblank (Bool.eq_false_iff.1 (table_named h ht).2)
  | tableSchema ht hschema =>
    exact absurd (hasSchema_of_table h ht) (Bool.eq_false_iff.1 (not_hasSchema_iff.2 hschema))
  | sharedTableId ht hid => exact ne_of_pair_sublist (nodup_tableIds h) ht hid
  | sharedTableName ht hschema hname =>
    exact ne_of_pair_sublist (nodup_tableNames h) ht (Prod.ext hschema hname)
  | columnId ht hc hid => exact (column_named h ht hc).1 hid
  | columnName ht hc hblank =>
    exact absurd hblank (Bool.eq_false_iff.1 (column_named h ht hc).2.1)
  | columnType ht hc hblank =>
    exact absurd hblank (Bool.eq_false_iff.1 (column_named h ht hc).2.2)
  | sharedColumnId ht hc hid => exact ne_of_pair_sublist (nodup_columnIds h ht) hc hid
  | primaryKey ht hc hkey hweak => simp [strong_primaryKey h ht hc hkey] at hweak
  | foreignKeyId ht hfk hid => exact foreignKey_id_ne h ht hfk hid
  | sharedConstraint ht hfk hname => exact ne_of_pair_sublist (nodup_sanitizedNames h ht) hfk hname
  | missingTable ht hfk hmissing =>
    obtain ⟨u, hu, -⟩ := exists_target h ht hfk
    rw [Model.referencedTable?_eq_none_iff.2 hmissing] at hu
    cases hu
  | missingColumn ht hfk hu hmissing =>
    obtain ⟨v, hv, d, hd⟩ := exists_target h ht hfk
    rw [Model.referencedTable?_eq_some_iff.2 hu, Option.some.injEq] at hv
    rw [← hv] at hd
    exact hmissing d (List.mem_of_find?_eq_some hd) (by simpa using List.find?_some hd)
  | typeMismatch ht hfk hu hc hd hne =>
    exact hne (comparableType_eq h ht hfk hc (Model.referencedTable?_eq_some_iff.2 hu) hd)

end Complete

/-! ## Tables without a primary key -/

/-- The table that has no primary key, if that is the issue. -/
def Issue.keyless? : Issue → Option String
  | .noPrimaryKey table => some table
  | _ => none

theorem Issue.keyless?_eq_none {i : Issue} (h : i.isError = true) : i.keyless? = none := by
  cases i <;> first | rfl | cases h

theorem keyless?_of_mem_referenceIssues {m : Model} {t : Table} {fk : ForeignKey} {i : Issue}
    (h : i ∈ referenceIssues m t fk) : i.keyless? = none := by
  rw [referenceIssues, List.mem_append] at h
  rcases h with h | h
  · rw [(mem_given.1 h).2]
    rfl
  · split at h
    · rw [List.mem_singleton.1 h]
      rfl
    · split at h
      · rw [List.mem_singleton.1 h]
        rfl
      · obtain ⟨c, -, h⟩ := List.mem_flatMap.1 h
        rw [(mem_given.1 h).2]
        rfl

theorem filterMap_keyless?_keyIssues (m : Model) (t : Table) :
    (keyIssues m t).filterMap Issue.keyless? = given (!t.hasPrimaryKey) t.name := by
  have hreferences : (t.foreignKeys.flatMap (referenceIssues m t)).filterMap Issue.keyless? = [] := by
    rw [List.filterMap_eq_nil_iff]
    intro i hi
    obtain ⟨fk, -, hi⟩ := List.mem_flatMap.1 hi
    exact keyless?_of_mem_referenceIssues hi
  rw [keyIssues, List.filterMap_append, hreferences, List.append_nil, List.filterMap_append]
  cases t.columns.isEmpty <;> cases t.hasPrimaryKey <;> rfl

theorem filterMap_keyless?_validate (m : Model) :
    (validate m).filterMap Issue.keyless? =
      (m.tables.filter fun t => !t.hasPrimaryKey).map Table.name := by
  have hstructure : (structureIssues m).filterMap Issue.keyless? = [] := by
    rw [List.filterMap_eq_nil_iff]
    exact fun i hi => Issue.keyless?_eq_none (isError_of_mem_structureIssues hi)
  rw [validate, List.filterMap_append, hstructure, List.nil_append]
  induction m.tables with
  | nil => rfl
  | cons t ts ih =>
    rw [List.flatMap_cons, List.filterMap_append, filterMap_keyless?_keyIssues, ih, List.filter_cons]
    cases t.hasPrimaryKey <;> rfl

/-- There is an error if and only if there is a flaw, and of the tables exactly those in which no
column is a primary key are warned about for that, in their order. -/
theorem hasErrors_iff_flawed (m : Model) :
    (hasErrors (validate m) = true ↔ m.Flawed) ∧
      (validate m).filterMap Issue.keyless? =
        (m.tables.filter fun t => t.columns.all fun c => !c.isPrimaryKey).map Table.name := by
  refine ⟨⟨flawed_of_hasErrors, fun hflaw => ?_⟩, ?_⟩
  · by_contra hnone
    exact not_flawed (Bool.eq_false_iff.2 hnone) hflaw
  · rw [filterMap_keyless?_validate]
    congr 1
    refine List.filter_congr fun t _ => ?_
    rw [Table.hasPrimaryKey, List.not_any_eq_all_not]

end Check

end SchemaDdl
