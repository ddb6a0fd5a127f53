import Mathlib.Tactic.TFAE
import SchemaDdl.Cardinality
import SchemaDdl.Proofs.Check.WellFormed
import SchemaDdl.Proofs.Ddl.Inventory

/-!
# Foreign keys that resolve

Drawing, checking and writing a foreign key each look for its ends on their own: by the first table
with the id or by the last, and stopping at different ends. If no two tables share an id they agree
on whether both ends are there, and on which ends they are.
-/

namespace SchemaDdl

/-! ## Clauses and the foreign keys that they are for -/

namespace Ddl

/-- The foreign keys that are written, each with its clause. -/
def keyClauses (m : Model) (t : Table) (used : List String) :
    List ForeignKey → List (ForeignKey × Definition)
  | [] => []
  | fk :: fks =>
    let name := Naming.ensureUnique (Naming.sanitize fk.name (ForeignKey.fallbackName fk.id)) used
    match foreignKeyDefinition? m t name fk with
    | some d => (fk, d) :: keyClauses m t (name :: used) fks
    | none => keyClauses m t used fks

theorem map_snd_keyClauses (m : Model) (t : Table) (used : List String) (fks : List ForeignKey) :
    (keyClauses m t used fks).map Prod.snd = foreignKeyDefinitions m t used fks := by
  induction fks generalizing used with
  | nil => rfl
  | cons fk fks ih =>
    rw [keyClauses, foreignKeyDefinitions]
    generalize foreignKeyDefinition? m t _ fk = clause
    cases clause with
    | some d => exact congrArg (d :: ·) (ih _)
    | none => exact ih used

/-- The script has the clause `d` for the foreign key, in a table that it creates for `t`. -/
def WritesKey (m : Model) (t : Table) (fk : ForeignKey) (d : Definition) : Prop :=
  ∃ s, (s, t) ∈ m.placements ∧ (fk, d) ∈ keyClauses m t [] t.foreignKeys

/-- The clauses of a script are those that its tables are created with. -/
theorem createdTables_eq_keyClauses (m : Model) :
    createdTables (blocks m) = m.placements.map fun p =>
      ⟨⟨p.1.name, p.2.name⟩, p.2.columns.map columnDefinition ++ keyDefinitions p.2.columns ++
        (keyClauses m p.2 [] p.2.foreignKeys).map Prod.snd⟩ := by
  simp only [map_snd_keyClauses]
  exact createdTables_blocks m

end Ddl

/-- The columns at both ends of a foreign key, and the table that it refers to. -/
structure Model.Joins (m : Model) (t : Table) (fk : ForeignKey) (c : Column) (u : Table)
    (d : Column) : Prop where
  source : t.column? fk.fromColumnId = some c
  table : m.table? fk.toTableId = some u
  target : u.column? fk.toColumnId = some d

/-- An issue with an end that is not there. -/
def Check.Issue.isMissingEnd : Check.Issue → Bool
  | .missingSource _ _ | .missingTable _ _ | .missingTarget _ _ => true
  | _ => false

namespace Model

variable {m : Model} {t : Table} {fk : ForeignKey}

theorem hasEnds_iff : m.HasEnds t fk ↔ ∃ c u d, m.Joins t fk c u d :=
  ⟨fun ⟨c, u, d, hc, hu, hd⟩ => ⟨c, u, d, hc, hu, hd⟩,
    fun ⟨c, u, d, h⟩ => ⟨c, u, d, h.source, h.table, h.target⟩⟩

/-- The first table with an id is the last one, if no two tables share it. -/
theorem referencedTable?_eq (hids : (m.tables.map Table.id).Nodup) (id : String) :
    m.referencedTable? id = m.table? id := by
  cases h : m.table? id with
  | none =>
    rw [referencedTable?, List.find?_eq_none]
    intro u hu
    exact List.find?_eq_none.1 h u (List.mem_reverse.1 hu)
  | some u =>
    have hid : u.id = id := by simpa using List.find?_some h
    rw [← hid]
    exact find?_reverse_eq_of_nodup hids (List.mem_of_find?_eq_some h)

section Ends

variable {c d : Column} {u : Table}

theorem Joins.endpoints_eq (h : m.Joins t fk c u d) :
    m.endpoints t fk = some (fk.startCardinality.getD (Cardinality.ofColumn c),
      fk.endCardinality.getD (Cardinality.ofColumn d)) := by
  rw [endpoints, h.source, h.table]
  simp only [Option.bind_eq_bind, Option.bind_some, h.target]
  rfl

theorem Joins.referenceIssues_eq (hids : (m.tables.map Table.id).Nodup) (h : m.Joins t fk c u d) :
    Check.referenceIssues m t fk = Check.typeIssue m fk t c u d := by
  rw [Check.referenceIssues, referencedTable?_eq hids, h.source, h.table]
  simp only [h.target, Option.isNone_some, Check.given, Bool.false_eq_true, if_false,
    List.nil_append, Option.toList_some, List.flatMap_cons, List.flatMap_nil, List.append_nil]

theorem Joins.foreignKeyDefinition?_eq (hids : (m.tables.map Table.id).Nodup)
    (h : m.Joins t fk c u d) (name : String) :
    Ddl.foreignKeyDefinition? m t name fk = some (.foreignKey name c.name
      (m.qualify u.schemaId u.name) d.name fk.onDelete fk.onUpdate) := by
  rw [Ddl.foreignKeyDefinition?, referencedTable?_eq hids, h.source, h.table]
  simp only [Option.bind_eq_bind, Option.bind_some, h.target]
  rfl

end Ends

theorem isSome_endpoints_iff : (m.endpoints t fk).isSome ↔ m.HasEnds t fk := by
  constructor
  · intro h
    obtain ⟨ends, h⟩ := Option.isSome_iff_exists.1 h
    obtain ⟨c, hc, h⟩ := Option.bind_eq_some_iff.1 h
    obtain ⟨u, hu, h⟩ := Option.bind_eq_some_iff.1 h
    obtain ⟨d, hd, -⟩ := Option.bind_eq_some_iff.1 h
    exact ⟨c, u, d, hc, hu, hd⟩
  · intro h
    obtain ⟨c, u, d, hjoins⟩ := hasEnds_iff.1 h
    rw [hjoins.endpoints_eq]
    rfl

section Distinct

variable (hids : (m.tables.map Table.id).Nodup)

include hids

theorem hasEnds_of_foreignKeyDefinition? {name : String}
    (h : (Ddl.foreignKeyDefinition? m t name fk).isSome) : m.HasEnds t fk := by
  obtain ⟨definition, h⟩ := Option.isSome_iff_exists.1 h
  obtain ⟨c, hc, h⟩ := Option.bind_eq_some_iff.1 h
  obtain ⟨u, hu, h⟩ := Option.bind_eq_some_iff.1 h
  obtain ⟨d, hd, -⟩ := Option.bind_eq_some_iff.1 h
  rw [referencedTable?_eq hids] at hu
  exact ⟨c, u, d, hc, hu, hd⟩

/-- Every end that is missing is reported, whatever is missing besides. -/
theorem hasEnds_of_referenceIssues
    (h : ∀ i ∈ Check.referenceIssues m t fk, i.isMissingEnd = false) : m.HasEnds t fk := by
  rw [Check.referenceIssues, referencedTable?_eq hids] at h
  cases hc : t.column? fk.fromColumnId with
  | none =>
    have hmissing := h (.missingSource fk.name t.name) (by simp [hc, Check.given])
    cases hmissing
  | some c =>
    cases hu : m.table? fk.toTableId with
    | none =>
      have hmissing := h (.missingTable fk.name fk.toTableId) (by simp [hu])
      cases hmissing
    | some u =>
      cases hd : u.column? fk.toColumnId with
      | none =>
        have hmissing := h (.missingTarget fk.name u.name) (by simp [hu, hd])
        cases hmissing
      | some d => exact ⟨c, u, d, hc, hu, hd⟩

theorem mem_keyClauses_iff {used : List String} {fks : List ForeignKey} :
    (∃ d, (fk, d) ∈ Ddl.keyClauses m t used fks) ↔ fk ∈ fks ∧ m.HasEnds t fk := by
  induction fks generalizing used with
  | nil => simp [Ddl.keyClauses]
  | cons k fks ih =>
    rw [Ddl.keyClauses]
    split
    · rename_i d hd
      have hends : m.HasEnds t k := hasEnds_of_foreignKeyDefinition? hids (by rw [hd]; rfl)
      constructor
      · rintro ⟨d', hd'⟩
        rcases List.mem_cons.1 hd' with heq | hd'
        · cases heq
          exact ⟨List.mem_cons_self, hends⟩
        · obtain ⟨hmem, hfk⟩ := ih.1 ⟨d', hd'⟩
          exact ⟨List.mem_cons_of_mem k hmem, hfk⟩
      · rintro ⟨hmem, hfk⟩
        rcases List.mem_cons.1 hmem with rfl | hmem
        · exact ⟨d, List.mem_cons_self⟩
        · obtain ⟨d', hd'⟩ := ih.2 ⟨hmem, hfk⟩
          exact ⟨d', List.mem_cons_of_mem _ hd'⟩
    · rename_i hnone
      have hends : ¬ m.HasEnds t k := by
        intro h
        obtain ⟨c, u, d, hjoins⟩ := hasEnds_iff.1 h
        rw [hjoins.foreignKeyDefinition?_eq hids] at hnone
        cases hnone
      rw [ih, List.mem_cons]
      constructor
      · exact fun ⟨hmem, hfk⟩ => ⟨.inr hmem, hfk⟩
      · rintro ⟨rfl | hmem, hfk⟩
        · exact absurd hfk hends
        · exact ⟨hmem, hfk⟩

end Distinct

/-- Drawing, checking and writing agree on which foreign keys have both ends, and a foreign key that
has is written if its table belongs to a schema. All three then use the same columns at its ends and
the same table. What is written is what the script has: the clauses for the foreign keys of a table end
the body that the table is created with. -/
theorem resolving_agrees (hids : (m.tables.map Table.id).Nodup) (ht : t ∈ m.tables)
    (hfk : fk ∈ t.foreignKeys) (name : String) :
    [(m.endpoints t fk).isSome = true,
      ∀ i ∈ Check.referenceIssues m t fk, i.isMissingEnd = false,
      (Ddl.foreignKeyDefinition? m t name fk).isSome = true].TFAE ∧
    ((∃ d, Ddl.WritesKey m t fk d) ↔
      (m.endpoints t fk).isSome ∧ ∃ s ∈ m.schemas, s.id = t.schemaId) ∧
    ((m.endpoints t fk).isSome → ∃ c u d, m.Joins t fk c u d ∧
      m.endpoints t fk = some (fk.startCardinality.getD (Cardinality.ofColumn c),
        fk.endCardinality.getD (Cardinality.ofColumn d)) ∧
      Check.referenceIssues m t fk = Check.typeIssue m fk t c u d ∧
      Ddl.foreignKeyDefinition? m t name fk = some (.foreignKey name c.name
        (m.qualify u.schemaId u.name) d.name fk.onDelete fk.onUpdate)) ∧
    Ddl.createdTables (Ddl.blocks m) = m.placements.map fun p =>
      ⟨⟨p.1.name, p.2.name⟩, p.2.columns.map Ddl.columnDefinition ++ Ddl.keyDefinitions p.2.columns ++
        (Ddl.keyClauses m p.2 [] p.2.foreignKeys).map Prod.snd⟩ := by
  refine ⟨?_, ?_, fun h => ?_, Ddl.createdTables_eq_keyClauses m⟩
  · tfae_have 1 → 2 := by
      intro h i hi
      obtain ⟨c, u, d, hjoins⟩ := hasEnds_iff.1 (isSome_endpoints_iff.1 h)
      rw [hjoins.referenceIssues_eq hids, Check.typeIssue, Check.mem_given] at hi
      rw [hi.2]
      rfl
    tfae_have 2 → 3 := by
      intro h
      obtain ⟨c, u, d, hjoins⟩ := hasEnds_iff.1 (hasEnds_of_referenceIssues hids h)
      rw [hjoins.foreignKeyDefinition?_eq hids]
      rfl
    tfae_have 3 → 1 := fun h => isSome_endpoints_iff.2 (hasEnds_of_foreignKeyDefinition? hids h)
    tfae_finish
  · rw [isSome_endpoints_iff]
    constructor
    · rintro ⟨d, s, hplaced, hd⟩
      obtain ⟨hs, -, hid⟩ := mem_placements.1 hplaced
      exact ⟨((mem_keyClauses_iff hids).1 ⟨d, hd⟩).2, s, hs, hid.symm⟩
    · rintro ⟨hends, s, hs, hid⟩
      obtain ⟨d, hd⟩ := (mem_keyClauses_iff hids).2 ⟨hfk, hends⟩
      exact ⟨d, s, mem_placements.2 ⟨hs, ht, hid.symm⟩, hd⟩
  · obtain ⟨c, u, d, hjoins⟩ := hasEnds_iff.1 (isSome_endpoints_iff.1 h)
    exact ⟨c, u, d, hjoins, hjoins.endpoints_eq, hjoins.referenceIssues_eq hids,
      hjoins.foreignKeyDefinition?_eq hids name⟩

/-- A column of the table repeats the id of another, and next to the foreign key that is written
stands one whose table is missing. -/
theorem resolving_agrees_repeated_column :
    ∃ (m : Model) (t : Table) (fk dangling : ForeignKey),
      (m.tables.map Table.id).Nodup ∧ t ∈ m.tables ∧ fk ∈ t.foreignKeys ∧
        dangling ∈ t.foreignKeys ∧ ¬ (t.columns.map Column.id).Nodup ∧
        (∃ d, Ddl.WritesKey m t fk d) ∧ ¬ ∃ d, Ddl.WritesKey m t dangling d := by
  let fk : ForeignKey := ⟨"f1", "fk", "c1", "t2", "c3", none, none, none, none⟩
  let dangling : ForeignKey := ⟨"f2", "fk", "c1", "t3", "c3", none, none, none, none⟩
  let t : Table := {
    id := "t1", schemaId := "s1", name := "orders", foreignKeys := [dangling, fk]
    columns := [{ id := "c1", name := "a", type := "int" }, { id := "c1", name := "b", type := "text" }] }
  let u : Table := {
    id := "t2", schemaId := "s2", name := "people"
    columns := [{ id := "c3", name := "x", type := "int" }] }
  let m : Model := { version := 1, schemas := [⟨"s1", "public"⟩], tables := [t, u] }
  have hids : (m.tables.map Table.id).Nodup := by decide
  have ht : t ∈ m.tables := List.mem_cons_self
  have hfk : fk ∈ t.foreignKeys := List.mem_cons_of_mem _ List.mem_cons_self
  have hdangling : dangling ∈ t.foreignKeys := List.mem_cons_self
  have hmissing : (m.endpoints t dangling).isSome = false := by decide +kernel
  refine ⟨m, t, fk, dangling, hids, ht, hfk, hdangling, by decide, ?_, fun h => ?_⟩
  · exact (resolving_agrees hids ht hfk "").2.1.2
      ⟨by decide +kernel, ⟨"s1", "public"⟩, List.mem_cons_self, rfl⟩
  · have hends := ((resolving_agrees hids ht hdangling "").2.1.1 h).1
    rw [hmissing] at hends
    cases hends

end Model

end SchemaDdl
