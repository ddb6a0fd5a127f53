import SchemaDdl.Proofs.Ddl.References
import SchemaDdl.Proofs.Document.Parsed
import SchemaDdl.Proofs.Document.Reloading

/-!
# Constraint names of a table

A script that is read, a model that is normalized and a script that is generated each tell the
constraint names of a table apart on their own. Whatever names they start from, the names that they
give are distinct, plain and left alone by sanitizing.
-/

namespace SchemaDdl

open Script

namespace Naming

/-- A lower-case letter or an underscore, and then also digits. -/
def isPlain (name : String) : Bool :=
  match name.toList with
  | [] => false
  | c :: cs => (c.isLower || c == '_') && cs.all fun d => d.isLower || d.isDigit || d == '_'

/-- Names for the constraints of one table. -/
structure WellNamed (names : List String) : Prop where
  distinct : names.Nodup
  plain : ∀ n ∈ names, isPlain n = true
  sanitized : ∀ n ∈ names, ∀ fallback, sanitize n fallback = n

theorem Snake.all_plain {cs : List Char} (h : Snake cs) :
    cs.all (fun d => d.isLower || d.isDigit || d == '_') = true := by
  refine List.all_eq_true.2 fun c hc => ?_
  rw [Bool.or_eq_true, beq_iff_eq]
  exact h.isSnakeChar_or_eq hc

theorem Clean.isPlain {name : String} (h : Clean name) : isPlain name = true := by
  obtain ⟨hsnake, hletter⟩ := h
  obtain ⟨c, cs, hname, -⟩ := hsnake.exists_cons
  have hall := hsnake.all_plain
  rw [hname] at hletter hall
  rw [List.all_cons, Bool.and_eq_true] at hall
  have hlower : c.isLower = true := hletter
  rw [Naming.isPlain, hname]
  simp only [hlower, hall.2, Bool.true_or, Bool.and_self]

theorem wellNamed_of_clean {names : List String} (hdistinct : names.Nodup)
    (hclean : ∀ n ∈ names, Clean n) : WellNamed names :=
  ⟨hdistinct, fun n hn => (hclean n hn).isPlain, fun n hn => (hclean n hn).sanitize_eq⟩

theorem wellNamed_withFreshNames (fks : List ForeignKey) :
    WellNamed ((ForeignKey.withFreshNames [] fks).map ForeignKey.name) := by
  refine wellNamed_of_clean (ForeignKey.nodup_withFreshNames [] fks) fun n hn => ?_
  obtain ⟨fk, hfk, rfl⟩ := List.mem_map.1 hn
  exact ForeignKey.clean_of_mem_withFreshNames hfk

theorem WellNamed.sublist {names names' : List String} (h : WellNamed names)
    (hsub : names'.Sublist names) : WellNamed names' :=
  ⟨hsub.nodup h.distinct, fun n hn => h.plain n (hsub.subset hn),
    fun n hn => h.sanitized n (hsub.subset hn)⟩

end Naming

def Table.constraintNames (t : Table) : List String :=
  t.foreignKeys.map ForeignKey.name

/-! ## Constraints of a script -/

namespace Ddl

/-- The name behind the word `CONSTRAINT`. -/
def Definition.constraintName? : Definition → Option String
  | .foreignKey name _ _ _ _ _ => some name
  | _ => none

def CreatedTable.constraintNames (t : CreatedTable) : List String :=
  t.definitions.filterMap Definition.constraintName?

/-- Foreign keys stand in a script under their own names, as far as they are written. -/
theorem sublist_constraintNames (m : Model) (t : Table) (fks : List ForeignKey) :
    ((m.writtenKeys t fks).filterMap Definition.constraintName?).Sublist
      (fks.map ForeignKey.name) := by
  induction fks with
  | nil => exact List.Sublist.slnil
  | cons fk fks ih =>
    cases h : m.foreignKeyOutline? t fk with
    | none =>
      have hskip : m.writtenKeys t (fk :: fks) = m.writtenKeys t fks := by
        rw [Model.writtenKeys, List.filterMap_cons_none h]
        rfl
      rw [hskip]
      exact ih.cons fk.name
    | some d =>
      have hname : d.definition.constraintName? = some fk.name :=
        congrArg some (name_foreignKeyOutline? h)
      rw [Model.writtenKeys_cons_some h, List.filterMap_cons_some hname]
      exact ih.cons_cons fk.name

theorem constraintNames_tableDefinitions (m : Model) (t : Table) (key : QualifiedName) :
    (CreatedTable.mk key (tableDefinitions m t)).constraintNames =
      (foreignKeyDefinitions m t [] t.foreignKeys).filterMap Definition.constraintName? := by
  have hcolumns : (t.columns.map columnDefinition).filterMap Definition.constraintName? = [] := by
    simp [columnDefinition, Definition.constraintName?]
  rw [CreatedTable.constraintNames, tableDefinitions, List.filterMap_append, List.filterMap_append,
    hcolumns, filterMap_keyDefinitions (fun _ => rfl) (fun _ => rfl), List.nil_append,
    List.nil_append]

theorem wellNamed_createdTable {m : Model} {c : CreatedTable} (h : c ∈ createdTables (blocks m)) :
    Naming.WellNamed c.constraintNames := by
  obtain ⟨s, -, t, -, -, rfl⟩ := mem_createdTables_blocks.1 h
  rw [constraintNames_tableDefinitions, Model.foreignKeyDefinitions_eq_writtenKeys]
  exact (Naming.wellNamed_withFreshNames _).sublist (sublist_constraintNames m t _)

end Ddl

theorem Table.Kept.wellNamed {t : Table} (h : t.Kept) : Naming.WellNamed t.constraintNames := by
  refine Naming.wellNamed_of_clean h.distinct fun n hn => ?_
  obtain ⟨fk, hfk, rfl⟩ := List.mem_map.1 hn
  exact h.clean fk hfk

/-! ## The names that are given -/

/-- Whether its foreign keys come from a script, are normalized or are written into a script, the
constraint names of a table are distinct, plain, and left alone by sanitizing. -/
theorem wellNamed_constraints :
    (∀ (ids : Ids) (d : Draft) (m : Model), d.resolve ids = .ok m →
      ∀ t ∈ m.tables, Naming.WellNamed t.constraintNames) ∧
    (∀ m : Model, ∀ t ∈ m.normalized.tables, Naming.WellNamed t.constraintNames) ∧
    ∀ m : Model, ∀ c ∈ Ddl.createdTables (Ddl.blocks m), Naming.WellNamed c.constraintNames := by
  refine ⟨fun ids d m h t ht => ?_, fun m t ht => ?_, fun m c hc => ?_⟩
  · exact ((kept_of_resolve h).2 t ht).wellNamed
  · obtain ⟨u, -, rfl⟩ := List.mem_map.1 ht
    exact Naming.wellNamed_withFreshNames u.foreignKeys
  · exact Ddl.wellNamed_createdTable hc

/-- The third name collides with the first, and the number that it gets first is taken by a name that
stands there twice. In the script that one is left out at its first place. -/
theorem wellNamed_constraints_numbered :
    let names := ["Fk!", "fk_2", "FK", "fk_2", "!!"]
    let key : QualifiedName := ⟨defaultSchema, "t"⟩
    let d : Draft := { tables := [{
      key, columns := [{ name := "a", type := "int" }]
      foreignKeys := names.map fun name => ⟨name, "a", key, "a", none, none⟩ }] }
    let keys : List ForeignKey := names.mapIdx fun i name =>
      { id := s!"f{i}", name, fromColumnId := "c", toTableId := if i = 1 then "gone" else "t"
        toColumnId := "c" }
    let t : Table :=
      { id := "t", schemaId := "s", name := "t", columns := [{ id := "c", name := "a", type := "int" }]
        foreignKeys := keys }
    let m : Model := { version := 1, schemas := [⟨"s", defaultSchema⟩], tables := [t] }
    (∃ m', d.resolve .positional = .ok m' ∧ ∃ t' ∈ m'.tables,
      t'.constraintNames = ["fk", "fk_2", "fk_3", "fk_2_2", "t_a_fkey"] ∧
        Naming.WellNamed t'.constraintNames) ∧
    (∃ t' ∈ m.normalized.tables, t'.constraintNames = ["fk", "fk_2", "fk_3", "fk_2_2", "fk_f4"] ∧
      Naming.WellNamed t'.constraintNames) ∧
    ∃ c ∈ Ddl.createdTables (Ddl.blocks m), c.constraintNames = ["fk", "fk_2", "fk_2_2", "fk_f4"] ∧
      Naming.WellNamed c.constraintNames := by
  intro names key d keys t m
  obtain ⟨hresolved, hnormalized, hwritten⟩ := wellNamed_constraints
  refine ⟨?_, ?_, ?_⟩
  · have hread : (d.resolve .positional).toOption.map (fun m => m.tables.map Table.constraintNames) =
        some [["fk", "fk_2", "fk_3", "fk_2_2", "t_a_fkey"]] := by decide +kernel
    cases hm : d.resolve .positional with
    | error e =>
      rw [hm] at hread
      cases hread
    | ok m' =>
      rw [hm] at hread
      obtain ⟨t', ts, htables, hnames, -⟩ := List.map_eq_cons_iff.1 (Option.some.inj hread)
      have ht' : t' ∈ m'.tables := htables ▸ List.mem_cons_self
      exact ⟨m', rfl, t', ht', hnames, hresolved .positional d m' hm t' ht'⟩
  · have ht : t.normalized ∈ m.normalized.tables := List.mem_singleton_self _
    exact ⟨t.normalized, ht, by decide +kernel, hnormalized m _ ht⟩
  · have hc : ⟨key, Ddl.tableDefinitions m t⟩ ∈ Ddl.createdTables (Ddl.blocks m) := by decide +kernel
    exact ⟨_, hc, by decide +kernel, hwritten m _ hc⟩

end SchemaDdl
