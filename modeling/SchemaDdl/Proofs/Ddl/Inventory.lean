import Mathlib.Data.List.Permutation
import SchemaDdl.Proofs.Ddl.References
import SchemaDdl.Proofs.Outline.Scripted

/-!
# What a script creates

A script creates every schema but the default one, and every type and table in each schema that has
the id of its own. For a model without errors nothing is lost, and each part is created exactly once
unless two schemas share an id that a part refers to.
-/

namespace SchemaDdl

/-! ## Pairs -/

section Pairs

variable {α β : Type}

theorem map_filter_eq_flatMap (p : α → Bool) (f : α → β) (xs : List α) :
    (xs.filter p).map f = xs.flatMap fun x => if p x then [f x] else [] := by
  induction xs with
  | nil => rfl
  | cons x xs ih =>
    rw [List.flatMap_cons, ← ih, List.filter_cons]
    split <;> rfl

/-- Pairs of related elements can be collected from either side. -/
theorem perm_flatMap_pairs (r : α → β → Bool) (xs : List α) (ys : List β) :
    (xs.flatMap fun x => (ys.filter (r x)).map (Prod.mk x)).Perm
      (ys.flatMap fun y => (xs.filter fun x => r x y).map fun x => (x, y)) := by
  induction xs with
  | nil => simp
  | cons x xs ih =>
    have hsplit : (ys.flatMap fun y => ((x :: xs).filter fun x => r x y).map fun x => (x, y)) =
        ys.flatMap fun y => (if r x y then [(x, y)] else []) ++
          (xs.filter fun x => r x y).map fun x => (x, y) := by
      refine List.flatMap_congr fun y _ => ?_
      rw [List.filter_cons]
      split <;> rfl
    rw [List.flatMap_cons, map_filter_eq_flatMap, hsplit]
    exact (ih.append_left _).trans (List.flatMap_append_perm ys _ _)

theorem length_le_flatMap {g : α → List β} {xs : List α} (h : ∀ x ∈ xs, g x ≠ []) :
    xs.length ≤ (xs.flatMap g).length := by
  induction xs with
  | nil => exact Nat.zero_le _
  | cons x xs ih =>
    have hx := List.length_pos_iff.2 (h x List.mem_cons_self)
    have hxs := ih fun y hy => h y (List.mem_cons_of_mem x hy)
    rw [List.flatMap_cons, List.length_append, List.length_cons]
    omega

/-- If every element gives something and there is no more than one for each, all give one. -/
theorem length_eq_one_of_flatMap {g : α → List β} {xs : List α} (h : ∀ x ∈ xs, g x ≠ [])
    (hlength : (xs.flatMap g).length = xs.length) : ∀ x ∈ xs, (g x).length = 1 := by
  induction xs with
  | nil => exact nofun
  | cons x xs ih =>
    have hx := List.length_pos_iff.2 (h x List.mem_cons_self)
    have hne : ∀ y ∈ xs, g y ≠ [] := fun y hy => h y (List.mem_cons_of_mem x hy)
    have hxs := length_le_flatMap hne
    rw [List.flatMap_cons, List.length_append, List.length_cons] at hlength
    rw [List.forall_mem_cons]
    exact ⟨by omega, ih hne (by omega)⟩

end Pairs

namespace Ddl

/-! ## Created parts -/

def Statement.createdSchema? : Statement → Option String
  | .createSchema name => some name
  | _ => none

def Statement.createdType? : Statement → Option Script.TypeDraft
  | .createType key values => some ⟨key, values⟩
  | _ => none

def createdSchemas (bs : List Block) : List String :=
  bs.flatten.filterMap Statement.createdSchema?

def createdTypes (bs : List Block) : List Script.TypeDraft :=
  bs.flatten.filterMap Statement.createdType?

/-- The type as the schema of that name has it. -/
def typeIn (schema : String) (t : EnumType) : Script.TypeDraft :=
  ⟨⟨schema, t.name⟩, t.values⟩

end Ddl

namespace Model

variable (m : Model)

/-- The schemas with that id. -/
def schemasWith (id : String) : List Schema :=
  group Schema.id m.schemas id

/-- The table as its own schema has it, which is also where references look for it. -/
def createdTable (t : Table) : Ddl.CreatedTable :=
  ⟨m.qualify t.schemaId t.name, Ddl.tableDefinitions m t⟩

variable {m : Model}

theorem schemasWith_ne_nil {id : String} (h : Check.hasSchema m id = true) :
    m.schemasWith id ≠ [] := by
  obtain ⟨s, hs, hid⟩ := List.any_eq_true.1 h
  exact List.ne_nil_of_mem (mem_group.2 ⟨hs, eq_of_beq hid⟩)

theorem length_schemasWith {id : String} (hids : (m.schemas.map Schema.id).Nodup)
    (h : Check.hasSchema m id = true) : (m.schemasWith id).length = 1 := by
  obtain ⟨s, hs, hid⟩ := List.any_eq_true.1 h
  have hmem : id ∈ m.schemas.map Schema.id := eq_of_beq hid ▸ List.mem_map_of_mem hs
  calc
    (m.schemasWith id).length = m.schemas.countP fun s => s.id == id :=
      List.countP_eq_length_filter.symm
    _ = (m.schemas.map Schema.id).count id := by
      rw [List.count, List.countP_map]
      rfl
    _ = 1 := List.count_eq_one_of_mem hids hmem

section Parts

variable {α β : Type} {schemaId : α → String} {xs : List α}

/-- If every part has one schema, what is made for each schema of a part is made once, under the
name that the id stands for. -/
theorem flatMap_schemasWith (h : ∀ x ∈ xs, (m.schemasWith (schemaId x)).length = 1)
    (f : String → α → β) :
    (xs.flatMap fun x => (m.schemasWith (schemaId x)).map fun s => f s.name x) =
      xs.map fun x => f ((m.schemaName? (schemaId x)).getD defaultSchema) x := by
  rw [List.map_eq_flatMap]
  refine List.flatMap_congr fun x hx => ?_
  obtain ⟨s, hs⟩ := List.length_eq_one_iff.1 (h x hx)
  have hname : m.schemaName? (schemaId x) = some s.name := by
    rw [schemasWith, group] at hs
    rw [schemaName?, ← List.head?_filter, List.filter_reverse, hs]
    rfl
  rw [hs, hname]
  rfl

theorem length_schemasWith_of_perm (h : ∀ x ∈ xs, m.schemasWith (schemaId x) ≠ [])
    {f : String → α → β} {ys : List β} (hlength : ys.length = xs.length)
    (hys : ys.Perm (xs.flatMap fun x => (m.schemasWith (schemaId x)).map fun s => f s.name x)) :
    ∀ x ∈ xs, (m.schemasWith (schemaId x)).length = 1 := by
  intro x hx
  have hone := length_eq_one_of_flatMap (fun y hy => mt List.map_eq_nil_iff.1 (h y hy))
    (hys.length_eq.symm.trans hlength) x hx
  rwa [List.length_map] at hone

end Parts

end Model

namespace Ddl

theorem createdSchemas_blocks (m : Model) :
    createdSchemas (blocks m) = (m.sortedSchemas.map Schema.name).filter (· != defaultSchema) := by
  rw [createdSchemas, filterMap_blocks (fun _ _ => rfl) fun _ _ _ => rfl]
  simp [Statement.createdSchema?]

theorem createdTypes_blocks (m : Model) :
    createdTypes (blocks m) =
      (m.typePlacements.filter fun p => !p.2.values.isEmpty).map fun p => typeIn p.1.name p.2 := by
  rw [createdTypes, filterMap_blocks (fun _ _ => rfl) fun _ _ _ => rfl]
  simp [Statement.createdType?, typeIn]

/-! ## Every schema with the id -/

section Placed

variable (m : Model)

theorem perm_createdSchemas :
    (createdSchemas (blocks m)).Perm ((m.schemas.map Schema.name).filter (· != defaultSchema)) := by
  rw [createdSchemas_blocks]
  exact ((Model.perm_sortedByName Schema.name m.schemas).map Schema.name).filter _

theorem perm_placements_schemas :
    m.placements.Perm (m.schemas.flatMap fun s =>
      (m.tables.filter fun t => t.schemaId == s.id).map (Prod.mk s)) := by
  refine .trans ?_ ((Model.perm_sortedByName Schema.name m.schemas).flatMap_right _)
  exact List.Perm.flatMap_left _ fun s _ => (Model.perm_sortedByName _ _).map _

/-- From the schemas to their tables or from the tables to their schemas, the pairs are the same. -/
theorem perm_flatMap_schemasWith {α : Type} (schemaId : α → String) (xs : List α) :
    (m.schemas.flatMap fun s => (xs.filter fun x => schemaId x == s.id).map (Prod.mk s)).Perm
      (xs.flatMap fun x => (m.schemasWith (schemaId x)).map fun s => (s, x)) := by
  refine (perm_flatMap_pairs _ m.schemas xs).trans (.of_eq ?_)
  simp only [Model.schemasWith, group, Bool.beq_comm]

/-- A table is created in every schema that has the id of its own. -/
theorem perm_createdTables :
    (createdTables (blocks m)).Perm
      (m.tables.flatMap fun t => (m.schemasWith t.schemaId).map fun s => tableIn m s.name t) := by
  rw [createdTables_blocks]
  have hplaced := (perm_placements_schemas m).trans
    (perm_flatMap_schemasWith m Table.schemaId m.tables)
  have hall := hplaced.map fun p => tableIn m p.1.name p.2
  simpa only [List.map_flatMap, List.map_map, Function.comp_def] using hall

/-- A type that has values is created in every schema that has the id of its own. -/
theorem perm_createdTypes (hvalues : ∀ t ∈ m.types, t.values ≠ []) :
    (createdTypes (blocks m)).Perm
      (m.types.flatMap fun t => (m.schemasWith t.schemaId).map fun s => typeIn s.name t) := by
  have hplaced : m.typePlacements.Perm
      (m.types.flatMap fun t => (m.schemasWith t.schemaId).map fun s => (s, t)) := by
    refine .trans ((Model.perm_sortedByName Schema.name m.schemas).flatMap_right _) ?_
    exact perm_flatMap_schemasWith m EnumType.schemaId m.types
  have hkept : (m.typePlacements.filter fun p => !p.2.values.isEmpty) = m.typePlacements := by
    refine List.filter_eq_self.2 fun p hp => ?_
    obtain ⟨t, ht, hs⟩ := List.mem_flatMap.1 (hplaced.mem_iff.1 hp)
    obtain ⟨s, -, rfl⟩ := List.mem_map.1 hs
    simpa using hvalues t ht
  have hall := hplaced.map fun p => typeIn p.1.name p.2
  rw [createdTypes_blocks, hkept]
  simpa only [List.map_flatMap, List.map_map, Function.comp_def] using hall

end Placed

/-! ## Models without errors -/

/-- Nothing of a model is lost: what can be created is, and under different names. -/
structure CreatesAll (m : Model) : Prop where
  schemas : (createdSchemas (blocks m)).Perm ((m.schemas.map Schema.name).filter (· != defaultSchema))
  distinctSchemas : (createdSchemas (blocks m)).Nodup
  types : ∀ t ∈ m.types, m.typeOutline t ∈ createdTypes (blocks m)
  tables : ∀ t ∈ m.tables, m.createdTable t ∈ createdTables (blocks m)
  distinctTables : ((createdTables (blocks m)).map CreatedTable.key).Nodup

/-- Every part of a model is created by one statement, and nothing else is created. -/
structure CreatesOnce (m : Model) : Prop extends CreatesAll m where
  onceTypes : (createdTypes (blocks m)).Perm (m.types.map m.typeOutline)
  onceTables : (createdTables (blocks m)).Perm (m.tables.map m.createdTable)

/-- The ids that tables and types give for their schemas. -/
def usedSchemaIds (m : Model) : List String :=
  m.tables.map Table.schemaId ++ m.types.map EnumType.schemaId

section Valid

variable {m : Model} (h : Check.hasErrors (Check.validate m) = false)

include h

theorem hasSchema_of_used {id : String} (hid : id ∈ usedSchemaIds m) :
    Check.hasSchema m id = true := by
  rcases List.mem_append.1 hid with hid | hid
  · obtain ⟨t, ht, rfl⟩ := List.mem_map.1 hid
    exact Check.hasSchema_of_table h ht
  · obtain ⟨t, ht, rfl⟩ := List.mem_map.1 hid
    exact Check.hasSchema_of_type h ht

theorem createsAll : CreatesAll m := by
  have hown {id : String} (hid : id ∈ usedSchemaIds m) : ∃ s ∈ m.schemasWith id,
      m.schemaName? id = some s.name := by
    have hsome := isSome_schemaName?_of_hasSchema (hasSchema_of_used h hid)
    obtain ⟨s, hs, hsid, hname⟩ := exists_of_schemaName? hsome
    exact ⟨s, mem_group.2 ⟨hs, hsid⟩, hname⟩
  constructor
  · exact perm_createdSchemas m
  · exact (perm_createdSchemas m).nodup_iff.2 ((Check.nodup_schemaNames h).filter _)
  · intro t ht
    obtain ⟨s, hs, hname⟩ := hown (List.mem_append_right _ (List.mem_map_of_mem ht))
    rw [(perm_createdTypes m fun u hu => Check.values_ne_nil h hu).mem_iff]
    refine List.mem_flatMap.2 ⟨t, ht, List.mem_map.2 ⟨s, hs, ?_⟩⟩
    rw [typeIn, Model.typeOutline, Model.qualify, hname]
    rfl
  · intro t ht
    obtain ⟨s, hs, hname⟩ := hown (List.mem_append_left _ (List.mem_map_of_mem ht))
    rw [(perm_createdTables m).mem_iff]
    refine List.mem_flatMap.2 ⟨t, ht, List.mem_map.2 ⟨s, hs, ?_⟩⟩
    rw [tableIn, Model.createdTable, Model.qualify, hname]
    rfl
  · have hkeys : ((createdTables (blocks m)).map CreatedTable.key).Perm
        (m.schemas.flatMap fun s => (m.tables.filter fun t => t.schemaId == s.id).map fun t =>
          ⟨s.name, t.name⟩) := by
      have hplaced := (perm_placements_schemas m).map fun p =>
        (⟨p.1.name, p.2.name⟩ : QualifiedName)
      simp only [List.map_flatMap, List.map_map] at hplaced
      rw [createdTables_blocks, List.map_map]
      exact hplaced
    exact hkeys.nodup_iff.2 (nodup_placedKeys h)

theorem createsOnce_of_length (hone : ∀ id ∈ usedSchemaIds m, (m.schemasWith id).length = 1) :
    CreatesOnce m := by
  have htypes := perm_createdTypes m fun t ht => Check.values_ne_nil h ht
  have honeTypes (t : EnumType) (ht : t ∈ m.types) : (m.schemasWith t.schemaId).length = 1 :=
    hone _ (List.mem_append_right _ (List.mem_map_of_mem ht))
  have honeTables (t : Table) (ht : t ∈ m.tables) : (m.schemasWith t.schemaId).length = 1 :=
    hone _ (List.mem_append_left _ (List.mem_map_of_mem ht))
  rw [Model.flatMap_schemasWith honeTypes] at htypes
  have htables := perm_createdTables m
  rw [Model.flatMap_schemasWith honeTables] at htables
  exact ⟨createsAll h, htypes, htables⟩

/-- Every part has a schema, so with no more statements than parts each has one. -/
theorem length_schemasWith_of_length (htypes : (createdTypes (blocks m)).length = m.types.length)
    (htables : (createdTables (blocks m)).length = m.tables.length) :
    ∀ id ∈ usedSchemaIds m, (m.schemasWith id).length = 1 := by
  intro id hid
  have hne {id : String} (hid : id ∈ usedSchemaIds m) : m.schemasWith id ≠ [] :=
    Model.schemasWith_ne_nil (hasSchema_of_used h hid)
  rcases List.mem_append.1 hid with hid | hid
  · obtain ⟨t, ht, rfl⟩ := List.mem_map.1 hid
    apply Model.length_schemasWith_of_perm _ htables (perm_createdTables m) t ht
    exact fun u hu => hne (List.mem_append_left _ (List.mem_map_of_mem hu))
  · obtain ⟨t, ht, rfl⟩ := List.mem_map.1 hid
    have hvalues (u : EnumType) (hu : u ∈ m.types) : u.values ≠ [] := Check.values_ne_nil h hu
    apply Model.length_schemasWith_of_perm _ htypes (perm_createdTypes m hvalues) t ht
    exact fun u hu => hne (List.mem_append_right _ (List.mem_map_of_mem hu))

theorem length_of_createsOnce (honce : CreatesOnce m) :
    ∀ id ∈ usedSchemaIds m, (m.schemasWith id).length = 1 := by
  apply length_schemasWith_of_length h
  · exact honce.onceTypes.length_eq.trans (List.length_map _)
  · exact honce.onceTables.length_eq.trans (List.length_map _)

/-- The script of a model without errors loses nothing. It creates each part exactly once if and
only if every schema id that a table or a type gives has one schema, as it has if no two schemas
share an id. -/
theorem createsOnce_iff :
    CreatesAll m ∧ (CreatesOnce m ↔ ∀ id ∈ usedSchemaIds m, (m.schemasWith id).length = 1) ∧
      ((m.schemas.map Schema.id).Nodup → CreatesOnce m) := by
  refine ⟨createsAll h, ⟨length_of_createsOnce h, createsOnce_of_length h⟩, fun hids => ?_⟩
  refine createsOnce_of_length h fun id hid => ?_
  exact Model.length_schemasWith hids (hasSchema_of_used h hid)

end Valid

/-- Two tables of one name in different schemas, and two types of one name in the same. -/
theorem createsOnce_of_names :
    ∃ m : Model, Check.hasErrors (Check.validate m) = false ∧ (m.schemas.map Schema.id).Nodup ∧
      createdSchemas (blocks m) = ["crm"] ∧
      (createdTables (blocks m)).map CreatedTable.key = [⟨"crm", "t"⟩, ⟨"public", "t"⟩] ∧
      createdTypes (blocks m) = [⟨⟨"crm", "e"⟩, ["a"]⟩, ⟨⟨"crm", "e"⟩, ["b"]⟩] ∧ CreatesOnce m := by
  let column : Column := { id := "c", name := "x", type := "int" }
  let m : Model := {
    version := 1
    schemas := [⟨"s1", "public"⟩, ⟨"s2", "crm"⟩]
    tables := [{ id := "t1", schemaId := "s1", name := "t", columns := [column] },
      { id := "t2", schemaId := "s2", name := "t", columns := [column] }]
    types := [⟨"e1", "s2", "e", ["a"]⟩, ⟨"e2", "s2", "e", ["b"]⟩] }
  have hvalid : Check.hasErrors (Check.validate m) = false := by decide +kernel
  have hids : (m.schemas.map Schema.id).Nodup := by decide
  have hsorted : m.sortedSchemas = [⟨"s2", "crm"⟩, ⟨"s1", "public"⟩] := by cbv
  have htables : (createdTables (blocks m)).map CreatedTable.key = [⟨"crm", "t"⟩, ⟨"public", "t"⟩] := by
    rw [createdTables_blocks, Model.placements, hsorted]
    cbv
  have htypes : createdTypes (blocks m) = [⟨⟨"crm", "e"⟩, ["a"]⟩, ⟨⟨"crm", "e"⟩, ["b"]⟩] := by
    rw [createdTypes_blocks, Model.typePlacements, hsorted]
    rfl
  have hschemas : createdSchemas (blocks m) = ["crm"] := by
    rw [createdSchemas_blocks, hsorted]
    rfl
  exact ⟨m, hvalid, hids, hschemas, htables, htypes, (createsOnce_iff hvalid).2.2 hids⟩

/-- Two schemas share an id, which no check minds, and their only table is created in both. -/
theorem not_createsOnce_of_shared_id :
    ∃ m : Model, Check.hasErrors (Check.validate m) = false ∧ m.tables.map Table.name = ["t"] ∧
      (createdTables (blocks m)).map CreatedTable.key = [⟨"a", "t"⟩, ⟨"b", "t"⟩] ∧
      ¬ CreatesOnce m := by
  let table : Table :=
    { id := "t1", schemaId := "s", name := "t", columns := [{ id := "c", name := "x", type := "int" }] }
  let m : Model := { version := 1, schemas := [⟨"s", "a"⟩, ⟨"s", "b"⟩], tables := [table] }
  have hkeys : (createdTables (blocks m)).map CreatedTable.key = [⟨"a", "t"⟩, ⟨"b", "t"⟩] := by
    have hsorted : m.sortedSchemas = m.schemas := by cbv
    rw [createdTables_blocks, Model.placements, hsorted]
    cbv
  refine ⟨m, by decide +kernel, rfl, hkeys, fun honce => ?_⟩
  have htwo : (createdTables (blocks m)).length = 2 := by
    rw [← List.length_map CreatedTable.key, hkeys]
    rfl
  have hlength := honce.onceTables.length_eq
  rw [htwo] at hlength
  exact absurd hlength (by decide)

end Ddl

end SchemaDdl
