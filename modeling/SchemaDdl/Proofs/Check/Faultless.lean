import Mathlib.Data.List.Induction
import Mathlib.Data.List.Nodup
import SchemaDdl.Check.Reference

/-!
# Models without errors

What can be relied on when a model is checked and no error is found, warnings or not.
-/

namespace SchemaDdl.Check

/-! ## Items after earlier ones -/

section Earlier

variable {α β : Type} {f : List α → α → List β} {xs : List α}

theorem mem_flatMapEarlier {earlier : List α} {b : β} :
    b ∈ flatMapEarlier f earlier xs ↔
      ∃ front x back, xs = front ++ x :: back ∧ b ∈ f (earlier ++ front) x := by
  induction xs generalizing earlier with
  | nil => simp [flatMapEarlier]
  | cons a rest ih =>
    rw [flatMapEarlier, List.mem_append, ih]
    constructor
    · rintro (h | ⟨front, x, back, rfl, h⟩)
      · refine ⟨[], a, rest, rfl, ?_⟩
        rwa [List.append_nil]
      · refine ⟨a :: front, x, back, rfl, ?_⟩
        rwa [List.append_cons]
    · rintro ⟨front, x, back, hsplit, h⟩
      cases front with
      | nil =>
        cases hsplit
        rw [List.append_nil] at h
        exact .inl h
      | cons c front =>
        cases hsplit
        rw [List.append_cons] at h
        exact .inr ⟨front, x, back, rfl, h⟩

theorem eq_nil_of_flatMapEarlier (h : flatMapEarlier f [] xs = []) {front back : List α} {x : α}
    (hsplit : xs = front ++ x :: back) : f front x = [] := by
  rw [List.eq_nil_iff_forall_not_mem] at h ⊢
  exact fun b hb => h b (mem_flatMapEarlier.2 ⟨front, x, back, hsplit, hb⟩)

/-- What no item shares with an earlier one does not repeat. -/
theorem nodup_map_of_earlier {κ : Type} {key : α → κ}
    (h : ∀ front x back, xs = front ++ x :: back → ∀ y ∈ front, key y ≠ key x) :
    (xs.map key).Nodup := by
  induction xs using List.reverseRecOn with
  | nil => exact List.nodup_nil
  | append_singleton xs x ih =>
    rw [List.map_append, List.nodup_append]
    refine ⟨ih fun front y back hsplit => ?_, List.nodup_singleton _, ?_⟩
    · refine h front y (back ++ [x]) ?_
      rw [hsplit, List.append_assoc, List.cons_append]
    · intro a ha b hb
      obtain ⟨y, hy, rfl⟩ := List.mem_map.1 ha
      rw [List.map_cons, List.map_nil, List.mem_singleton] at hb
      rw [hb]
      exact h xs x [] rfl y hy

end Earlier

theorem given_eq_nil {α : Type} {b : Bool} {a : α} : given b a = [] ↔ b = false := by
  cases b <;> simp [given]

theorem defectsAt_eq_nil {path : Path} {ds : List Defect} : defectsAt path ds = [] ↔ ds = [] :=
  List.map_eq_nil_iff

/-! ## Errors -/

theorem isError_of_mem_defectsAt {path : Path} {ds : List Defect} {i : Issue}
    (h : i ∈ defectsAt path ds) : i.isError = true := by
  obtain ⟨d, -, rfl⟩ := List.mem_map.1 h
  rfl

/-- All issues with the structure of a model are errors. -/
theorem isError_of_mem_structureIssues {m : Model} {i : Issue} (h : i ∈ structureIssues m) :
    i.isError = true := by
  rw [structureIssues, List.mem_append, List.mem_append, List.mem_append] at h
  rcases h with ((h | h) | h) | h
  · exact isError_of_mem_defectsAt h
  · obtain ⟨front, s, back, -, h⟩ := mem_flatMapEarlier.1 h
    exact isError_of_mem_defectsAt h
  · obtain ⟨front, t, back, -, h⟩ := mem_flatMapEarlier.1 h
    exact isError_of_mem_defectsAt h
  · obtain ⟨front, t, back, -, h⟩ := mem_flatMapEarlier.1 h
    rw [tableIssues, List.mem_append, List.mem_append] at h
    rcases h with (h | h) | h
    · exact isError_of_mem_defectsAt h
    · obtain ⟨before, c, behind, -, h⟩ := mem_flatMapEarlier.1 h
      exact isError_of_mem_defectsAt h
    · obtain ⟨before, fk, behind, -, h⟩ := mem_flatMapEarlier.1 h
      exact isError_of_mem_defectsAt h

section Faultless

variable {m : Model} (h : hasErrors (validate m) = false)

include h

theorem structureIssues_eq_nil : structureIssues m = [] := by
  rw [hasErrors, List.any_eq_false] at h
  refine List.eq_nil_iff_forall_not_mem.2 fun i hi => ?_
  exact h i (List.mem_append_left _ hi) (isError_of_mem_structureIssues hi)

theorem version_eq_currentVersion : m.version = Model.currentVersion := by
  have hissues := structureIssues_eq_nil h
  rw [structureIssues, List.append_eq_nil_iff, List.append_eq_nil_iff, List.append_eq_nil_iff,
    defectsAt_eq_nil, given_eq_nil] at hissues
  simpa using hissues.1.1.1

theorem schemaDefects_eq_nil {front back : List Schema} {s : Schema}
    (hsplit : m.schemas = front ++ s :: back) : schemaDefects front s = [] := by
  have hissues := structureIssues_eq_nil h
  rw [structureIssues, List.append_eq_nil_iff, List.append_eq_nil_iff, List.append_eq_nil_iff]
    at hissues
  have hschema := eq_nil_of_flatMapEarlier hissues.1.1.2 hsplit
  rwa [schemaIssues, defectsAt_eq_nil] at hschema

theorem typeDefects_eq_nil {t : EnumType} (ht : t ∈ m.types) : typeDefects m t = [] := by
  have hissues := structureIssues_eq_nil h
  rw [structureIssues, List.append_eq_nil_iff, List.append_eq_nil_iff, List.append_eq_nil_iff]
    at hissues
  obtain ⟨front, back, hsplit⟩ := List.append_of_mem ht
  have htype := eq_nil_of_flatMapEarlier hissues.1.2 hsplit
  rwa [typeIssues, defectsAt_eq_nil] at htype

theorem tableIssues_eq_nil {front back : List Table} {t : Table}
    (hsplit : m.tables = front ++ t :: back) : tableIssues m front t = [] := by
  have hissues := structureIssues_eq_nil h
  rw [structureIssues, List.append_eq_nil_iff] at hissues
  exact eq_nil_of_flatMapEarlier hissues.2 hsplit

theorem tableDefects_eq_nil {front back : List Table} {t : Table}
    (hsplit : m.tables = front ++ t :: back) : tableDefects m front t = [] := by
  have hissues := tableIssues_eq_nil h hsplit
  rw [tableIssues, List.append_eq_nil_iff, List.append_eq_nil_iff] at hissues
  exact defectsAt_eq_nil.1 hissues.1.1

theorem columnDefects_eq_nil {t : Table} (ht : t ∈ m.tables) {front back : List Column} {c : Column}
    (hsplit : t.columns = front ++ c :: back) : columnDefects front c = [] := by
  obtain ⟨before, behind, htables⟩ := List.append_of_mem ht
  have hissues := tableIssues_eq_nil h htables
  rw [tableIssues, List.append_eq_nil_iff, List.append_eq_nil_iff] at hissues
  have hcolumn := eq_nil_of_flatMapEarlier hissues.1.2 hsplit
  rwa [columnIssues, defectsAt_eq_nil] at hcolumn

theorem foreignKeyDefects_eq_nil {t : Table} (ht : t ∈ m.tables) {front back : List ForeignKey}
    {fk : ForeignKey} (hsplit : t.foreignKeys = front ++ fk :: back) :
    foreignKeyDefects front fk = [] := by
  obtain ⟨before, behind, htables⟩ := List.append_of_mem ht
  have hissues := tableIssues_eq_nil h htables
  rw [tableIssues, List.append_eq_nil_iff, List.append_eq_nil_iff] at hissues
  have hforeignKey := eq_nil_of_flatMapEarlier hissues.2 hsplit
  rwa [foreignKeyIssues, defectsAt_eq_nil] at hforeignKey

theorem nodup_schemaNames : (m.schemas.map Schema.name).Nodup := by
  refine nodup_map_of_earlier fun front s back hsplit e he => ?_
  have hdefects := schemaDefects_eq_nil h hsplit
  rw [schemaDefects, List.append_eq_nil_iff] at hdefects
  have hname := hdefects.2
  split at hname
  · cases hname
  · rw [given_eq_nil, List.any_eq_false] at hname
    simpa using hname e he

theorem nodup_tableNames : (m.tables.map fun t => (t.schemaId, t.name)).Nodup := by
  refine nodup_map_of_earlier fun front t back hsplit e he => ?_
  have hdefects := tableDefects_eq_nil h hsplit
  rw [tableDefects, List.append_eq_nil_iff, List.append_eq_nil_iff] at hdefects
  have hname := hdefects.1.2
  split at hname
  · cases hname
  · rw [given_eq_nil, List.any_eq_false] at hname
    simpa using hname e he

theorem hasSchema_of_table {t : Table} (ht : t ∈ m.tables) : hasSchema m t.schemaId = true := by
  obtain ⟨front, back, hsplit⟩ := List.append_of_mem ht
  have hdefects := tableDefects_eq_nil h hsplit
  rw [tableDefects, List.append_eq_nil_iff, given_eq_nil] at hdefects
  simpa using hdefects.2

theorem hasSchema_of_type {t : EnumType} (ht : t ∈ m.types) : hasSchema m t.schemaId = true := by
  have hdefects := typeDefects_eq_nil h ht
  rw [typeDefects, List.append_eq_nil_iff, List.append_eq_nil_iff, given_eq_nil, given_eq_nil]
    at hdefects
  simpa using hdefects.1.2

theorem values_ne_nil {t : EnumType} (ht : t ∈ m.types) : t.values ≠ [] := by
  have hdefects := typeDefects_eq_nil h ht
  rw [typeDefects, List.append_eq_nil_iff, given_eq_nil] at hdefects
  simpa using hdefects.2

theorem strong_primaryKey {t : Table} (ht : t ∈ m.tables) {c : Column} (hc : c ∈ t.columns)
    (hkey : c.isPrimaryKey = true) : c.isUnique = true ∧ c.nullable = false := by
  obtain ⟨front, back, hsplit⟩ := List.append_of_mem hc
  have hdefects := columnDefects_eq_nil h ht hsplit
  rw [columnDefects, List.append_eq_nil_iff, given_eq_nil, hkey] at hdefects
  simpa using hdefects.2

/-- Constraint names of one table do not collide. -/
theorem nodup_sanitizedNames {t : Table} (ht : t ∈ m.tables) :
    (t.foreignKeys.map sanitizedName).Nodup := by
  refine nodup_map_of_earlier fun front fk back hsplit e he => ?_
  have hdefects := foreignKeyDefects_eq_nil h ht hsplit
  rw [foreignKeyDefects, List.append_eq_nil_iff, given_eq_nil, given_eq_nil, List.any_eq_false]
    at hdefects
  simpa using hdefects.2 e he

theorem not_isError_of_mem_referenceIssues {t : Table} (ht : t ∈ m.tables) {fk : ForeignKey}
    (hfk : fk ∈ t.foreignKeys) (i : Issue) (hi : i ∈ referenceIssues m t fk) :
    ¬i.isError = true := by
  rw [hasErrors, List.any_eq_false] at h
  refine h i (List.mem_append_right _ (List.mem_flatMap.2 ⟨t, ht, ?_⟩))
  exact List.mem_append_right _ (List.mem_flatMap.2 ⟨fk, hfk, hi⟩)

/-- The far end of every foreign key is there. -/
theorem exists_target {t : Table} (ht : t ∈ m.tables) {fk : ForeignKey}
    (hfk : fk ∈ t.foreignKeys) :
    ∃ u, m.referencedTable? fk.toTableId = some u ∧ ∃ c, u.column? fk.toColumnId = some c := by
  have hreference := not_isError_of_mem_referenceIssues h ht hfk
  rw [referenceIssues] at hreference
  cases htable : m.referencedTable? fk.toTableId with
  | none =>
    rw [htable] at hreference
    exact absurd rfl (hreference _ (List.mem_append_right _ List.mem_cons_self))
  | some u =>
    cases hcolumn : u.column? fk.toColumnId with
    | none =>
      simp only [htable, hcolumn] at hreference
      exact absurd rfl (hreference _ (List.mem_append_right _ List.mem_cons_self))
    | some c => exact ⟨u, rfl, c, hcolumn⟩

end Faultless

end SchemaDdl.Check
