import SchemaDdl.Proofs.Outline.Scripted

/-!
# Canonical scripts

The script of a model without errors is read and generated again as it is, if the types and defaults
of the model can be read and no table repeats a column name. A check asks for neither, so it passes
models whose scripts cannot be read back.
-/

namespace SchemaDdl

open Script

/-! ## The default schema leaves no trace -/

theorem filter_sortedByName (p : String → Bool) (names : List String) :
    (Model.sortedByName id names).filter p = Model.sortedByName id (names.filter p) := by
  have hperm : ((Model.sortedByName id names).filter p).Perm
      (Model.sortedByName id (names.filter p)) :=
    ((Model.perm_sortedByName id names).filter p).trans (Model.perm_sortedByName id _).symm
  apply hperm.eq_of_pairwise
  · exact fun a b _ _ hab hba => String.le_antisymm hab hba
  · exact (Model.pairwise_sortedByName id names).filter p
  · exact Model.pairwise_sortedByName id (names.filter p)

theorem flatMap_filter_of_nil {α β : Type} {p : α → Bool} {f : α → List β} {xs : List α}
    (h : ∀ x ∈ xs, p x = false → f x = []) : (xs.filter p).flatMap f = xs.flatMap f := by
  induction xs with
  | nil => rfl
  | cons x xs ih =>
    have hrest := ih fun y hy => h y (List.mem_cons_of_mem x hy)
    cases hp : p x with
    | true => rw [List.filter_cons_of_pos hp, List.flatMap_cons, List.flatMap_cons, hrest]
    | false =>
      have hx := h x List.mem_cons_self hp
      rw [List.filter_cons_of_neg (by simp [hp]), List.flatMap_cons, hx, List.nil_append, hrest]

namespace Outline

variable {o : Outline}

/-- Schemas without types or tables that are not created are left out of a script. -/
theorem script_sorted_congr {o' : Outline} (hp : o'.schemas.filter (· != defaultSchema) =
      o.schemas.filter (· != defaultSchema)) (htypes : o'.types = o.types)
    (htables : o'.tables = o.tables) (hnone : o.typesOf defaultSchema = [])
    (hnone' : o.tablesOf defaultSchema = []) : o'.sorted.script = o.sorted.script := by
  have hnames : (Model.sortedByName id o'.schemas).filter (· != defaultSchema) =
      (Model.sortedByName id o.schemas).filter (· != defaultSchema) := by
    rw [filter_sortedByName, filter_sortedByName, hp]
  have hflat {α : Type} {f : String → List α} (hf : f defaultSchema = []) :
      (Model.sortedByName id o'.schemas).flatMap f = (Model.sortedByName id o.schemas).flatMap f := by
    have hskip (name : String) (h : (name != defaultSchema) = false) : f name = [] := by
      rw [bne_eq_false_iff_eq.1 h, hf]
    rw [← flatMap_filter_of_nil fun name _ => hskip name, hnames,
      flatMap_filter_of_nil fun name _ => hskip name]
  have htypesOf : o'.typesOf = o.typesOf := by
    funext schema
    rw [typesOf, typesOf, htypes]
  have htablesOf : o'.tablesOf = o.tablesOf := by
    funext schema
    rw [tablesOf, tablesOf, htables]
  have hschemas : schemaBlocks o'.sorted.schemas = schemaBlocks o.sorted.schemas :=
    congrArg (List.map _) hnames
  have htypes' : o'.sorted.types = o.sorted.types := by
    rw [sorted, sorted, htypesOf]
    exact hflat hnone
  have htables' : o'.sorted.tables = o.sorted.tables := by
    rw [sorted, sorted, htablesOf]
    exact hflat hnone'
  rw [script, script, hschemas, htypes', htables']

/-- A script says as much about the default schema as if it were not listed. -/
theorem Distinct.script_sorted_withDefault (h : o.Distinct) :
    o.withDefault.sorted.script = o.sorted.script := by
  by_cases hdefault : defaultSchema ∈ o.schemas
  · rw [(h.similar_withDefault hdefault).sorted_eq h.withDefault]
  · have hcreated : o.createdSchemas.filter (· != defaultSchema) =
        o.schemas.filter (· != defaultSchema) := by
      rw [createdSchemas, List.filter_filter]
      simp
    apply script_sorted_congr
    · rw [Outline.withDefault, List.filter_cons_of_neg (by simp), hcreated]
    · rfl
    · rfl
    · exact group_eq_nil fun t ht hschema => hdefault (hschema ▸ h.types t ht)
    · have hnone : group (fun t => t.key.schema) o.tables defaultSchema = [] :=
        group_eq_nil fun t ht hschema => hdefault (hschema ▸ h.tables t ht)
      rw [tablesOf, hnone]
      exact List.mergeSort_nil

end Outline

/-! ## Models without errors -/

theorem nodup_names_declared_scripted {m : Model}
    (hnames : ∀ t ∈ m.tables, (t.columns.map Column.name).Nodup) :
    ∀ o ∈ m.scripted.declared.tables, (o.drafts.map ColumnDraft.name).Nodup := by
  intro o ho
  obtain ⟨schema, t, ht, rfl⟩ := exists_of_mem_declared_scripted ho
  have hscripted : t.scripted.columns.map Column.name = t.columns.map Column.name := by
    rw [Table.scripted, List.map_map]
    exact List.map_congr_left fun c _ => c.name_scripted
  rw [map_name_drafts, hscripted]
  exact hnames t ht

/-- The script of a model without errors is a fixed point of reading and generating, as far as its
types and defaults can be read and its tables do not repeat column names. -/
theorem generate_fixed_of_valid {ids : Ids} (hids : ids.Distinct) {m : Model}
    (hvalid : Check.hasErrors (Check.validate m) = false)
    (hnames : ∀ t ∈ m.tables, (t.columns.map Column.name).Nodup)
    (htexts : ∀ t ∈ m.tables, ∀ c ∈ t.columns, c.Readable) (strict : Bool) :
    ∃ m', parse ids { strict, inferId := false } (Ddl.generate m) = .ok m' ∧
      Ddl.generate m' = Ddl.generate m := by
  have hlegible := legible_declared_scripted hvalid hnames htexts
  have hdistinct := hlegible.toDistinct
  have hscript : Ddl.generate m = Ddl.scriptText m.scripted.declared.sorted.script := by
    rw [← generate_scripted, Ddl.generate, blocks_eq_script hlegible]
  obtain ⟨m', hm', houtline⟩ :=
    hlegible.sorted.exists_parse hids { strict, inferId := false }
  rw [← hscript] at hm'
  obtain ⟨hre, -, -⟩ := rereadable_of_parse hids hm'
  have hsimilar : m'.outline.Similar m.scripted.declared.withDefault := by
    rw [houtline]
    exact hdistinct.similar_reread_sorted (nodup_names_declared_scripted hnames)
      (keyed_declared_scripted hvalid)
  refine ⟨m', hm', ?_⟩
  rw [hre.generate_eq, hsimilar.sorted_eq hre.legible.toDistinct, hdistinct.script_sorted_withDefault,
    hscript]

/-- Two schemas with one id hold the same table, and a script declares it in both. -/
theorem generate_fixed_of_valid_shared :
    ∃ m m' : Model, m.schemas = [⟨"s", "b"⟩, ⟨"s", "a"⟩] ∧
      m.tables.map (fun t => (t.schemaId, t.name)) = [("s", "t")] ∧
      parse .positional { strict := false, inferId := false } (Ddl.generate m) = .ok m' ∧
      Ddl.generate m' = Ddl.generate m := by
  let column : Column := { id := "c", name := "x", type := " int " }
  let table : Table :=
    { id := "t", schemaId := "s", name := "t", columns := [column]
      foreignKeys := [{ id := "f", name := "?", fromColumnId := "c", toTableId := "t", toColumnId := "c" }] }
  let m : Model := { version := 1, schemas := [⟨"s", "b"⟩, ⟨"s", "a"⟩], tables := [table] }
  have htype : Text.trimmed " int " = "int" := by decide +kernel
  have hreadable : column.Readable := Column.readable_of_word htype (by decide) (by decide) rfl
  have hvalid : Check.hasErrors (Check.validate m) = false := by decide +kernel
  obtain ⟨m', hm', hfixed⟩ := generate_fixed_of_valid Ids.distinct_positional hvalid
    (fun t ht => by
      rw [List.mem_singleton.1 ht]
      exact List.nodup_singleton _)
    (fun t ht c hc => by
      rw [List.mem_singleton.1 ht] at hc
      rw [List.mem_singleton.1 hc]
      exact hreadable) false
  exact ⟨m, m', rfl, rfl, hm', hfixed⟩

/-- A type with an open parenthesis passes the check, and the script cannot be read. -/
theorem parse_generate_fails_of_type :
    ∃ m : Model, Check.hasErrors (Check.validate m) = false ∧
      ∀ m', parse .positional { strict := false, inferId := false } (Ddl.generate m) ≠ .ok m' := by
  let column : Column := { id := "t1c1", name := "a", type := "numeric(10" }
  let table : Table := { id := "t1", schemaId := "s1", name := "t", columns := [column] }
  let m : Model := { version := 1, schemas := [⟨"s1", "public"⟩], tables := [table] }
  have hvalid : Check.hasErrors (Check.validate m) = false := by decide +kernel
  have hfails : (parse .positional { strict := false, inferId := false } (Ddl.generate m)).toOption.isNone := by
    decide +kernel
  refine ⟨m, hvalid, fun m' hm' => ?_⟩
  rw [hm'] at hfails
  cases hfails

end SchemaDdl
