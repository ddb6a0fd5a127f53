import SchemaDdl.Proofs.Check.WellFormed
import SchemaDdl.Proofs.Outline.RoundTrip

/-!
# Models of scripts

Every model that is read from a script is well formed. So a check of it finds no errors but blank
names and foreign keys between columns of different types.
-/

namespace SchemaDdl

open Script

/-- No id that is given out is empty. -/
structure Ids.Present (ids : Ids) : Prop where
  schema : ∀ i, ids.schema i ≠ ""
  table : ∀ i, ids.table i ≠ ""
  column : ∀ i j, ids.column i j ≠ ""
  foreignKey : ∀ i j, ids.foreignKey i j ≠ ""

theorem Ids.present_positional : Ids.positional.Present := by
  have hlabelled (label : Char) (rest : String) : String.singleton label ++ rest ≠ "" := by
    intro h
    have hlist := congrArg String.toList h
    rw [String.toList_append, String.toList_singleton] at hlist
    cases hlist
  constructor
  · exact fun i => hlabelled 's' (toString (i + 1))
  · exact fun i => hlabelled 't' (toString (i + 1))
  · intro i j h
    have hcolumn : String.singleton 't' ++ (toString (i + 1) ++ "c" ++ toString (j + 1)) = "" := by
      rw [← h, ← String.append_assoc, ← String.append_assoc]
      rfl
    exact hlabelled _ _ hcolumn
  · intro i j h
    have hkey : String.singleton 't' ++ (toString (i + 1) ++ "f" ++ toString (j + 1)) = "" := by
      rw [← h, ← String.append_assoc, ← String.append_assoc]
      rfl
    exact hlabelled _ _ hkey

/-! ## The default schema stands first -/

namespace Script.Draft

theorem head?_withSchema {d : Draft} {first : String} (h : d.schemas.head? = some first)
    (name : String) : (d.withSchema name).schemas.head? = some first := by
  rw [withSchema]
  split
  · exact h
  · change (d.schemas ++ [name]).head? = some first
    rw [List.head?_append, h]
    rfl

theorem head?_add {d : Draft} {first : String} (h : d.schemas.head? = some first) (e : Entry) :
    (d.add e).schemas.head? = some first := by
  cases e with
  | schema name => exact head?_withSchema h name
  | type t => exact head?_withSchema h t.key.schema
  | table t => exact head?_withSchema h t.key.schema
  | comment c => exact h

theorem head?_ofStatements {options : Options} {ss : List Statement} {d : Draft}
    (h : ofStatements options ss = .ok d) : d.schemas.head? = some defaultSchema := by
  refine foldlM_induction h (P := fun d => d.schemas.head? = some defaultSchema) rfl ?_
  intro c s _ c' hc hstep
  rw [readNext] at hstep
  split at hstep
  · cases hstep
  · rename_i entry _
    cases hstep
    cases entry with
    | none => exact hc
    | some e => exact head?_add hc e

end Script.Draft

/-! ## Ids -/

section Identified

variable {ids : Ids} {d : Draft} {m : Model}

/-- What tables keep from their placing on. -/
theorem map_tables_of_resolve (hids : ids.Distinct) (hd : d.Distinct) (h : d.resolve ids = .ok m)
    {β : Type} {g : Table → β} (hplain : ∀ t, g t.plain = g t) (hunlinked : ∀ t, g t.unlinked = g t) :
    m.tables.map g = (d.placed ids).map fun p => g p.table := by
  obtain ⟨ts, hts, keyed, hkeyed, rfl⟩ := resolve_eq_ok_iff.1 h
  have hleft (xs : List Table) : (xs.map Table.plain).map g = xs.map g := by
    rw [List.map_map]
    exact List.map_congr_left fun t _ => hplain t
  have hright (xs : List Table) : (xs.map Table.unlinked).map g = xs.map g := by
    rw [List.map_map]
    exact List.map_congr_left fun t _ => hunlinked t
  have hkept := congrArg (List.map g) (plain_of_applyComments hids hd hts hkeyed)
  have hplaced := congrArg (List.map g) (map_unlinked_resolvedTables hts)
  rw [hleft, hleft] at hkept
  rw [hright, List.map_map] at hplaced
  exact hkept.trans hplaced

theorem identified_of_resolve (hids : ids.Distinct) (hpresent : ids.Present) (hd : d.Distinct)
    (h : d.resolve ids = .ok m) : m.Identified := by
  have hplaced {t : Table} (ht : t ∈ m.tables) : ∃ p ∈ d.placed ids,
      p.table.id = t.id ∧ p.table.columns.map Column.id = t.columns.map Column.id := by
    have hmap := map_tables_of_resolve hids hd h (g := fun t => (t.id, t.columns.map Column.id))
      (fun t => by rw [Table.plain, List.map_map]; rfl) fun _ => rfl
    have hmem : (t.id, t.columns.map Column.id) ∈ (d.placed ids).map fun p =>
        (p.table.id, p.table.columns.map Column.id) := by
      rw [← hmap]
      exact List.mem_map.2 ⟨t, ht, rfl⟩
    obtain ⟨p, hp, heq⟩ := List.mem_map.1 hmem
    exact ⟨p, hp, Prod.mk.inj heq⟩
  have htableIds : (m.tables.map Table.id).Nodup := by
    rw [map_tables_of_resolve hids hd h (fun _ => rfl) fun _ => rfl]
    exact nodup_tableIds hids d
  constructor
  · obtain ⟨ts, -, keyed, -, rfl⟩ := resolve_eq_ok_iff.1 h
    intro s hs
    obtain ⟨i, hi, rfl⟩ := List.mem_mapIdx.1 hs
    exact hpresent.schema i
  · intro t ht
    obtain ⟨p, hp, hid, -⟩ := hplaced ht
    obtain ⟨i, u, -, rfl⟩ := exists_place hp
    rw [← hid]
    exact hpresent.table i
  · exact htableIds
  · intro t ht c hc
    obtain ⟨p, hp, -, hcolumns⟩ := hplaced ht
    have hmem : c.id ∈ p.table.columns.map Column.id := hcolumns ▸ List.mem_map_of_mem hc
    obtain ⟨i, u, -, rfl⟩ := exists_place hp
    obtain ⟨c', hc', hid⟩ := List.mem_map.1 hmem
    obtain ⟨j, hj, rfl⟩ := List.mem_mapIdx.1 hc'
    rw [← hid]
    exact hpresent.column i j
  · intro t ht
    obtain ⟨p, hp, -, hcolumns⟩ := hplaced ht
    rw [← hcolumns]
    exact nodup_columnIds hids hp
  · obtain ⟨ts, hts, keyed, hkeyed, rfl⟩ := resolve_eq_ok_iff.1 h
    intro t ht fk hfk
    have hmem : t.plain ∈ ts.map Table.plain := by
      rw [← plain_of_applyComments hids hd hts hkeyed]
      exact List.mem_map_of_mem ht
    obtain ⟨u, hu, hut⟩ := List.mem_map.1 hmem
    have hfks : u.foreignKeys = t.foreignKeys := by
      have := congrArg Table.foreignKeys hut
      exact this
    obtain ⟨⟨p, i⟩, -, hp⟩ := exists_of_mem_of_mapM hts hu
    obtain ⟨ends, -, rfl⟩ := resolveForeignKeys_eq_ok_iff.1 hp
    rw [← hfks] at hfk
    obtain ⟨j, hj, rfl⟩ := List.mem_mapIdx.1 hfk
    exact hpresent.foreignKey i j

end Identified

/-! ## Structure -/

section Rereadable

variable {m : Model}

theorem schemaName?_eq (hids : (m.schemas.map Schema.id).Nodup) (id : String) :
    m.schemaName? id = (m.schema? id).map Schema.name := by
  cases hfind : m.schema? id with
  | none =>
    have hnone : m.schemas.reverse.find? (·.id == id) = none :=
      List.find?_eq_none.2 fun s hs => List.find?_eq_none.1 hfind s (List.mem_reverse.1 hs)
    rw [Model.schemaName?, hnone]
  | some s =>
    have hid : s.id = id := by simpa using List.find?_some hfind
    rw [← hid]
    exact schemaName?_eq_some hids (List.mem_of_find?_eq_some hfind)

theorem table?_eq (hids : (m.tables.map Table.id).Nodup) (id : String) :
    m.table? id = m.referencedTable? id := by
  cases hfind : m.referencedTable? id with
  | none =>
    refine List.find?_eq_none.2 fun t ht => ?_
    exact List.find?_eq_none.1 hfind t (List.mem_reverse.2 ht)
  | some t =>
    have hid : t.id = id := by simpa using List.find?_some hfind
    rw [← hid]
    exact find?_eq_of_nodup hids (List.mem_reverse.1 (List.mem_of_find?_eq_some hfind))

theorem hasEnds_of_foreignKeyOutline? (hids : (m.tables.map Table.id).Nodup) {t : Table}
    {fk : ForeignKey} (h : (m.foreignKeyOutline? t fk).isSome) : m.HasEnds t fk := by
  obtain ⟨o, ho⟩ := Option.isSome_iff_exists.1 h
  obtain ⟨c, hc, ho⟩ := Option.bind_eq_some_iff.1 ho
  obtain ⟨u, hu, ho⟩ := Option.bind_eq_some_iff.1 ho
  obtain ⟨d, hd, -⟩ := Option.bind_eq_some_iff.1 ho
  exact ⟨c, u, d, hc, (table?_eq hids _).trans hu, hd⟩

/-- The foreign keys of a linked table keep their names in its outline. -/
theorem map_name_foreignKeys (hlinked : m.Linked) {t : Table} (ht : t ∈ m.tables) :
    (m.tableOutline t).foreignKeys.map ForeignKeyDraft.name = t.foreignKeys.map ForeignKey.name := by
  have hsome := hlinked.foreignKeys t ht
  change (t.foreignKeys.filterMap (m.foreignKeyOutline? t)).map ForeignKeyDraft.name = _
  generalize t.foreignKeys = fks at hsome
  induction fks with
  | nil => rfl
  | cons fk fks ih =>
    obtain ⟨d, hd⟩ := Option.isSome_iff_exists.1 (hsome fk List.mem_cons_self)
    rw [List.filterMap_cons_some hd, List.map_cons, List.map_cons, name_foreignKeyOutline? hd,
      ih fun x hx => hsome x (List.mem_cons_of_mem fk hx)]

/-- A model that is linked and can be read back is well formed. -/
theorem Model.Rereadable.wellFormed {inferId : Bool} (h : m.Rereadable inferId) (hlinked : m.Linked)
    (htables : (m.tables.map Table.id).Nodup) (hversion : m.version = Model.currentVersion)
    (hdefault : m.schemas.head?.map Schema.name = some defaultSchema) : m.WellFormed := by
  have hschema {id : String} (hsome : (m.schemaName? id).isSome) : (m.schema? id).isSome := by
    rwa [schemaName?_eq h.ids, Option.isSome_map] at hsome
  have houtline {t : Table} (ht : t ∈ m.tables) : m.tableOutline t ∈ m.outline.tables :=
    List.mem_map_of_mem ht
  have hdraft {t : Table} {c : Column} (hc : c ∈ t.columns) :
      c.outline.toColumnDraft ∈ (m.tableOutline t).drafts :=
    List.mem_map_of_mem (List.mem_map_of_mem hc)
  have hclean {t : Table} (ht : t ∈ m.tables) {fk : ForeignKey} (hfk : fk ∈ t.foreignKeys) :
      Naming.Clean fk.name := by
    have hmem : fk.name ∈ (m.tableOutline t).foreignKeys.map ForeignKeyDraft.name := by
      rw [map_name_foreignKeys hlinked ht]
      exact List.mem_map_of_mem hfk
    obtain ⟨d, hd, hname⟩ := List.mem_map.1 hmem
    rw [← hname]
    exact (h.legible.each _ (houtline ht)).clean d hd
  constructor
  · exact hversion
  · exact hdefault
  · exact h.legible.schemas
  · exact fun t ht => hschema (h.housed.types t ht)
  · exact fun t ht => hschema (h.housed.tables t ht)
  · refine List.Nodup.of_map (fun k => QualifiedName.mk (k.1.getD defaultSchema) k.2) ?_
    have hkeys := h.legible.keys
    rw [Model.outline, List.map_map] at hkeys
    rw [List.map_map]
    refine (List.map_congr_left fun t _ => ?_).symm ▸ hkeys
    rw [Function.comp_apply, ← schemaName?_eq h.ids]
    rfl
  · exact fun t ht => h.legible.values _ (List.mem_map_of_mem ht)
  · intro t ht c hc
    have htype := ((h.legible.each _ (houtline ht)).columns _ (hdraft hc)).type
    rw [Check.isBlank, beq_eq_false_iff_ne]
    intro hblank
    have htrimmed : Text.trimmed c.type = c.type := trimmed_of_trim htype.trim
    rw [htrimmed] at hblank
    exact htype.ne_nil (congrArg String.toList hblank)
  · exact fun t ht c hc => (h.keyed _ (houtline ht) _ (hdraft hc)).primary
  · exact fun t ht fk hfk => hasEnds_of_foreignKeyOutline? htables (hlinked.foreignKeys t ht fk hfk)
  · intro t ht
    rw [← map_name_foreignKeys hlinked ht]
    exact (h.legible.each _ (houtline ht)).constraints
  · exact fun t ht fk hfk fallback => (hclean ht hfk).sanitize_eq fallback

end Rereadable

/-- Every model that is read from a script is well formed, and all errors that a check finds in it
are blank names and foreign keys between columns of different types. -/
theorem wellFormed_of_parse {ids : Ids} (hids : ids.Distinct) (hpresent : ids.Present)
    {options : Options} {script : String} {m : Model} (h : parse ids options script = .ok m) :
    m.WellFormed ∧ ∀ i ∈ Check.validate m, i.isError = true → Check.Residual m i := by
  obtain ⟨hm, hlinked, -⟩ := rereadable_of_parse hids h
  obtain ⟨d, hd, hresolve⟩ := bind_eq_ok_iff.1 h
  have hidentified := identified_of_resolve hids hpresent (Draft.ofStatements_sound hd).toDistinct hresolve
  have hwell : m.WellFormed := by
    refine hm.wellFormed hlinked hidentified.distinctTables ?_ ?_
    · obtain ⟨ts, -, keyed, -, rfl⟩ := resolve_eq_ok_iff.1 hresolve
      rfl
    · obtain ⟨ts, -, keyed, -, rfl⟩ := resolve_eq_ok_iff.1 hresolve
      have hhead := Draft.head?_ofStatements hd
      change (d.schemas.mapIdx fun i name => (⟨ids.schema i, name⟩ : Schema)).head?.map Schema.name = _
      rw [List.head?_mapIdx, hhead]
      rfl
  exact ⟨hwell, fun i hi herror => Check.residual_of_isError hwell hidentified hi herror⟩

/-- A blank table name and a foreign key from text to a number are found, and nothing else. -/
theorem wellFormed_of_parse_blank :
    ∃ m, parse .positional {}
        "CREATE TABLE \" \" (a int, x text, FOREIGN KEY (x) REFERENCES \" \" (a));" = .ok m ∧
      ((Check.validate m).filter Check.Issue.isError).length = 2 ∧ m.WellFormed ∧
      ∀ i ∈ Check.validate m, i.isError = true → Check.Residual m i := by
  have hread : (parse .positional {}
      "CREATE TABLE \" \" (a int, x text, FOREIGN KEY (x) REFERENCES \" \" (a));").toOption.map
      (fun m => ((Check.validate m).filter Check.Issue.isError).length) = some 2 := by
    decide +kernel
  cases hm : parse .positional {}
      "CREATE TABLE \" \" (a int, x text, FOREIGN KEY (x) REFERENCES \" \" (a));" with
  | error e =>
    rw [hm] at hread
    cases hread
  | ok m =>
    rw [hm] at hread
    exact ⟨m, rfl, Option.some.inj hread,
      wellFormed_of_parse Ids.distinct_positional Ids.present_positional hm⟩

end SchemaDdl
