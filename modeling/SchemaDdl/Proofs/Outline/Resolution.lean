import SchemaDdl.Proofs.Fallible
import SchemaDdl.Proofs.Outline.Comments

/-!
# The outline of a resolved draft

A draft declares an outline without giving out ids. It is resolved if and only if it declares one,
and then to a model with that outline, in which every reference is linked.
-/

namespace SchemaDdl

open Script

/-- A table as it is declared, before comments. -/
def Script.TableDraft.outline (t : TableDraft) : TableOutline where
  key := t.key
  comment := none
  columns := t.columns.map fun c => { toColumnDraft := c }
  foreignKeys := List.zipWith (fun name (fk : ForeignKeyDraft) => { fk with name })
    (constraintNames t.key.name [] t.foreignKeys) t.foreignKeys

/-- What a draft says without ids: all its foreign keys have their ends, and its comments can be
written into its tables. -/
structure Script.Draft.Declares (d : Draft) (o : Outline) : Prop where
  schemas : o.schemas = d.schemas
  types : o.types = d.types
  ends : ∀ t ∈ d.tables, ∀ fk ∈ t.foreignKeys, d.HasEnds t fk
  tables : d.comments.foldlM describe? (d.tables.map TableDraft.outline) = some o.tables

theorem Script.Draft.Declares.unique {d : Draft} {o o' : Outline} (h : d.Declares o)
    (h' : d.Declares o') : o = o' := by
  have hschemas : o.schemas = o'.schemas := h.schemas.trans h'.schemas.symm
  have htypes : o.types = o'.types := h.types.trans h'.types.symm
  have htables : o.tables = o'.tables := Option.some.inj (h.tables.symm.trans h'.tables)
  cases o
  cases o'
  cases hschemas
  cases htypes
  cases htables
  rfl

/-- The constraint names of a table are given in turn. -/
theorem constraintNames_eq_inTurn (table : String) (used : List String) (fks : List ForeignKeyDraft) :
    constraintNames table used fks = Naming.inTurn Naming.ensureUnique used (fks.map fun fk =>
      Naming.sanitize fk.name (Naming.constraintName [table, fk.fromColumn, "fkey"] "fk")) := by
  induction fks generalizing used with
  | nil => rfl
  | cons fk fks ih =>
    rw [constraintNames, List.map_cons, Naming.inTurn, ih]

theorem length_constraintNames (table : String) (used : List String) (fks : List ForeignKeyDraft) :
    (constraintNames table used fks).length = fks.length := by
  rw [constraintNames_eq_inTurn, (Naming.apart_inTurn Naming.ensureUnique_notMem used _).each,
    List.length_map]

/-- Each foreign key of a table stands for its draft, under its new name. -/
theorem map_foreignKeyOutline? {m : Model} {t : Table} {resolve : ForeignKeyDraft → Except ParseError Ends}
    (hresolve : ∀ fk e, resolve fk = .ok e → ∀ id name,
      m.foreignKeyOutline? t (foreignKey id name e fk) = some { fk with name })
    {drafts : List ForeignKeyDraft} {ends : List Ends} {names : List String}
    (hends : drafts.map resolve = ends.map .ok) (hnames : names.length = drafts.length)
    (ids : Nat → String) :
    (((names.zip ends).zip drafts).mapIdx fun j x => foreignKey (ids j) x.1.1 x.1.2 x.2).map
        (m.foreignKeyOutline? t) =
      (List.zipWith (fun name (fk : ForeignKeyDraft) => { fk with name }) names drafts).map some := by
  induction drafts generalizing ends names ids with
  | nil => cases names <;> cases ends <;> rfl
  | cons fk fks ih =>
    obtain ⟨e, es, rfl, he, hes⟩ := List.map_eq_cons_iff.1 hends.symm
    cases names with
    | nil => cases hnames
    | cons name names =>
      have hmore := ih hes.symm (Nat.succ.inj hnames) fun j => ids (j + 1)
      rw [List.zip_cons_cons, List.zip_cons_cons, List.mapIdx_cons, List.map_cons, hmore,
        hresolve fk e he.symm, List.zipWith_cons_cons, List.map_cons]

theorem filterMap_eq_of_map {α β : Type} {f : α → Option β} {xs : List α} {ys : List β}
    (h : xs.map f = ys.map some) : xs.filterMap f = ys := by
  have := congrArg (List.filterMap id) h
  rwa [List.filterMap_map, List.filterMap_map, Function.id_comp, Function.id_comp,
    List.filterMap_some] at this

section Resolve

variable {ids : Ids} {d : Draft}

theorem resolveForeignKeys_eq_ok_iff {placed : List Placed} {i : Nat} {p : Placed} {t : Table} :
    resolveForeignKeys ids placed i p = .ok t ↔
      ∃ ends, p.draft.foreignKeys.mapM (resolveEnds placed p) = .ok ends ∧
        t = { p.table with
          foreignKeys := (((constraintNames p.draft.key.name [] p.draft.foreignKeys).zip ends).zip
            p.draft.foreignKeys).mapIdx fun j x =>
              foreignKey (ids.foreignKey i j) x.1.1 x.1.2 x.2 } := by
  rw [resolveForeignKeys, bind_eq_ok_iff]
  constructor
  · rintro ⟨ends, hends, h⟩
    cases h
    exact ⟨ends, hends, rfl⟩
  · rintro ⟨ends, hends, rfl⟩
    exact ⟨ends, hends, rfl⟩

/-- The tables with their foreign keys, before comments. -/
def resolvedTables (ids : Ids) (d : Draft) : Except ParseError (List Table) :=
  (d.placed ids).zipIdx.mapM fun (p, i) => resolveForeignKeys ids (d.placed ids) i p

theorem resolve_eq_ok_iff {m : Model} :
    d.resolve ids = .ok m ↔ ∃ ts, resolvedTables ids d = .ok ts ∧
      ∃ keyed, d.comments.foldlM applyComment ((d.tables.map TableDraft.key).zip ts) = .ok keyed ∧
        m = d.model ids (keyed.map Prod.snd) := by
  rw [Draft.resolve, bind_eq_ok_iff]
  constructor
  · rintro ⟨ts, hts, h⟩
    obtain ⟨keyed, hkeyed, h⟩ := bind_eq_ok_iff.1 h
    cases h
    exact ⟨ts, hts, keyed, hkeyed, rfl⟩
  · rintro ⟨ts, hts, keyed, hkeyed, rfl⟩
    refine ⟨ts, hts, ?_⟩
    rw [bind_eq_ok_iff]
    exact ⟨keyed, hkeyed, rfl⟩

section Tables

variable (hids : ids.Distinct) (hd : d.Distinct) {ts : List Table}
  (hts : resolvedTables ids d = .ok ts)

include hts

/-- What the tables of a draft come out as. -/
theorem map_resolvedTables {β : Type} {g : Table → β} {k : Placed → β}
    (h : ∀ p ∈ d.placed ids, ∀ i t, resolveForeignKeys ids (d.placed ids) i p = .ok t → g t = k p) :
    ts.map g = (d.placed ids).map k := by
  have hmap := map_eq_map_of_mapM (k := fun x : Placed × Nat => k x.1) hts
    fun x hx t ht => h x.1 (List.fst_mem_of_mem_zipIdx hx) x.2 t ht
  rw [hmap, show (fun x : Placed × Nat => k x.1) = k ∘ Prod.fst from rfl, ← List.map_map,
    List.zipIdx_map_fst]

theorem map_unlinked_resolvedTables :
    ts.map Table.unlinked = (d.placed ids).map Placed.table := by
  refine map_resolvedTables hts fun p hp i t ht => ?_
  obtain ⟨ends, -, rfl⟩ := resolveForeignKeys_eq_ok_iff.1 ht
  obtain ⟨j, u, -, rfl⟩ := exists_place hp
  rfl

theorem hasEnds_of_resolvedTables (hd : d.Distinct) {t : TableDraft} (ht : t ∈ d.tables)
    {fk : ForeignKeyDraft} (hfk : fk ∈ t.foreignKeys) : d.HasEnds t fk := by
  rw [← map_draft_placed ids d] at ht
  obtain ⟨p, hp, rfl⟩ := List.mem_map.1 ht
  obtain ⟨i, hi, hip⟩ := List.mem_iff_getElem.1 hp
  have hmem : (p, i) ∈ (d.placed ids).zipIdx := by
    rw [List.mem_zipIdx_iff_getElem?, List.getElem?_eq_getElem hi, hip]
  obtain ⟨u, -, hu⟩ := exists_of_mapM_of_mem hts hmem
  obtain ⟨ends, hends, -⟩ := resolveForeignKeys_eq_ok_iff.1 hu
  obtain ⟨e, -, he⟩ := exists_of_mapM_of_mem hends hfk
  exact (exists_resolveEnds_iff hd hp fk).1 ⟨e, he⟩

include hids hd

theorem map_foreignKeyOutline?_resolved {p : Placed} (hp : p ∈ d.placed ids) {i : Nat} {t : Table}
    (ht : resolveForeignKeys ids (d.placed ids) i p = .ok t) :
    t.foreignKeys.map ((d.model ids ts).foreignKeyOutline? t) =
      p.draft.outline.foreignKeys.map some := by
  obtain ⟨ends, hends, rfl⟩ := resolveForeignKeys_eq_ok_iff.1 ht
  have hunlinked (fks : List ForeignKey) : { p.table with foreignKeys := fks }.unlinked = p.table := by
    obtain ⟨j, u, -, rfl⟩ := exists_place hp
    rfl
  refine map_foreignKeyOutline? (fun fk e he id name => ?_) (mapM_eq_ok_iff.1 hends)
    (length_constraintNames _ _ _) (ids.foreignKey i)
  exact foreignKeyOutline?_resolved hids hd (map_unlinked_resolvedTables hts) hp (hunlinked _) he id name

theorem map_tableOutline_resolvedTables :
    ts.map (d.model ids ts).tableOutline = d.tables.map TableDraft.outline := by
  rw [← map_draft_placed ids d, List.map_map]
  refine map_resolvedTables hts fun p hp i t ht => ?_
  have hfks := filterMap_eq_of_map (map_foreignKeyOutline?_resolved hids hd hts hp ht)
  have hqualify := qualify_placed hids hd ts hp
  have hcolumns := map_outline_columns hp
  have hcomment : p.table.comment = none := by
    obtain ⟨j, u, -, rfl⟩ := exists_place hp
    rfl
  obtain ⟨ends, -, rfl⟩ := resolveForeignKeys_eq_ok_iff.1 ht
  rw [Model.tableOutline, hfks]
  simp only [hqualify, hcolumns, hcomment]
  rfl

theorem isSome_foreignKeyOutline?_resolved {t : Table} (ht : t ∈ ts) {fk : ForeignKey}
    (hfk : fk ∈ t.foreignKeys) : ((d.model ids ts).foreignKeyOutline? t fk).isSome := by
  obtain ⟨⟨p, i⟩, hp, hpt⟩ := exists_of_mem_of_mapM hts ht
  have hmap := map_foreignKeyOutline?_resolved hids hd hts (List.fst_mem_of_mem_zipIdx hp) hpt
  have hmem : (d.model ids ts).foreignKeyOutline? t fk ∈ p.draft.outline.foreignKeys.map some := by
    rw [← hmap]
    exact List.mem_map_of_mem hfk
  obtain ⟨o, -, ho⟩ := List.mem_map.1 hmem
  rw [← ho]
  rfl

end Tables

/-- Tables with their keys, as comments find them. -/
theorem zip_keys_eq {m : Model} {ts : List Table}
    (h : ts.map m.tableOutline = d.tables.map TableDraft.outline) :
    (d.tables.map TableDraft.key).zip ts = ts.map fun t => (m.qualify t.schemaId t.name, t) := by
  have hkeys := congrArg (List.map TableOutline.key) h
  rw [List.map_map, List.map_map] at hkeys
  have hkeys' : d.tables.map TableDraft.key = ts.map fun t => m.qualify t.schemaId t.name := hkeys.symm
  have hzip : (ts.map fun t => m.qualify t.schemaId t.name).zip (ts.map id) =
    ts.map fun t => (m.qualify t.schemaId t.name, id t) := List.zip_map'
  rw [hkeys']
  rwa [List.map_id] at hzip

section Model

variable (hids : ids.Distinct) (hd : d.Distinct)

include hids hd

theorem map_typeOutline (ts : List Table) :
    (d.model ids ts).types.map (d.model ids ts).typeOutline = d.types := by
  have hmap : (d.model ids ts).types.map (d.model ids ts).typeOutline = d.types.map id := by
    refine map_mapIdx_eq_map _ _ d.types fun i t ht => ?_
    have hname := schemaName?_schemaId hids ts (hd.types t ht)
    rw [Model.typeOutline, Model.qualify, hname]
    rfl
  rw [hmap, List.map_id]

theorem isSome_schemaName?_type (ts : List Table) {t : EnumType} (ht : t ∈ (d.model ids ts).types) :
    ((d.model ids ts).schemaName? t.schemaId).isSome := by
  obtain ⟨i, hi, rfl⟩ := List.mem_mapIdx.1 ht
  exact Option.isSome_iff_exists.2
    ⟨_, schemaName?_schemaId hids ts (hd.types _ (List.getElem_mem hi))⟩

theorem keyedBy_resolvedTables {ts : List Table} (hts : resolvedTables ids d = .ok ts) :
    KeyedBy (d.model ids ts) ((d.tables.map TableDraft.key).zip ts) := by
  have hmap := map_tableOutline_resolvedTables hids hd hts
  have hlength : d.tables.length = ts.length := by
    simpa using (congrArg List.length hmap).symm
  constructor
  · rw [List.map_fst_zip (by simp [hlength])]
    exact hd.keys
  · rw [zip_keys_eq hmap]
    intro p hp
    obtain ⟨t, -, rfl⟩ := List.mem_map.1 hp
    rfl

/-- Every reference in a model is linked if its tables are those of the draft, comments aside. -/
theorem linked_of_plain {ts ts' : List Table} (hts : resolvedTables ids d = .ok ts)
    (hplain : ts'.map Table.plain = ts.map Table.plain) : (d.model ids ts').Linked := by
  have hmodel : (d.model ids ts').plain = (d.model ids ts).plain := by
    rw [Model.plain, Model.plain]
    exact congrArg (d.model ids) hplain
  have hsource {t : Table} (ht : t ∈ ts') : ∃ u ∈ ts, u.plain = t.plain := by
    have hmem : t.plain ∈ ts.map Table.plain := hplain ▸ List.mem_map_of_mem ht
    exact List.mem_map.1 hmem
  refine ⟨⟨fun t ht => isSome_schemaName?_type hids hd _ ht, fun t ht => ?_⟩, fun t ht fk hfk => ?_⟩
  · obtain ⟨u, hu, hut⟩ := hsource ht
    have hmem : u.unlinked ∈ (d.placed ids).map Placed.table := by
      rw [← map_unlinked_resolvedTables hts]
      exact List.mem_map_of_mem hu
    obtain ⟨p, hp, hpu⟩ := List.mem_map.1 hmem
    have hschema : p.table.schemaId = t.schemaId := by
      have hp' := congrArg Table.schemaId hpu
      have hu' := congrArg Table.schemaId hut
      exact hp'.trans hu'
    rw [← hschema]
    exact isSome_schemaName?_placed hids hd _ hp
  · obtain ⟨u, hu, hut⟩ := hsource ht
    have hfks : u.foreignKeys = t.foreignKeys := by
      have := congrArg Table.foreignKeys hut
      exact this
    rw [Model.foreignKeyOutline?_congr hmodel hut.symm]
    exact isSome_foreignKeyOutline?_resolved hids hd hts hu (hfks ▸ hfk)

/-- Comments leave the tables of a draft as they were resolved, themselves aside. -/
theorem plain_of_applyComments {ts : List Table} (hts : resolvedTables ids d = .ok ts)
    {keyed : KeyedTables}
    (hkeyed : d.comments.foldlM applyComment ((d.tables.map TableDraft.key).zip ts) = .ok keyed) :
    (keyed.map Prod.snd).map Table.plain = ts.map Table.plain := by
  have hkeys := keyedBy_resolvedTables hids hd hts
  have hsnd : ((d.tables.map TableDraft.key).zip ts).map Prod.snd = ts := by
    rw [zip_keys_eq (map_tableOutline_resolvedTables hids hd hts), List.map_map]
    exact List.map_id ts
  have hkept := (outlines_applyComments hkeys d.comments).2 keyed hkeyed
  have := congrArg (List.map Prod.snd) hkept
  rw [plainTables, plainTables, List.map_map, List.map_map] at this
  rw [← hsnd, List.map_map, List.map_map]
  exact this

/-- A draft that is resolved declares the outline of its model. -/
theorem declares_of_resolve {m : Model} (h : d.resolve ids = .ok m) :
    d.Declares m.outline ∧ m.Linked ∧ (m.schemas.map Schema.id).Nodup := by
  obtain ⟨ts, hts, keyed, hkeyed, rfl⟩ := resolve_eq_ok_iff.1 h
  have hmap := map_tableOutline_resolvedTables hids hd hts
  have hkeys := keyedBy_resolvedTables hids hd hts
  have hplain := plain_of_applyComments hids hd hts hkeyed
  have hsnd : ((d.tables.map TableDraft.key).zip ts).map Prod.snd = ts := by
    rw [zip_keys_eq hmap, List.map_map]
    exact List.map_id ts
  generalize (d.tables.map TableDraft.key).zip ts = start at hkeyed hkeys hsnd
  have hfold := (outlines_applyComments hkeys d.comments).1
  have hlinked := linked_of_plain hids hd hts hplain
  have houtline : (d.model ids (keyed.map Prod.snd)).tableOutline = (d.model ids ts).tableOutline := by
    have hmodel : (d.model ids (keyed.map Prod.snd)).plain = (d.model ids ts).plain := by
      rw [Model.plain, Model.plain]
      exact congrArg (d.model ids) hplain
    funext t
    rw [Model.tableOutline, Model.foreignKeyOutline?_congr hmodel rfl]
    rfl
  have houtlines (tables : KeyedTables) : outlines (d.model ids ts) tables =
      (tables.map Prod.snd).map (d.model ids ts).tableOutline := by
    rw [List.map_map]
    rfl
  refine ⟨⟨?_, map_typeOutline hids hd _, ?_, ?_⟩, hlinked, nodup_schemaIds hids d _⟩
  · have hmap : (d.schemas.mapIdx fun i name => (⟨ids.schema i, name⟩ : Schema)).map Schema.name =
      d.schemas.map id := map_mapIdx_eq_map _ _ d.schemas fun _ _ _ => rfl
    rwa [List.map_id] at hmap
  · exact fun t ht fk hfk => hasEnds_of_resolvedTables hts hd ht hfk
  · have hstart := houtlines start
    rw [hsnd, hmap] at hstart
    rw [← hstart, ← hfold, hkeyed]
    change some (outlines (d.model ids ts) keyed) = some ((keyed.map Prod.snd).map _)
    rw [houtline, houtlines]

/-- A draft that declares an outline is resolved. -/
theorem exists_resolve_of_declares {o : Outline} (h : d.Declares o) :
    ∃ m, d.resolve ids = .ok m ∧ m.outline = o := by
  obtain ⟨ts, hts⟩ : ∃ ts, resolvedTables ids d = .ok ts := by
    refine exists_mapM_eq_ok fun ⟨p, i⟩ hpi => ?_
    have hp := List.fst_mem_of_mem_zipIdx hpi
    have hdraft : p.draft ∈ d.tables := by
      rw [← map_draft_placed ids d]
      exact List.mem_map_of_mem hp
    obtain ⟨ends, hends⟩ := exists_mapM_eq_ok fun fk hfk =>
      (exists_resolveEnds_iff hd hp fk).2 (h.ends p.draft hdraft fk hfk)
    exact ⟨_, resolveForeignKeys_eq_ok_iff.2 ⟨ends, hends, rfl⟩⟩
  have hmap := map_tableOutline_resolvedTables hids hd hts
  have hkeys := keyedBy_resolvedTables hids hd hts
  have hstart : outlines (d.model ids ts) ((d.tables.map TableDraft.key).zip ts) =
      d.tables.map TableDraft.outline := by
    rw [← hmap, zip_keys_eq hmap, outlines, List.map_map]
    rfl
  obtain ⟨hfold, -⟩ := outlines_applyComments hkeys d.comments
  rw [hstart, h.tables] at hfold
  cases hkeyed : d.comments.foldlM applyComment ((d.tables.map TableDraft.key).zip ts) with
  | error e =>
    rw [hkeyed] at hfold
    cases hfold
  | ok keyed =>
    have hm : d.resolve ids = .ok (d.model ids (keyed.map Prod.snd)) :=
      resolve_eq_ok_iff.2 ⟨ts, hts, keyed, hkeyed, rfl⟩
    obtain ⟨hdeclares, -⟩ := declares_of_resolve hids hd hm
    exact ⟨_, hm, hdeclares.unique h⟩

end Model

end Resolve

end SchemaDdl
