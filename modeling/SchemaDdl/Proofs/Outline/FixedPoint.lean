import SchemaDdl.Proofs.Outline.RoundTrip

/-!
# When generating is a fixed point

The script of a model that was read always reads back, but key flags travel by column name. So it is
generated again if and only if the keys of every table read back, which they need not do when
columns share a name.
-/

namespace SchemaDdl

open Script

/-! ## Changing tables in place -/

namespace Outline

variable {o : Outline} {f : TableOutline → TableOutline}

def mapTables (f : TableOutline → TableOutline) (o : Outline) : Outline :=
  { o with tables := o.tables.map f }

theorem tablesOf_mapTables (hf : ∀ t, (f t).key = t.key) (schema : String) :
    (o.mapTables f).tablesOf schema = (o.tablesOf schema).map f := by
  have hgroup : group (fun t => t.key.schema) (o.tables.map f) schema =
      (group (fun t => t.key.schema) o.tables schema).map f := by
    rw [group, group, List.filter_map]
    refine congrArg _ (List.filter_congr fun t _ => ?_)
    rw [Function.comp_apply, hf]
  rw [tablesOf, mapTables, hgroup]
  exact (Model.map_sortedByName fun t _ => by rw [hf]).symm

/-- Tables are sorted by their keys, whatever else changes. -/
theorem sorted_mapTables (hf : ∀ t, (f t).key = t.key) :
    (o.mapTables f).sorted = o.sorted.mapTables f := by
  have htables : (o.mapTables f).tablesOf = fun schema => (o.tablesOf schema).map f :=
    funext (tablesOf_mapTables hf)
  rw [sorted, htables, ← List.map_flatMap]
  rfl

theorem Distinct.sorted_reread_sorted (h : o.Distinct) (hdefault : defaultSchema ∈ o.schemas)
    (inferId : Bool) :
    (o.sorted.reread inferId).sorted = o.sorted.mapTables (TableOutline.reread inferId) := by
  have hsimilar := h.sorted.similar_withDefault (mem_sorted_schemas.2 hdefault)
  have hsorted : o.sorted.withDefault.sorted = o.sorted := by
    rw [hsimilar.sorted_eq h.sorted.withDefault, h.sorted_sorted]
  have hmap : (o.sorted.withDefault.mapTables (TableOutline.reread inferId)).sorted =
      o.sorted.withDefault.sorted.mapTables (TableOutline.reread inferId) :=
    sorted_mapTables fun _ => rfl
  rw [hsorted] at hmap
  exact hmap

end Outline

/-! ## Tables that are written alike -/

section Recomment

variable {cs : List ColumnDraft} {ds : List ColumnOutline}

theorem map_toColumnDraft_recomment (h : cs.map ColumnDraft.name = ds.map fun d => d.name) :
    (recomment cs ds).map ColumnOutline.toColumnDraft = cs := by
  induction ds generalizing cs with
  | nil =>
    have hcs : cs = [] := by simpa using h
    subst hcs
    rfl
  | cons d ds ih =>
    obtain ⟨c, cs, rfl, -, hmore⟩ := List.map_eq_cons_iff.1 h
    rw [recomment, List.zipWith_cons_cons, List.map_cons]
    exact congrArg (c :: ·) (ih hmore)

theorem comments_recomment (key : QualifiedName)
    (h : cs.map ColumnDraft.name = ds.map fun d => d.name) :
    ((recomment cs ds).filterMap fun c => c.comment.map (Ddl.Statement.commentOnColumn key c.name)) =
      ds.filterMap fun d => d.comment.map (Ddl.Statement.commentOnColumn key d.name) := by
  induction ds generalizing cs with
  | nil => rw [recomment, List.zipWith_nil_right]
  | cons d ds ih =>
    obtain ⟨c, cs, rfl, hname, hmore⟩ := List.map_eq_cons_iff.1 h
    have hrest := ih hmore
    rw [recomment] at hrest ⊢
    rw [List.zipWith_cons_cons, List.filterMap_cons, List.filterMap_cons, hrest, hname]

end Recomment

namespace TableOutline

variable (inferId : Bool) (t : TableOutline)

theorem map_name_rekeyed_drafts :
    (rekeyed inferId t.drafts).map ColumnDraft.name = t.columns.map fun c => c.name := by
  rw [map_name_rekeyed, drafts, List.map_map]
  rfl

theorem drafts_reread : (t.reread inferId).drafts = rekeyed inferId t.drafts :=
  map_toColumnDraft_recomment (t.map_name_rekeyed_drafts inferId)

/-- A table that is read back keeps all its statements but the first. -/
theorem block_reread :
    (t.reread inferId).block = .createTable t.key (t.reread inferId).definitions :: t.comments := by
  have hcomments : (t.reread inferId).comments = t.comments := by
    rw [comments, comments, ← comments_recomment t.key (t.map_name_rekeyed_drafts inferId)]
    rfl
  rw [block, hcomments]
  rfl

variable {inferId t}

theorem Legible.readable_definitions (h : t.Legible) : ∀ d ∈ t.definitions, d.Readable :=
  h.readable (.createTable t.key t.definitions) List.mem_cons_self

/-- Tables that differ in what is read back from them have different texts. -/
theorem columnDefinitions_eq_of_text_eq (h : t.Legible) (h' : (t.reread inferId).Legible)
    (htext : (Ddl.Statement.createTable t.key (t.reread inferId).definitions).text =
      (Ddl.Statement.createTable t.key t.definitions).text) :
    columnDefinitions (rekeyed inferId t.drafts) = columnDefinitions t.drafts := by
  have hitems := Ddl.map_item_eq_of_text_eq h'.readable_definitions h.readable_definitions htext false
  have hfks : (t.reread inferId).foreignKeys = t.foreignKeys := rfl
  rw [definitions, definitions, drafts_reread, hfks, map_item_definitions, map_item_definitions]
    at hitems
  exact columnDefinitions_eq_iff.2 (eq_of_bodyItems_eq hitems)

end TableOutline

/-! ## Scripts that are written alike -/

section Script

variable {inferId : Bool}

theorem columnDefinitions_eq_of_texts {ts : List TableOutline} (h : ∀ t ∈ ts, t.Legible)
    (h' : ∀ t ∈ ts, (t.reread inferId).Legible)
    (htexts : (ts.flatMap fun t => (t.reread inferId).block).map Ddl.Statement.text =
      (ts.flatMap TableOutline.block).map Ddl.Statement.text) :
    ∀ t ∈ ts, columnDefinitions (rekeyed inferId t.drafts) = columnDefinitions t.drafts := by
  induction ts with
  | nil => exact fun t ht => by cases ht
  | cons t ts ih =>
    rw [List.flatMap_cons, List.flatMap_cons, List.map_append, List.map_append, t.block_reread,
      TableOutline.block, List.map_cons, List.map_cons, List.cons_append, List.cons_append] at htexts
    obtain ⟨htext, hmore⟩ := List.cons.inj htexts
    have hrest := ih (fun u hu => h u (List.mem_cons_of_mem t hu))
      (fun u hu => h' u (List.mem_cons_of_mem t hu)) (List.append_cancel_left hmore)
    intro u hu
    rcases List.mem_cons.1 hu with rfl | hu
    · exact TableOutline.columnDefinitions_eq_of_text_eq (h u List.mem_cons_self)
        (h' u List.mem_cons_self) htext
    · exact hrest u hu

namespace Outline

variable {o : Outline}

theorem flatten_script (o : Outline) :
    o.script.flatten = (schemaBlocks o.schemas).flatten ++
      (o.types.map fun t => Ddl.Statement.createType t.key t.values) ++
        o.tables.flatMap TableOutline.block := by
  rw [script, List.flatten_append, List.flatten_append, flatten_map_singleton, List.flatMap_def]

/-- Scripts of legible outlines with one text have the same statement texts. -/
theorem Legible.map_text_eq {o' : Outline} (h : o.Legible) (h' : o'.Legible)
    (htext : Ddl.scriptText o'.script = Ddl.scriptText o.script) :
    o'.script.flatten.map Ddl.Statement.text = o.script.flatten.map Ddl.Statement.text := by
  have hstatements :=
    Ddl.map_text_statements_scriptText (fun b hb => ne_nil_of_mem_script hb) h.readable
  rw [← htext, Ddl.map_text_statements_scriptText (fun b hb => ne_nil_of_mem_script hb) h'.readable]
    at hstatements
  have htexts := congrArg (List.map String.ofList) hstatements
  rw [List.map_map, List.map_map] at htexts
  have hofList : (String.ofList ∘ fun s : Ddl.Statement => s.text.toList) = Ddl.Statement.text := by
    funext s
    exact String.ofList_toList
  rwa [hofList] at htexts

/-- An outline that is read back table by table has the same script if and only if the definitions
of all tables are the same. -/
theorem Legible.scriptText_reread_iff (h : o.Legible)
    (h' : (o.mapTables (TableOutline.reread inferId)).Legible) :
    Ddl.scriptText (o.mapTables (TableOutline.reread inferId)).script = Ddl.scriptText o.script ↔
      ∀ t ∈ o.tables, columnDefinitions (rekeyed inferId t.drafts) = columnDefinitions t.drafts := by
  constructor
  · intro htext
    have htexts := h.map_text_eq h' htext
    rw [flatten_script, flatten_script] at htexts
    simp only [List.map_append] at htexts
    have htables := List.append_cancel_left htexts
    rw [mapTables, List.flatMap_map] at htables
    refine columnDefinitions_eq_of_texts h.each (fun t ht => ?_) htables
    exact h'.each _ (List.mem_map_of_mem ht)
  · intro hdefinitions
    have hblocks : (o.tables.map (TableOutline.reread inferId)).map TableOutline.block =
        o.tables.map TableOutline.block := by
      rw [List.map_map]
      refine List.map_congr_left fun t ht => ?_
      have hsame : (t.reread inferId).definitions = t.definitions := by
        rw [TableOutline.definitions, TableOutline.drafts_reread, hdefinitions t ht]
        rfl
      rw [Function.comp_apply, t.block_reread, hsame]
      rfl
    have hscript : (o.mapTables (TableOutline.reread inferId)).script = o.script :=
      congrArg (schemaBlocks o.schemas ++ o.types.map (fun t => [.createType t.key t.values]) ++ ·)
        hblocks
    rw [hscript]

end Outline

end Script

/-- The script of a model that was read is read back, and generated again if and only if the keys of
all its tables read back. -/
theorem generate_fixed_iff {ids ids' : Ids} (hids : ids.Distinct) (hids' : ids'.Distinct)
    {options : Options} {script : String} {m : Model} (h : parse ids options script = .ok m) :
    ∃ m', parse ids' options (Ddl.generate m) = .ok m' ∧
      (Ddl.generate m' = Ddl.generate m ↔
        ∀ t ∈ m.outline.tables, KeysReadBack options.inferId t.drafts) := by
  obtain ⟨hm, -, hdefault⟩ := rereadable_of_parse hids h
  obtain ⟨m', hm', houtline⟩ := hm.exists_parse hids' options
  obtain ⟨hre, -, -⟩ := rereadable_of_parse hids' hm'
  have hdistinct := hm.legible.toDistinct
  have hsorted := hdistinct.sorted_reread_sorted hdefault options.inferId
  have hlegible := hre.legible.sorted
  rw [houtline, hsorted] at hlegible
  refine ⟨m', hm', ?_⟩
  rw [hm.generate_eq, hre.generate_eq, houtline, hsorted,
    hm.legible.sorted.scriptText_reread_iff hlegible]
  have hkeys {t : TableOutline} (ht : t ∈ m.outline.tables) :
      columnDefinitions (rekeyed options.inferId t.drafts) = columnDefinitions t.drafts ↔
        KeysReadBack options.inferId t.drafts := columnDefinitions_rekeyed_iff (hm.keyed t ht)
  constructor
  · exact fun hall t ht => (hkeys ht).1 (hall t (hdistinct.perm_tables.mem_iff.2 ht))
  · intro hall t ht
    have ht := hdistinct.perm_tables.mem_iff.1 ht
    exact (hkeys ht).2 (hall t ht)

/-- The second of two columns with one name is the key, and the first one becomes not null. -/
theorem generate_not_fixed :
    ∃ m m', parse .positional {} "CREATE TABLE t (a int, a int PRIMARY KEY);" = .ok m ∧
      parse .positional {} (Ddl.generate m) = .ok m' ∧ Ddl.generate m' ≠ Ddl.generate m := by
  let cs : List ColumnDraft := [⟨"a", "int", true, none, false, false⟩, ⟨"a", "int", false, none, true, true⟩]
  have hread : (parse .positional {} "CREATE TABLE t (a int, a int PRIMARY KEY);").toOption.map
      (fun m => m.outline.tables.map TableOutline.drafts) = some [cs] := by
    decide +kernel
  have hkeys : ¬KeysReadBack true cs := by
    intro h
    have := h.notNull (⟨"a", "int", true, none, false, false⟩, true) (by decide) rfl (by decide)
    cases this
  cases hm : parse .positional {} "CREATE TABLE t (a int, a int PRIMARY KEY);" with
  | error e =>
    rw [hm] at hread
    cases hread
  | ok m =>
    rw [hm] at hread
    have hdrafts : m.outline.tables.map TableOutline.drafts = [cs] := Option.some.inj hread
    obtain ⟨t, ts, htables, ht, -⟩ := List.map_eq_cons_iff.1 hdrafts
    obtain ⟨m', hm', hfixed⟩ := generate_fixed_iff Ids.distinct_positional Ids.distinct_positional hm
    refine ⟨m, m', rfl, hm', fun heq => hkeys ?_⟩
    rw [← ht]
    exact hfixed.1 heq t (htables ▸ List.mem_cons_self)

end SchemaDdl
