import SchemaDdl.Proofs.Outline.Declared

/-!
# The structural round trip

A model with a legible outline is read back from its script, up to ids, the order of schemas, of
tables and of types of different schemas, and the keys of columns that share their names. Every
model that is read from a script has such an outline.
-/

namespace SchemaDdl

open Script

namespace Outline

variable {o o' o'' : Outline}

theorem Similar.trans (h : o.Similar o') (h' : o'.Similar o'') : o.Similar o'' :=
  ⟨h.schemas.trans h'.schemas, fun schema => (h.types schema).trans (h'.types schema),
    h.tables.trans h'.tables⟩

theorem mem_sorted_schemas {name : String} : name ∈ o.sorted.schemas ↔ name ∈ o.schemas :=
  (Model.perm_sortedByName id o.schemas).mem_iff

theorem Distinct.sorted (h : o.Distinct) : o.sorted.Distinct := by
  constructor
  · exact nodup_sortedByName h.schemas
  · exact fun t ht => mem_sorted_schemas.2 (h.types t (h.perm_types.mem_iff.1 ht))
  · exact fun t ht => mem_sorted_schemas.2 (h.tables t (h.perm_tables.mem_iff.1 ht))
  · exact (h.perm_tables.map TableOutline.key).nodup_iff.2 h.keys

theorem Distinct.sorted_sorted (h : o.Distinct) : o.sorted.sorted = o.sorted :=
  h.similar_sorted.sorted_eq h.sorted

theorem Similar.symm (h : o.Similar o') : o'.Similar o :=
  ⟨h.schemas.symm, fun schema => (h.types schema).symm, h.tables.symm⟩

theorem Similar.mem_types (h : o.Similar o') {t : TypeDraft} : t ∈ o.types ↔ t ∈ o'.types := by
  have hgroup (o : Outline) : t ∈ o.types ↔ t ∈ o.typesOf t.key.schema :=
    ⟨fun ht => mem_group.2 ⟨ht, rfl⟩, fun ht => (mem_group.1 ht).1⟩
  rw [hgroup o, hgroup o', h.types]

/-- What is legible stays so when its parts are moved. -/
theorem Similar.legible (h : o.Similar o') (ho : o.Legible) : o'.Legible := by
  refine ⟨⟨?_, ?_, ?_, ?_⟩, ?_, ?_, ?_⟩
  · exact h.schemas.nodup_iff.1 ho.schemas
  · exact fun t ht => h.schemas.mem_iff.1 (ho.types t (h.mem_types.2 ht))
  · exact fun t ht => h.schemas.mem_iff.1 (ho.tables t (h.tables.mem_iff.2 ht))
  · exact (h.tables.map TableOutline.key).nodup_iff.1 ho.keys
  · exact fun t ht => ho.values t (h.mem_types.2 ht)
  · exact fun t ht => ho.each t (h.tables.mem_iff.2 ht)
  · intro t ht fk hfk
    obtain ⟨u, hu, hkey, hcolumn⟩ := ho.targets t (h.tables.mem_iff.2 ht) fk hfk
    exact ⟨u, h.tables.mem_iff.1 hu, hkey, hcolumn⟩

/-- Sorting moves parts without changing them. -/
theorem Legible.sorted (h : o.Legible) : o.sorted.Legible :=
  h.similar_sorted.symm.legible h

/-- An outline that lists the default schema, as all models of scripts do. -/
def withDefault (o : Outline) : Outline :=
  { o with schemas := defaultSchema :: o.createdSchemas }

theorem Distinct.withDefault (h : o.Distinct) : o.withDefault.Distinct :=
  ⟨h.nodup_createdSchemas, fun t ht => mem_defaultSchema_cons (h.types t ht),
    fun t ht => mem_defaultSchema_cons (h.tables t ht), h.keys⟩

theorem Distinct.perm_schemas_withDefault (h : o.Distinct) (hdefault : defaultSchema ∈ o.schemas) :
    o.withDefault.schemas.Perm o.schemas := by
  have herase : o.createdSchemas = o.schemas.erase defaultSchema := by
    rw [createdSchemas, h.schemas.erase_eq_filter]
  rw [Outline.withDefault, herase]
  exact (List.perm_cons_erase hdefault).symm

theorem Distinct.similar_withDefault (h : o.Distinct) (hdefault : defaultSchema ∈ o.schemas) :
    o.withDefault.Similar o :=
  ⟨h.perm_schemas_withDefault hdefault, fun _ => rfl, .rfl⟩

end Outline

/-! ## Tables with distinct column names -/

theorem recomment_drafts (cs : List ColumnOutline) :
    recomment (cs.map ColumnOutline.toColumnDraft) cs = cs := by
  rw [recomment, List.zipWith_map_left]
  refine (List.zipWith_self ..).trans ?_
  exact List.map_id cs

theorem TableOutline.reread_eq_self {inferId : Bool} {t : TableOutline}
    (hnames : (t.drafts.map ColumnDraft.name).Nodup) (hkeyed : ∀ c ∈ t.drafts, c.Keyed inferId) :
    t.reread inferId = t := by
  rw [reread, rekeyed_eq_self hnames hkeyed, drafts, recomment_drafts]

namespace Outline

variable {o : Outline}

theorem Distinct.similar_reread_sorted {inferId : Bool} (h : o.Distinct)
    (hnames : ∀ t ∈ o.tables, (t.drafts.map ColumnDraft.name).Nodup)
    (hkeyed : ∀ t ∈ o.tables, ∀ c ∈ t.drafts, c.Keyed inferId) :
    (o.sorted.reread inferId).Similar o.withDefault := by
  have hsorted := h.similar_sorted
  have htables : o.sorted.tables.map (TableOutline.reread inferId) = o.sorted.tables := by
    refine (List.map_congr_left fun t ht => ?_).trans (List.map_id _)
    have ht := hsorted.tables.mem_iff.1 ht
    exact TableOutline.reread_eq_self (hnames t ht) (hkeyed t ht)
  constructor
  · exact (hsorted.schemas.filter _).cons defaultSchema
  · exact hsorted.types
  · rw [reread, htables]
    exact hsorted.tables

end Outline

/-! ## Models that are read back -/

/-- What it takes for a model to be read back from its script. -/
structure Model.Rereadable (inferId : Bool) (m : Model) : Prop where
  ids : (m.schemas.map Schema.id).Nodup
  housed : m.Housed
  legible : m.outline.Legible
  keyed : ∀ t ∈ m.outline.tables, ∀ c ∈ t.drafts, c.Keyed inferId

theorem rereadable_of_resolve {ids : Ids} (hids : ids.Distinct) {inferId : Bool} {d : Draft}
    (hd : d.Sound inferId) {m : Model} (h : d.resolve ids = .ok m) :
    m.Rereadable inferId ∧ m.Linked ∧ d.Declares m.outline := by
  obtain ⟨hdeclares, hlinked, hschemas⟩ := declares_of_resolve hids hd.toDistinct h
  refine ⟨⟨hschemas, hlinked.toHoused, hdeclares.legible hd, ?_⟩, hlinked, hdeclares⟩
  intro t ht c hc
  obtain ⟨u, hu, -, hdrafts, -⟩ := hdeclares.exists_draft hd ht
  rw [hdrafts] at hc
  exact (hd.columns u hu c hc).keyed

/-- Every model that is read from a script can be read back, and holds the default schema. -/
theorem rereadable_of_parse {ids : Ids} (hids : ids.Distinct) {options : Options} {script : String}
    {m : Model} (h : parse ids options script = .ok m) :
    m.Rereadable options.inferId ∧ m.Linked ∧ defaultSchema ∈ m.outline.schemas := by
  obtain ⟨d, hd, hm⟩ := bind_eq_ok_iff.1 h
  have hsound := Draft.ofStatements_sound hd
  obtain ⟨hre, hlinked, hdeclares⟩ := rereadable_of_resolve hids hsound hm
  refine ⟨hre, hlinked, ?_⟩
  rw [hdeclares.schemas]
  exact hsound.default

namespace Model.Rereadable

variable {inferId : Bool} {m m' : Model}

theorem generate_eq (h : m.Rereadable inferId) :
    Ddl.generate m = Ddl.scriptText m.outline.sorted.script := by
  have hsimilar := similar_declared h.ids h.legible.schemas h.housed
  have hdeclared := hsimilar.symm.legible h.legible
  rw [Ddl.generate, blocks_eq_script hdeclared, hsimilar.sorted_eq hdeclared.toDistinct]

theorem exists_parse (h : m.Rereadable inferId) {ids : Ids} (hids : ids.Distinct)
    (options : Options) :
    ∃ m', parse ids options (Ddl.generate m) = .ok m' ∧
      m'.outline = m.outline.sorted.reread options.inferId := by
  rw [h.generate_eq]
  exact h.legible.sorted.exists_parse hids options

/-- Models with similar outlines generate the same script. -/
theorem generate_congr (h : m.Rereadable inferId) (h' : m'.Rereadable inferId)
    (hsimilar : m'.outline.Similar m.outline) : Ddl.generate m' = Ddl.generate m := by
  rw [h.generate_eq, h'.generate_eq, hsimilar.sorted_eq h'.legible.toDistinct]

theorem nodup_names_outline (h : ∀ t ∈ m.tables, (t.columns.map Column.name).Nodup) :
    ∀ t ∈ m.outline.tables, (t.drafts.map ColumnDraft.name).Nodup := by
  intro t ht
  obtain ⟨u, hu, rfl⟩ := List.mem_map.1 ht
  have hnames := h u hu
  rw [TableOutline.drafts, Model.tableOutline, List.map_map, List.map_map]
  exact hnames

/-- A model without repeated column names is read back with all its structure. -/
theorem exists_parse_similar (h : m.Rereadable inferId)
    (hnames : ∀ t ∈ m.tables, (t.columns.map Column.name).Nodup) {ids : Ids} (hids : ids.Distinct)
    (options : Options) (hoptions : options.inferId = inferId) :
    ∃ m', parse ids options (Ddl.generate m) = .ok m' ∧ m'.Linked ∧
      m'.outline.Similar m.outline.withDefault := by
  obtain ⟨m', hm', houtline⟩ := h.exists_parse hids options
  obtain ⟨-, hlinked, -⟩ := rereadable_of_parse hids hm'
  refine ⟨m', hm', hlinked, ?_⟩
  rw [houtline, hoptions]
  exact h.legible.similar_reread_sorted (nodup_names_outline hnames) h.keyed

end Model.Rereadable

/-- A model that is read from a script, and has no table with repeated column names, is read back
from its own script with all its structure, strictly or not. So its script is a fixed point. -/
theorem parse_generate {ids ids' : Ids} (hids : ids.Distinct) (hids' : ids'.Distinct)
    {options : Options} {script : String} {m : Model} (h : parse ids options script = .ok m)
    (hnames : ∀ t ∈ m.tables, (t.columns.map Column.name).Nodup) :
    ∃ m', parse ids' { options with strict := true } (Ddl.generate m) = .ok m' ∧
      m.Linked ∧ m'.Linked ∧ m'.outline.Similar m.outline ∧ Ddl.generate m' = Ddl.generate m := by
  obtain ⟨hm, hlinked, hdefault⟩ := rereadable_of_parse hids h
  obtain ⟨m', hm', hlinked', hsimilar⟩ :=
    hm.exists_parse_similar hnames hids' { options with strict := true } rfl
  have hsame := hsimilar.trans (hm.legible.similar_withDefault hdefault)
  exact ⟨m', hm', hlinked, hlinked', hsame, hm.generate_congr (rereadable_of_parse hids' hm').1 hsame⟩

/-- A key and a default come back from the script of their table. -/
theorem parse_generate_order :
    ∃ m m', parse .positional {} "CREATE TABLE o (id int, n text DEFAULT ')' UNIQUE);" = .ok m ∧
      m.outline.tables.map TableOutline.drafts =
        [[⟨"id", "int", false, none, true, true⟩, ⟨"n", "text", true, some "')'", false, true⟩]] ∧
      parse .positional { strict := true } (Ddl.generate m) = .ok m' ∧
      m'.outline.Similar m.outline := by
  have hread : (parse .positional {} "CREATE TABLE o (id int, n text DEFAULT ')' UNIQUE);").toOption.map
      (fun m => (m.outline.tables.map TableOutline.drafts, m.tables.map fun t => t.columns.map Column.name)) =
      some ([[⟨"id", "int", false, none, true, true⟩, ⟨"n", "text", true, some "')'", false, true⟩]],
        [["id", "n"]]) := by
    decide +kernel
  cases hm : parse .positional {} "CREATE TABLE o (id int, n text DEFAULT ')' UNIQUE);" with
  | error e =>
    rw [hm] at hread
    cases hread
  | ok m =>
    rw [hm] at hread
    obtain ⟨hdrafts, hnames⟩ := Prod.mk.inj (Option.some.inj hread)
    have hnodup (t : Table) (ht : t ∈ m.tables) : (t.columns.map Column.name).Nodup := by
      have hmem : t.columns.map Column.name ∈ m.tables.map fun t => t.columns.map Column.name :=
        List.mem_map_of_mem ht
      rw [hnames, List.mem_singleton] at hmem
      rw [hmem]
      decide
    obtain ⟨m', hm', -, -, hsimilar, -⟩ :=
      parse_generate Ids.distinct_positional Ids.distinct_positional hm hnodup
    exact ⟨m, m', rfl, hdrafts, hm', hsimilar⟩

end SchemaDdl
