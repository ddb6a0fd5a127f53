import SchemaDdl.Proofs.Outline.Similar

/-!
# The order of declarations

References and comments are resolved when all tables are known, so the statements of a script can be
moved around. So can the key lists of a table. What keeps its order are types, comments, and the
columns and foreign keys of one table.
-/

namespace SchemaDdl

open Script

/-! ## Entries in another order -/

/-- The schema that an entry mentions. -/
def Script.Entry.schema? : Entry → Option String
  | .schema name => some name
  | .type t => some t.key.schema
  | .table t => some t.key.schema
  | .comment _ => none

namespace Script.Draft

theorem mem_withSchema {d : Draft} {name other : String} :
    other ∈ (d.withSchema name).schemas ↔ other ∈ d.schemas ∨ other = name := by
  rw [withSchema]
  split
  · rename_i h
    rw [List.contains_iff_mem] at h
    exact ⟨.inl, fun hother => hother.elim id fun heq => heq ▸ h⟩
  · rw [List.mem_append, List.mem_singleton]

theorem mem_schemas_add {d : Draft} {e : Entry} {name : String} :
    name ∈ (d.add e).schemas ↔ name ∈ d.schemas ∨ e.schema? = some name := by
  cases e with
  | comment c => simp [add, Entry.schema?]
  | _ => simp [add, Entry.schema?, mem_withSchema, eq_comm]

theorem mem_schemas_foldl_add {d : Draft} {es : List Entry} {name : String} :
    name ∈ (es.foldl add d).schemas ↔ name ∈ d.schemas ∨ ∃ e ∈ es, e.schema? = some name := by
  induction es generalizing d with
  | nil => simp
  | cons e es ih => simp [ih, mem_schemas_add, or_assoc]

/-- Entries make up similar drafts in any order that types and comments keep. -/
theorem similar_foldl_add {es es' : List Entry} (hperm : es.Perm es')
    (htypes : es.filterMap Entry.type? = es'.filterMap Entry.type?)
    (hcomments : es.filterMap Entry.comment? = es'.filterMap Entry.comment?)
    (hschemas : (es.foldl add {}).schemas.Nodup) (hschemas' : (es'.foldl add {}).schemas.Nodup) :
    (es.foldl add {}).Similar (es'.foldl add {}) := by
  constructor
  · refine (List.perm_ext_iff_of_nodup hschemas hschemas').2 fun name => ?_
    rw [mem_schemas_foldl_add, mem_schemas_foldl_add]
    simp only [hperm.mem_iff]
  · rw [types_foldl_add, types_foldl_add, htypes]
  · rw [tables_foldl_add, tables_foldl_add]
    exact (hperm.filterMap Entry.table?).append_left _
  · rw [comments_foldl_add, comments_foldl_add, hcomments]

end Script.Draft

/-! ## Statements in another order -/

/-- Scripts that declare the same in another order, by the texts of their statements: either whole
statements are moved, or the items of one table. -/
inductive Reordered : List (List Char) → List (List Char) → Prop
  | statements {texts texts' : List (List Char)}
    (h : Rearranged [isCreateType, isComment] texts texts') : Reordered texts texts'
  | items {front back : List (List Char)} {text text' : List Char} {x : TableText} {body : List Char}
    (h : tableText? text = some x) (h' : tableText? text' = some { x with body })
    (hbody : Rearranged [isColumnItem, isForeignKeyItem] (listItems x.body) (listItems body)) :
    Reordered (front ++ text :: back) (front ++ text' :: back)

namespace Reordered

theorem symm {texts texts' : List (List Char)} (h : Reordered texts texts') :
    Reordered texts' texts := by
  cases h with
  | statements h => exact .statements h.symm
  | items h h' hbody => exact .items h' h hbody.symm

variable {options : Options}

/-- Each statement reads as before, or as the one that stands in its place. -/
theorem exists_mapM {texts texts' : List (List Char)} (h : Reordered texts texts')
    {es : List (Option Entry)} (hes : texts.mapM (readAlone options) = .ok es) :
    ∃ es', texts'.mapM (readAlone options) = .ok es' ∧ es.Perm es' ∧
      es.filterMap (·.bind Entry.type?) = es'.filterMap (·.bind Entry.type?) ∧
        es.filterMap (·.bind Entry.comment?) = es'.filterMap (·.bind Entry.comment?) := by
  cases h with
  | statements h =>
    obtain ⟨es', hes', hperm⟩ := exists_mapM_of_perm h.perm hes
    refine ⟨es', hes', hperm, ?_, ?_⟩
    · refine h.filterMap_eq List.mem_cons_self (fun text e he htype => ?_) hes hes'
      cases e with
      | none => cases htype
      | some e => exact (kind_of_readStatement he).1 htype
    · refine h.filterMap_eq (List.mem_cons_of_mem _ List.mem_cons_self) (fun text e he hcomment => ?_)
        hes hes'
      cases e with
      | none => cases hcomment
      | some e => exact (kind_of_readStatement he).2 hcomment
  | @items front back text text' x body h h' hbody =>
    obtain ⟨e, -, he⟩ := exists_of_mapM_of_mem hes (List.mem_append_right front List.mem_cons_self)
    have he' := readAlone_of_rearranged h h' hbody he
    refine ⟨es, ?_, .rfl, rfl, rfl⟩
    rw [mapM_eq_ok_iff, List.map_append, List.map_cons] at hes ⊢
    rw [← hes, he, he']

/-- If a script is read then so is the one in the other order, with a similar draft. -/
theorem exists_ofStatements {ss ss' : List Statement}
    (h : Reordered (ss.map Statement.text) (ss'.map Statement.text)) {d : Draft}
    (hd : Draft.ofStatements options ss = .ok d) :
    ∃ d', Draft.ofStatements options ss' = .ok d' ∧ d.Similar d' := by
  obtain ⟨es, hes, hkeys, rfl⟩ := Draft.ofStatements_eq_ok_iff.1 hd
  obtain ⟨es', hes', hperm, htypes, hcomments⟩ := h.exists_mapM hes
  have hentries : es.reduceOption.Perm es'.reduceOption := hperm.filterMap id
  have hpicked {α : Type} (g : Entry → Option α) (es : List (Option Entry)) :
      es.reduceOption.filterMap g = es.filterMap (·.bind g) :=
    List.filterMap_filterMap
  have hkeys' : ((es'.reduceOption.filterMap Entry.table?).map TableDraft.key).Nodup :=
    ((hentries.filterMap Entry.table?).map TableDraft.key).nodup_iff.1 hkeys
  have hd' := Draft.ofStatements_eq_ok_iff.2 ⟨es', hes', hkeys', rfl⟩
  refine ⟨_, hd', Draft.similar_foldl_add hentries ?_ ?_ ?_ ?_⟩
  · rw [hpicked, hpicked, htypes]
  · rw [hpicked, hpicked, hcomments]
  · exact (Draft.ofStatements_sound hd).schemas
  · exact (Draft.ofStatements_sound hd').schemas

end Reordered

/-- The order of declarations does not matter: of scripts that declare the same in another order both
are read or neither, and if they are then the models generate the same script. -/
theorem generate_parse_of_reordered {ids ids' : Ids} (hids : ids.Distinct) (hids' : ids'.Distinct)
    (options : Options) {script script' : String}
    (h : Reordered ((statements script.toList).map Statement.text)
      ((statements script'.toList).map Statement.text)) :
    (parse ids options script).toOption.map Ddl.generate =
      (parse ids' options script').toOption.map Ddl.generate := by
  rw [parse, parse]
  cases hd : Draft.ofStatements options (statements script.toList) with
  | ok d =>
    obtain ⟨d', hd', hsimilar⟩ := h.exists_ofStatements hd
    rw [hd']
    exact hsimilar.map_generate hids hids' (Draft.ofStatements_sound hd) (Draft.ofStatements_sound hd')
  | error e =>
    cases hd' : Draft.ofStatements options (statements script'.toList) with
    | error e' => rfl
    | ok d' =>
      obtain ⟨d, hok, -⟩ := h.symm.exists_ofStatements hd'
      rw [hd] at hok
      cases hok

/-- A comment can stand before its table, and a primary key before its column. -/
theorem generate_parse_of_reordered_forward :
    (∃ sql, (parse .positional {} "COMMENT ON TABLE t IS 'x';CREATE TABLE t (a int);").toOption.map
        Ddl.generate = some sql ∧
      (parse .positional {} "CREATE TABLE t (a int);COMMENT ON TABLE t IS 'x';").toOption.map
        Ddl.generate = some sql) ∧
    ∃ sql, (parse .positional {} "CREATE TABLE t (PRIMARY KEY (b), a int, b int)").toOption.map
        Ddl.generate = some sql ∧
      (parse .positional {} "CREATE TABLE t (a int, PRIMARY KEY (b), b int)").toOption.map
        Ddl.generate = some sql := by
  have hstatements : Reordered
      ((statements "COMMENT ON TABLE t IS 'x';CREATE TABLE t (a int);".toList).map Statement.text)
      ((statements "CREATE TABLE t (a int);COMMENT ON TABLE t IS 'x';".toList).map Statement.text) := by
    refine .statements ⟨by decide +kernel, ?_⟩
    exact List.forall_mem_cons.2 ⟨by decide +kernel, List.forall_mem_singleton.2 (by decide +kernel)⟩
  have hitems : Reordered
      ((statements "CREATE TABLE t (PRIMARY KEY (b), a int, b int)".toList).map Statement.text)
      ((statements "CREATE TABLE t (a int, PRIMARY KEY (b), b int)".toList).map Statement.text) := by
    have hfront : (statements "CREATE TABLE t (PRIMARY KEY (b), a int, b int)".toList).map Statement.text =
        [] ++ "CREATE TABLE t (PRIMARY KEY (b), a int, b int)".toList :: [] := by decide +kernel
    have hmiddle : (statements "CREATE TABLE t (a int, PRIMARY KEY (b), b int)".toList).map Statement.text =
        [] ++ "CREATE TABLE t (a int, PRIMARY KEY (b), b int)".toList :: [] := by decide +kernel
    rw [hfront, hmiddle]
    refine @Reordered.items [] [] _ _
      ⟨"CREATE TABLE t (".toList, "PRIMARY KEY (b), a int, b int".toList, [')']⟩
      "a int, PRIMARY KEY (b), b int".toList (by decide +kernel) (by decide +kernel)
      ⟨by decide +kernel, ?_⟩
    exact List.forall_mem_cons.2 ⟨by decide +kernel, List.forall_mem_singleton.2 (by decide +kernel)⟩
  have hsame := generate_parse_of_reordered Ids.distinct_positional Ids.distinct_positional {} hstatements
  have hsame' := generate_parse_of_reordered Ids.distinct_positional Ids.distinct_positional {} hitems
  have hread : (parse .positional {} "CREATE TABLE t (a int);COMMENT ON TABLE t IS 'x';").toOption.isSome := by
    decide +kernel
  have hread' : (parse .positional {} "CREATE TABLE t (a int, PRIMARY KEY (b), b int)").toOption.isSome := by
    decide +kernel
  rw [hsame, hsame']
  obtain ⟨m, hm⟩ := Option.isSome_iff_exists.1 hread
  obtain ⟨m', hm'⟩ := Option.isSome_iff_exists.1 hread'
  rw [hm, hm']
  exact ⟨⟨_, rfl, rfl⟩, _, rfl, rfl⟩

end SchemaDdl
