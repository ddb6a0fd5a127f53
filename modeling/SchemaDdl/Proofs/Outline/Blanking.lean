import SchemaDdl.Proofs.Outline.Resolution
import SchemaDdl.Proofs.Outline.Statements
import SchemaDdl.Proofs.Reading.BlankedStatements

/-!
# Comments in scripts

A comment in a script is white space. A script and its blanked copy declare the same, up to what the
types and the defaults of columns keep of the comments inside them.
-/

namespace SchemaDdl

open Script

/-! ## Drafts -/

namespace Script

/-- The same declarations, with comments blanked in the types and the defaults of columns. -/
structure Draft.Blanked (d d' : Draft) : Prop where
  schemas : d'.schemas = d.schemas
  types : d'.types = d.types
  tables : List.Forall₂ TableDraft.Blanked d.tables d'.tables
  comments : d'.comments = d.comments

namespace Draft.Blanked

variable {d d' : Draft}

theorem withSchema (h : d.Blanked d') (name : String) :
    (d.withSchema name).Blanked (d'.withSchema name) := by
  rw [Draft.withSchema, Draft.withSchema, h.schemas]
  split
  · exact h
  · exact { h with schemas := rfl }

theorem add (h : d.Blanked d') {e e' : Entry} (he : e.Blanked e') : (d.add e).Blanked (d'.add e') := by
  cases he with
  | @table t t' ht =>
    have hschema := h.withSchema t.key.schema
    rw [Draft.add, Draft.add, ht.key]
    exact { hschema with tables := List.rel_append hschema.tables (.cons ht .nil) }
  | same e hnone =>
    cases e with
    | schema name => exact h.withSchema name
    | type t =>
      have hschema := h.withSchema t.key.schema
      exact { hschema with types := congrArg (· ++ [t]) hschema.types }
    | table t => cases hnone
    | comment c => exact { h with comments := congrArg (· ++ [c]) h.comments }

theorem foldl_add (h : d.Blanked d') {es es' : List Entry} (hes : List.Forall₂ Entry.Blanked es es') :
    (es.foldl Draft.add d).Blanked (es'.foldl Draft.add d') := by
  induction hes generalizing d d' with
  | nil => exact h
  | cons he _ ih => exact ih (h.add he)

theorem empty : Draft.Blanked {} {} :=
  ⟨rfl, rfl, .nil, rfl⟩

theorem map_key (h : d.Blanked d') : d'.tables.map TableDraft.key = d.tables.map TableDraft.key :=
  map_eq_of_forall₂ h.tables fun _ _ ht => ht.key

end Draft.Blanked

/-! ## Scripts -/

section Scripts

variable {options : Options} {script script' : List Char}

/-- No item of a table body in the script is made up of comments only. -/
def NoBareItems (script : List Char) : Prop :=
  ∀ s ∈ statements script, NoBareItem s.text

theorem readAlone_of_tokens {text : List Char} {ts : List Token} (h : tokens text = .ok ts)
    (hts : ∀ t ∈ ts, t = .semicolon) : readAlone options text = .ok none := by
  obtain ⟨ls, hls, rfl⟩ := exists_of_map_eq_ok h
  have hall : (ls.all fun l => l.token == .semicolon) = true := by
    rw [List.all_eq_true]
    intro l hl
    exact beq_iff_eq.2 (hts l.token (List.mem_map_of_mem hl))
  rw [readAlone, readStatement, hls]
  simp only [mapError_ok, bind, Except.bind, hall]
  rfl

theorem readAlone_of_isBare {text : List Char} (h : isBare text = true) :
    readAlone options text = .ok none := by
  simp only [isBare, Bool.or_eq_true, beq_iff_eq] at h
  rcases h with rfl | rfl
  · exact readAlone_of_tokens (FinalGap.closed .nil).tokens_eq (by simp)
  · exact readAlone_of_tokens tokens_semicolon (by simp)

/-- What is read as nothing can be left out. -/
theorem map_reduceOption_mapM_filter {α β ε : Type} {f : α → Except ε (Option β)} {p : α → Bool}
    (xs : List α) (h : ∀ x ∈ xs, p x = false → f x = .ok none) :
    ((xs.filter p).mapM f).map List.reduceOption = (xs.mapM f).map List.reduceOption := by
  induction xs with
  | nil => rfl
  | cons x xs ih =>
    obtain ⟨hx, hxs⟩ := List.forall_mem_cons.1 h
    have ih := ih hxs
    rw [List.filter_cons]
    cases hp : p x with
    | false =>
      rw [if_neg Bool.false_ne_true, ih, List.mapM_cons, hx hp]
      cases xs.mapM f with
      | error e => rfl
      | ok ys => exact congrArg Except.ok (List.reduceOption_cons_of_none ys).symm
    | true =>
      rw [if_pos rfl, List.mapM_cons, List.mapM_cons]
      cases f x with
      | error e => rfl
      | ok y =>
        have hcons (m : Except ε (List (Option β))) :
            (m >>= fun ys => pure (y :: ys)).map List.reduceOption =
              (m.map List.reduceOption).map (y.toList ++ ·) := by
          cases m with
          | error e => rfl
          | ok ys => cases y <;> rfl
        exact (hcons _).trans ((congrArg _ ih).trans (hcons _).symm)

/-- A script makes up the draft of its stretches if all of them are read and no table is defined
twice. -/
theorem ofStatements_statements_eq_ok_iff {d : Draft} :
    Draft.ofStatements options (statements script) = .ok d ↔ ∃ es,
      ((stretches script).map Text.trim).mapM (readAlone options) = .ok es ∧
        ((es.reduceOption.filterMap Entry.table?).map TableDraft.key).Nodup ∧
          d = es.reduceOption.foldl Draft.add {} := by
  -- the statements leave out the bare stretches, which are read as nothing
  have hskip := map_reduceOption_mapM_filter (f := readAlone options) (p := fun text => !isBare text)
    ((stretches script).map Text.trim) fun text _ htext => readAlone_of_isBare (by simpa using htext)
  rw [Draft.ofStatements_eq_ok_iff, map_text_statements]
  constructor
  · rintro ⟨es, hes, hkeys, rfl⟩
    rw [hes] at hskip
    obtain ⟨es', hes', heq⟩ := exists_of_map_eq_ok hskip.symm
    exact ⟨es', hes', heq ▸ hkeys, by rw [heq]⟩
  · rintro ⟨es, hes, hkeys, rfl⟩
    rw [hes] at hskip
    obtain ⟨es', hes', heq⟩ := exists_of_map_eq_ok hskip
    exact ⟨es', hes', heq ▸ hkeys, by rw [heq]⟩

/-- In a script without bare items no stretch holds one. -/
theorem NoBareItems.stretch (h : NoBareItems script) {s : List Char} (hs : s ∈ stretches script) :
    NoBareItem (Text.trim s) := by
  cases hbare : isBare (Text.trim s) with
  | true =>
    have hread : readAlone {} (Text.trim s) = .ok none := readAlone_of_isBare hbare
    exact noBareItem_of_readAlone hread
  | false =>
    have hmem : Text.trim s ∈ (statements script).map Statement.text := by
      rw [map_text_statements]
      exact List.mem_filter.2 ⟨List.mem_map_of_mem hs, by rw [hbare]; rfl⟩
    obtain ⟨statement, hstatement, htext⟩ := List.mem_map.1 hmem
    rw [← htext]
    exact h statement hstatement

theorem both_stretches (h : Blanked script script') (hitems : NoBareItems script)
    (options : Options) :
    Both (List.Forall₂ (Option.Rel Entry.Blanked))
      (((stretches script).map Text.trim).mapM (readAlone options))
      (((stretches script').map Text.trim).mapM (readAlone options)) := by
  apply Both.mapM
  rw [List.forall₂_map_left_iff, List.forall₂_map_right_iff]
  have hmem : ∀ s ∈ stretches script, NoBareItem (Text.trim s) := fun s hs => hitems.stretch hs
  have hstretches := h.stretches
  generalize stretches script = ss at hmem hstretches ⊢
  generalize stretches script' = ss' at hstretches ⊢
  induction hstretches with
  | nil => exact .nil
  | cons hs _ ih =>
    obtain ⟨hitem, hmore⟩ := List.forall_mem_cons.1 hmem
    exact .cons (both_readStatement hs.lex_trim hitem _) (ih hmore)

theorem both_ofStatements (h : Blanked script script') (hitems : NoBareItems script) :
    Both Draft.Blanked (Draft.ofStatements options (statements script))
      (Draft.ofStatements options (statements script')) := by
  have hread := both_stretches h hitems options
  have hentries {es es' : List (Option Entry)} (hes : List.Forall₂ (Option.Rel Entry.Blanked) es es') :
      Draft.Blanked (es.reduceOption.foldl Draft.add {}) (es'.reduceOption.foldl Draft.add {}) :=
    Draft.Blanked.empty.foldl_add (List.rel_filterMap (fun _ _ he => he) hes)
  have hkeys {es es' : List (Option Entry)} (hes : List.Forall₂ (Option.Rel Entry.Blanked) es es') :
      (es'.reduceOption.filterMap Entry.table?).map TableDraft.key =
        (es.reduceOption.filterMap Entry.table?).map TableDraft.key := by
    have hmap := (hentries hes).map_key
    rw [Draft.tables_foldl_add, Draft.tables_foldl_add] at hmap
    exact hmap
  -- the tables have the same keys, so one is defined twice in both scripts or in neither
  refine .intro (fun d hd => ?_) fun d' hd' => ?_
  · obtain ⟨es, hes, hnodup, rfl⟩ := ofStatements_statements_eq_ok_iff.1 hd
    obtain ⟨es', hes', hrel⟩ := hread.exists_ok hes
    refine ⟨_, ofStatements_statements_eq_ok_iff.2 ⟨es', hes', ?_, rfl⟩, hentries hrel⟩
    rw [hkeys hrel]
    exact hnodup
  · obtain ⟨es', hes', hnodup, rfl⟩ := ofStatements_statements_eq_ok_iff.1 hd'
    obtain ⟨es, hes, hrel⟩ := hread.exists_ok' hes'
    refine ⟨_, ofStatements_statements_eq_ok_iff.2 ⟨es, hes, ?_, rfl⟩⟩
    rw [← hkeys hrel]
    exact hnodup

theorem noBareItems_of_ofStatements {d : Draft}
    (h : Draft.ofStatements options (statements script) = .ok d) : NoBareItems script := by
  obtain ⟨es, hes, -⟩ := Draft.ofStatements_eq_ok_iff.1 h
  intro s hs
  obtain ⟨e, -, he⟩ := exists_of_mapM_of_mem hes (List.mem_map_of_mem hs)
  exact noBareItem_of_readAlone he

end Scripts

end Script

/-! ## Outlines -/

/-- The same column, with comments blanked in its type and in its default. -/
structure ColumnOutline.Blanked (c c' : ColumnOutline) : Prop where
  draft : c.toColumnDraft.Blanked c'.toColumnDraft
  comment : c'.comment = c.comment

/-- The same table, with comments blanked in the types and the defaults of its columns. -/
structure TableOutline.Blanked (t t' : TableOutline) : Prop where
  key : t'.key = t.key
  comment : t'.comment = t.comment
  columns : List.Forall₂ ColumnOutline.Blanked t.columns t'.columns
  foreignKeys : t'.foreignKeys = t.foreignKeys

/-- Equal up to comments kept inside the type and the default of a column. -/
structure Outline.Blanked (o o' : Outline) : Prop where
  schemas : o'.schemas = o.schemas
  types : o'.types = o.types
  tables : List.Forall₂ TableOutline.Blanked o.tables o'.tables

theorem Script.TableDraft.Blanked.outline {t t' : TableDraft} (h : t.Blanked t') :
    t.outline.Blanked t'.outline := by
  refine ⟨h.key, rfl, ?_, ?_⟩
  · exact List.rel_map (fun _ _ hc => ⟨hc, rfl⟩) h.columns
  · rw [TableDraft.outline, TableDraft.outline, h.key, h.foreignKeys]

section Describe

variable {ts ts' : List TableOutline}

/-- A comment on a table or a column is written alike. -/
theorem rel_describe? (h : List.Forall₂ TableOutline.Blanked ts ts') (comment : CommentDraft) :
    Option.Rel (List.Forall₂ TableOutline.Blanked) (describe? ts comment) (describe? ts' comment) := by
  rw [describe?, describe?]
  split
  · refine rel_updateFirst? (fun t t' ht => ?_) (fun t t' ht => ?_) h
    · rw [ht.key]
    · exact { ht with comment := rfl }
  · rename_i key name _
    have hfind := rel_find? (p := fun t => t.key == key) (q := fun t => t.key == key)
      (fun t t' ht => by rw [ht.key]) h
    have hcolumns := rel_bind hfind fun t t' ht =>
      rel_updateFirst? (p := fun c => c.name == name) (q := fun c => c.name == name)
        (fun c c' hc => by rw [hc.draft.name]) (f := ColumnOutline.describe comment.text)
        (g := ColumnOutline.describe comment.text) (fun c c' hc => ⟨hc.draft, rfl⟩) ht.columns
    refine rel_map hcolumns fun columns columns' hcolumns => ?_
    refine List.rel_map (fun t t' ht => ?_) h
    rw [ht.key]
    split
    · exact ⟨rfl, ht.comment, hcolumns, ht.foreignKeys⟩
    · exact ht

end Describe

namespace Script.Draft

variable {d d' : Draft}

/-- What foreign keys look at in a table. -/
def signatures (d : Draft) : List (QualifiedName × List String × List ForeignKeyDraft) :=
  d.tables.map fun t => (t.key, t.columns.map ColumnDraft.name, t.foreignKeys)

theorem Blanked.signatures (h : d.Blanked d') : d'.signatures = d.signatures := by
  refine map_eq_of_forall₂ h.tables fun t t' ht => ?_
  rw [ht.key, ht.foreignKeys, map_eq_of_forall₂ ht.columns fun _ _ hc => hc.name]

/-- Foreign keys have their ends if they have them in a draft with the same signatures. -/
theorem hasEnds_of_signatures (hsignatures : d'.signatures = d.signatures)
    (h : ∀ t ∈ d.tables, ∀ fk ∈ t.foreignKeys, d.HasEnds t fk) {t' : TableDraft}
    (ht' : t' ∈ d'.tables) {fk : ForeignKeyDraft} (hfk : fk ∈ t'.foreignKeys) : d'.HasEnds t' fk := by
  have hmem : (t'.key, t'.columns.map ColumnDraft.name, t'.foreignKeys) ∈ d.signatures :=
    hsignatures ▸ List.mem_map.2 ⟨t', ht', rfl⟩
  obtain ⟨t, ht, heq⟩ := List.mem_map.1 hmem
  simp only [Prod.mk.injEq] at heq
  obtain ⟨-, hnames, hfks⟩ := heq
  obtain ⟨hsource, u, hu, hkey, htarget⟩ := h t ht fk (hfks ▸ hfk)
  have hmem' : (u.key, u.columns.map ColumnDraft.name, u.foreignKeys) ∈ d'.signatures :=
    hsignatures ▸ List.mem_map.2 ⟨u, hu, rfl⟩
  obtain ⟨u', hu', heq'⟩ := List.mem_map.1 hmem'
  simp only [Prod.mk.injEq] at heq'
  obtain ⟨hkey', hnames', -⟩ := heq'
  refine ⟨hnames ▸ hsource, u', hu', hkey'.trans hkey, ?_⟩
  rw [hnames']
  exact htarget

theorem Blanked.rel_tables (h : d.Blanked d') :
    Option.Rel (List.Forall₂ TableOutline.Blanked)
      (d.comments.foldlM describe? (d.tables.map TableDraft.outline))
      (d'.comments.foldlM describe? (d'.tables.map TableDraft.outline)) := by
  rw [h.comments]
  exact rel_foldlM (fun _ _ comment hts => rel_describe? hts comment)
    (List.rel_map (fun _ _ ht => ht.outline) h.tables) d.comments

theorem Blanked.exists_declares (h : d.Blanked d') {o : Outline} (ho : d.Declares o) :
    ∃ o', d'.Declares o' ∧ o.Blanked o' := by
  have htables := h.rel_tables
  rw [ho.tables] at htables
  obtain ⟨hnone, -⟩ | ⟨ts, ts', hts, hts', hrel⟩ := cases_of_rel htables
  · cases hnone
  · cases hts
    refine ⟨⟨d'.schemas, d'.types, ts'⟩, ⟨rfl, rfl, ?_, hts'⟩, ⟨?_, ?_, hrel⟩⟩
    · exact fun t ht fk hfk => hasEnds_of_signatures h.signatures ho.ends ht hfk
    · rw [ho.schemas]
      exact h.schemas
    · rw [ho.types]
      exact h.types

theorem Blanked.exists_declares' (h : d.Blanked d') {o' : Outline} (ho : d'.Declares o') :
    ∃ o, d.Declares o := by
  have htables := h.rel_tables
  rw [ho.tables] at htables
  obtain ⟨-, hnone⟩ | ⟨ts, ts', hts, -⟩ := cases_of_rel htables
  · cases hnone
  · refine ⟨⟨d.schemas, d.types, ts⟩, rfl, rfl, ?_, hts⟩
    exact fun t ht fk hfk => hasEnds_of_signatures h.signatures.symm ho.ends ht hfk

section Resolve

variable {ids ids' : Ids} (hids : ids.Distinct) (hids' : ids'.Distinct)

include hids hids'

theorem Blanked.both_resolve (h : d.Blanked d') (hd : d.Distinct) (hd' : d'.Distinct) :
    Both (fun m m' : Model => m.Linked ∧ m'.Linked ∧ m.outline.Blanked m'.outline) (d.resolve ids)
      (d'.resolve ids') := by
  refine .intro (fun m hm => ?_) fun m' hm' => ?_
  · obtain ⟨hdeclares, hlinked, -⟩ := declares_of_resolve hids hd hm
    obtain ⟨o', ho', hblanked⟩ := h.exists_declares hdeclares
    obtain ⟨m', hm', rfl⟩ := exists_resolve_of_declares hids' hd' ho'
    exact ⟨m', hm', hlinked, (declares_of_resolve hids' hd' hm').2.1, hblanked⟩
  · obtain ⟨o, ho⟩ := h.exists_declares' (declares_of_resolve hids' hd' hm').1
    obtain ⟨m, hm, -⟩ := exists_resolve_of_declares hids hd ho
    exact ⟨m, hm⟩

end Resolve

end Script.Draft

/-- Comments in a script are white space, except where they make up an item of a table body on their
own. Blanking comments keeps what a script is read as, up to ids and to comments inside the type or
the default of a column. It makes a script readable only by taking away such bare items, which are
never read. -/
theorem parse_blanked {ids ids' : Ids} (hids : ids.Distinct) (hids' : ids'.Distinct)
    (options : Options) {script script' : String} (h : Blanked script.toList script'.toList) :
    (∀ m, parse ids options script = .ok m → NoBareItems script.toList ∧
      ∃ m', parse ids' options script' = .ok m' ∧ m.Linked ∧ m'.Linked ∧
        m.outline.Blanked m'.outline) ∧
    (NoBareItems script.toList → ∀ m', parse ids' options script' = .ok m' →
      ∃ m, parse ids options script = .ok m) := by
  have hboth (hitems : NoBareItems script.toList) :
      Both (fun m m' : Model => m.Linked ∧ m'.Linked ∧ m.outline.Blanked m'.outline)
        (parse ids options script) (parse ids' options script') := by
    refine (both_ofStatements h hitems).bind_of_ok fun d d' hd hd' hblanked => ?_
    exact hblanked.both_resolve hids hids' (Draft.ofStatements_sound hd).toDistinct
      (Draft.ofStatements_sound hd').toDistinct
  constructor
  · intro m hm
    obtain ⟨d, hd, -⟩ := bind_eq_ok_iff.1 hm
    have hitems := noBareItems_of_ofStatements hd
    obtain ⟨m', hm', hrel⟩ := (hboth hitems).exists_ok hm
    exact ⟨hitems, m', hm', hrel⟩
  · intro hitems m' hm'
    obtain ⟨m, hm, -⟩ := (hboth hitems).exists_ok' hm'
    exact ⟨m, hm⟩

/-- A default keeps the comment inside it, and what looks like a comment in a literal is none. -/
theorem parse_blanked_default :
    ∃ m m', parse .positional {} "CREATE TABLE t (a text DEFAULT '--' /* c */ || b); -- end" = .ok m ∧
      parse .positional {} "CREATE TABLE t (a text DEFAULT '--'   || b);  " = .ok m' ∧
      NoBareItems "CREATE TABLE t (a text DEFAULT '--' /* c */ || b); -- end".toList ∧
      m.outline.Blanked m'.outline := by
  have hend : Blanked "-- end".toList [' '] := .last (by decide +kernel)
  have hplain : " || b); ".toList.all (fun c => !openers.contains c) = true := by decide +kernel
  have hback : Blanked " || b); -- end".toList " || b);  ".toList :=
    (blanked_plain_iff (notMem_openers_of_all hplain)).2 ⟨_, rfl, hend⟩
  have hcomment : Comment "/* c */".toList [' '] := .block rfl
  have hbehind : Blanked " /* c */ || b); -- end".toList "   || b);  ".toList :=
    .char (not_opensRegion_of_isBlank (by decide) _) (.blank hcomment hback)
  have hbody : quotedText '\'' "--'".toList = some ⟨"--".toList, "--'".toList, []⟩ := rfl
  have hliteral : Blanked "'--' /* c */ || b); -- end".toList "'--'   || b);  ".toList :=
    .quoted (.inr rfl) hbody (by decide +kernel) hbehind
  have hfront : "CREATE TABLE t (a text DEFAULT ".toList.all (fun c => !openers.contains c) = true := by
    decide +kernel
  have hscript : Blanked "CREATE TABLE t (a text DEFAULT '--' /* c */ || b); -- end".toList
      "CREATE TABLE t (a text DEFAULT '--'   || b);  ".toList :=
    (blanked_plain_iff (notMem_openers_of_all hfront)).2 ⟨_, rfl, hliteral⟩
  have hread : (parse .positional {}
      "CREATE TABLE t (a text DEFAULT '--' /* c */ || b); -- end").toOption.isSome := by
    decide +kernel
  obtain ⟨m, hm⟩ := Option.isSome_iff_exists.1 hread
  have hm := toOption_eq_some_iff.1 hm
  obtain ⟨hitems, m', hm', -, -, houtline⟩ := (parse_blanked Ids.distinct_positional
    Ids.distinct_positional {} hscript).1 m hm
  exact ⟨m, m', hm, hm', hitems, houtline⟩

/-- A body that ends in a comment behind a comma cannot be read, and can be read once the comment is
blanked. -/
theorem parse_bare_item :
    ∃ script script' : String, Blanked script.toList script'.toList ∧
      (∀ m, parse .positional {} script ≠ .ok m) ∧ ∃ m, parse .positional {} script' = .ok m := by
  refine ⟨"CREATE TABLE t (a int, /* c */);", "CREATE TABLE t (a int,  );", ?_, fun m hm => ?_, ?_⟩
  · have hfront : "CREATE TABLE t (a int, ".toList.all (fun c => !openers.contains c) = true := by
      decide +kernel
    have hcomment : Comment "/* c */".toList [' '] := .block rfl
    exact (blanked_plain_iff (notMem_openers_of_all hfront)).2
      ⟨_, rfl, .blank hcomment (.same [')', ';'])⟩
  · have hfails : (parse .positional {} "CREATE TABLE t (a int, /* c */);").toOption = none := by
      decide +kernel
    rw [hm] at hfails
    cases hfails
  · have hread : (parse .positional {} "CREATE TABLE t (a int,  );").toOption.isSome := by
      decide +kernel
    obtain ⟨m, hm⟩ := Option.isSome_iff_exists.1 hread
    exact ⟨m, toOption_eq_some_iff.1 hm⟩

end SchemaDdl
