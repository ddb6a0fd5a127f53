import SchemaDdl.Proofs.Outline.Comments
import SchemaDdl.Proofs.Outline.Entries
import SchemaDdl.Proofs.Reading.Clauses
import SchemaDdl.Proofs.Splitting.Agreement
import SchemaDdl.Script.Reading

/-!
# What statements are read as

Whatever statement is read, the columns of the table that it declares are sound, the type that it
declares has values and the comment that it writes is not empty.
-/

namespace SchemaDdl.Script

/-! ## Captures take from the front -/

theorem takeKeywords_suffix {ks : List String} {ls rest : List Lexeme}
    (h : takeKeywords ks ls = some rest) : rest <:+ ls := by
  induction ks generalizing ls with
  | nil =>
    cases h
    exact List.suffix_rfl
  | cons k ks ih =>
    cases ls with
    | nil => cases h
    | cons l ls =>
      rw [takeKeywords] at h
      split at h
      · exact (ih h).trans (List.suffix_cons l ls)
      · cases h

theorem skipKeywords_suffix (ks : List String) (ls : List Lexeme) : skipKeywords ks ls <:+ ls := by
  rw [skipKeywords]
  cases h : takeKeywords ks ls with
  | none => exact List.suffix_rfl
  | some rest => exact takeKeywords_suffix h

theorem takeToken_suffix {t : Token} {ls rest : List Lexeme} (h : takeToken t ls = some rest) :
    rest <:+ ls := by
  cases ls with
  | nil => cases h
  | cons l ls =>
    rw [takeToken] at h
    split at h
    · cases h
      exact List.suffix_cons l _
    · cases h

theorem name_suffix {what n : String} {ls rest : List Lexeme} (h : name what ls = .ok (n, rest)) :
    rest <:+ ls := by
  cases ls with
  | nil => cases h
  | cons l ls =>
    rw [name] at h
    split at h
    · cases h
      exact List.suffix_cons l _
    · cases h

theorem moreNames_suffix {separator : Token} {what : String} {ls rest : List Lexeme}
    {ns : List String} (h : moreNames separator what ls = .ok (ns, rest)) : rest <:+ ls := by
  fun_induction moreNames separator what ls generalizing ns with
  | case1 =>
    cases h
    exact List.suffix_rfl
  | case2 => cases h
  | case3 =>
    cases h
    exact List.suffix_rfl
  | case4 l m ls hl n hn ih =>
    obtain ⟨⟨ns', rest'⟩, hmore, heq⟩ := bind_eq_ok_iff.1 h
    cases heq
    exact (ih hmore).trans ((List.suffix_cons m ls).trans (List.suffix_cons l _))
  | case5 => cases h
  | case6 =>
    cases h
    exact List.suffix_rfl

theorem names_suffix {separator : Token} {what : String} {ls rest : List Lexeme}
    {ns : String × List String} (h : names separator what ls = .ok (ns, rest)) : rest <:+ ls := by
  obtain ⟨⟨first, behind⟩, hname, h⟩ := bind_eq_ok_iff.1 h
  obtain ⟨⟨more, rest'⟩, hmore, h⟩ := bind_eq_ok_iff.1 h
  cases h
  exact (moreNames_suffix hmore).trans (name_suffix hname)

theorem qualifiedName_suffix {what : String} {ls rest : List Lexeme} {key : QualifiedName}
    (h : qualifiedName what ls = .ok (key, rest)) : rest <:+ ls := by
  obtain ⟨⟨ns, rest'⟩, hnames, h⟩ := bind_eq_ok_iff.1 h
  cases h
  exact names_suffix hnames

theorem dispatch_suffix {κ : Type} {rules : List (List String × κ)} {ls rest : List Lexeme} {k : κ}
    (h : dispatch rules ls = some (k, rest)) : rest <:+ ls := by
  obtain ⟨rule, -, hrule⟩ := List.exists_of_findSome?_eq_some h
  obtain ⟨rest', htake, heq⟩ := Option.map_eq_some_iff.1 hrule
  cases heq
  exact takeKeywords_suffix htake

/-! ## Items -/

/-- The items of an enclosed text are slices. -/
theorem slice_of_mem_listItems {ls : List Lexeme} {last : List Char} (hls : Chain ls last) {e : Enclosed}
    (he : enclosed 0 ls = some e) {text : List Char} (htext : text ∈ listItems e.body)
    {ms : List Lexeme} (hms : lex text = .ok ms) : Slice ms := by
  obtain ⟨rfl, -, -⟩ := enclosed_eq_some he
  obtain ⟨hinner, hclose⟩ := Chain.append_iff.1 hls
  rw [written_cons, List.append_assoc, List.append_assoc] at hinner
  have hchain : Chain e.inner e.close.gap := hinner.of_append
  have hgap : FinalGap e.close.gap := .closed hclose.1.gap
  have hbody : e.body = written e.inner ++ e.close.gap := rfl
  rw [hbody, listItems_of_chain hchain hgap.quiet] at htext
  obtain ⟨s, hs, rfl⟩ := List.mem_map.1 (List.mem_filter.1 htext).1
  have htokens : ms.map Lexeme.token = s.tokens := by
    have := (reads_of_mem_segments hchain hgap hs).tokens_eq
    rw [← tokens_trim, tokens, hms] at this
    exact Except.ok.inj this
  obtain ⟨⟨ms', rest⟩, hlexemes, rfl⟩ := exists_of_map_eq_ok hms
  refine ⟨⟨[], rest, (lexemes_eq_ok_iff.1 hlexemes).2.1⟩, ?_⟩
  rw [htokens]
  exact level_of_mem_segments (enclosed_balanced he) hs

/-- Columns are sound; other items carry no text to paste. -/
def TableItem.Sound (inferId : Bool) (item : TableItem) : Prop :=
  ∀ c, item.column? = some c → c.Sound inferId

section Items

variable {inferId strict : Bool} {item : TableItem} {ls : List Lexeme}

theorem sound_of_column?_eq_none (h : item.column? = none) : item.Sound inferId := by
  intro c hc
  rw [h] at hc
  cases hc

theorem exists_of_primaryKeyItem (h : primaryKeyItem ls = .ok item) :
    ∃ columns, item = .primaryKey columns := by
  obtain ⟨⟨columns, rest⟩, -, h⟩ := bind_eq_ok_iff.1 (mapError_eq_ok_iff.1 h)
  obtain ⟨-, -, h⟩ := bind_eq_ok_iff.1 h
  cases h
  exact ⟨columns, rfl⟩

theorem exists_of_uniqueItem (h : uniqueItem ls = .ok item) : ∃ columns, item = .unique columns := by
  obtain ⟨⟨columns, rest⟩, -, h⟩ := bind_eq_ok_iff.1 (mapError_eq_ok_iff.1 h)
  obtain ⟨-, -, h⟩ := bind_eq_ok_iff.1 h
  cases h
  exact ⟨columns, rfl⟩

theorem exists_of_foreignKeyItem {table : QualifiedName} {constraint : Option String}
    (h : foreignKeyItem table constraint ls = .ok item) : ∃ fk, item = .foreignKey fk := by
  obtain ⟨⟨source, rest⟩, -, h⟩ := bind_eq_ok_iff.1 (mapError_eq_ok_iff.1 h)
  obtain ⟨rest, -, h⟩ := bind_eq_ok_iff.1 h
  obtain ⟨⟨target, rest⟩, -, h⟩ := bind_eq_ok_iff.1 h
  obtain ⟨⟨columns, rest⟩, -, h⟩ := bind_eq_ok_iff.1 h
  simp only at h
  split at h
  · obtain ⟨⟨actions, rest⟩, -, h⟩ := bind_eq_ok_iff.1 h
    obtain ⟨-, -, h⟩ := bind_eq_ok_iff.1 h
    cases h
    exact ⟨_, rfl⟩
  · cases h

theorem unsupported_eq_ok {α : Type} {what : String} {text : List Char} {skipped a : α}
    (h : unsupported strict what text skipped = .ok a) : a = skipped := by
  rw [unsupported] at h
  split at h
  · cases h
  · cases h
    rfl

/-- A named constraint is a foreign key, a key list or skipped. -/
theorem cases_of_namedItem {table : QualifiedName} {text : List Char}
    (h : namedItem strict table text ls = .ok item) :
    (∃ n rest fk, name "constraint name" ls = .ok (n, rest) ∧
      (takeKeywords ["FOREIGN", "KEY"] rest).isSome ∧ item = .foreignKey fk) ∨
      (∃ columns, item = .primaryKey columns) ∨ (∃ columns, item = .unique columns) ∨
        item = .skipped := by
  obtain ⟨⟨constraint, rest⟩, hname, h⟩ := bind_eq_ok_iff.1 h
  simp only at h
  split at h
  · rename_i behind hbehind
    obtain ⟨fk, rfl⟩ := exists_of_foreignKeyItem h
    exact .inl ⟨constraint, rest, fk, mapError_eq_ok_iff.1 hname, by simp [hbehind], rfl⟩
  · split at h
    · exact .inr (.inl (exists_of_primaryKeyItem h))
    · split at h
      · exact .inr (.inr (.inl (exists_of_uniqueItem h)))
      · split at h
        · exact .inr (.inr (.inr (unsupported_eq_ok h)))
        · cases h

theorem tableItem_sound {options : Options} {table : QualifiedName} {text : List Char}
    (hslice : ∀ ms, lex text = .ok ms → Slice ms) (h : tableItem options table text = .ok item) :
    item.Sound options.inferId := by
  obtain ⟨ms, hms, h⟩ := bind_eq_ok_iff.1 h
  have hslice := hslice ms (mapError_eq_ok_iff.1 hms)
  split at h
  · obtain ⟨columns, rfl⟩ := exists_of_primaryKeyItem h
    exact sound_of_column?_eq_none rfl
  · obtain ⟨columns, rfl⟩ := exists_of_uniqueItem h
    exact sound_of_column?_eq_none rfl
  · obtain ⟨fk, rfl⟩ := exists_of_foreignKeyItem h
    exact sound_of_column?_eq_none rfl
  · obtain ⟨_, _, fk, -, -, rfl⟩ | ⟨columns, rfl⟩ | ⟨columns, rfl⟩ | rfl := cases_of_namedItem h <;>
      exact sound_of_column?_eq_none rfl
  · rw [unsupported_eq_ok h]
    exact sound_of_column?_eq_none rfl
  · obtain ⟨c, hc, h⟩ := bind_eq_ok_iff.1 h
    cases h
    intro c' hc'
    cases hc'
    exact columnDefinition_sound hslice hc

end Items

/-! ## Tables -/

/-- What a mark keeps holds of all columns when some of them are marked. -/
theorem forall_of_markColumns {P : ColumnDraft → Prop} {strict : Bool} {table : QualifiedName}
    {keyword : String} {mark : ColumnDraft → ColumnDraft} (hmark : ∀ c, P c → P (mark c))
    {ns : List String} {cs cs' : List ColumnDraft} (hcs : ∀ c ∈ cs, P c)
    (h : markColumns strict table keyword mark ns cs = .ok cs') : ∀ c ∈ cs', P c := by
  induction ns generalizing cs with
  | nil =>
    cases h
    exact hcs
  | cons n ns ih =>
    rw [markColumns] at h
    split at h
    · rename_i marked hmarked
      refine ih (fun c hc => ?_) h
      rcases mem_of_updateFirst? hmarked hc with hc | ⟨d, hd, rfl⟩
      · exact hcs c hc
      · exact hmark d (hcs d hd)
    · split at h
      · cases h
      · exact ih hcs h

theorem ColumnDraft.Sound.markUnique {inferId : Bool} {c : ColumnDraft} (h : c.Sound inferId) :
    c.markUnique.Sound inferId :=
  ⟨⟨h.legible.type, h.legible.default⟩, fun hkey => ⟨rfl, (h.keyed.primary hkey).2⟩, h.keyed.implicit⟩

theorem ofItems_sound {inferId strict : Bool} {key : QualifiedName} {items : List TableItem}
    {t : TableDraft} (hitems : ∀ item ∈ items, item.Sound inferId)
    (h : TableDraft.ofItems strict key items = .ok t) : ∀ c ∈ t.columns, c.Sound inferId := by
  obtain ⟨primary, hprimary, h⟩ := bind_eq_ok_iff.1 h
  obtain ⟨unique, hunique, h⟩ := bind_eq_ok_iff.1 h
  cases h
  have hcolumns : ∀ c ∈ items.filterMap TableItem.column?, c.Sound inferId := by
    intro c hc
    obtain ⟨item, hitem, hcolumn⟩ := List.mem_filterMap.1 hc
    exact hitems item hitem c hcolumn
  refine forall_of_markColumns (fun c hc => hc.markUnique) ?_ hunique
  exact forall_of_markColumns (fun c hc => sound_markPrimaryKey hc.legible) hcolumns hprimary

/-! ## Statements -/

/-- What every entry that is read can be relied on for. -/
def Entry.Sound (inferId : Bool) : Entry → Prop
  | .schema _ => True
  | .type t => t.values ≠ []
  | .table t => ∀ c ∈ t.columns, c.Sound inferId
  | .comment c => c.text ≠ some ""

/-- A table is read from its name and the items of its body. -/
theorem createTable_eq_ok_iff {options : Options} {isDefined : QualifiedName → Bool}
    {ls : List Lexeme} {e : Entry} :
    createTable options isDefined ls = .ok e ↔ ∃ key rest body items t,
      qualifiedName "table name" (skipKeywords ["IF", "NOT", "EXISTS"] ls) = .ok (key, rest) ∧
        (takeToken .openParen rest).bind (enclosed 0) = some body ∧ isDone body.rest = true ∧
        isDefined key = false ∧ (listItems body.body).mapM (tableItem options key) = .ok items ∧
        TableDraft.ofItems options.strict key items = .ok t ∧ e = .table t := by
  constructor
  · intro h
    obtain ⟨⟨key, rest⟩, hkey, h⟩ := bind_eq_ok_iff.1 h
    simp only at h
    split at h
    · cases h
    · rename_i body hbody
      obtain ⟨⟨⟩, hdone, h⟩ := bind_eq_ok_iff.1 h
      split at h
      · cases h
      · rename_i hdefined
        obtain ⟨items, hitems, h⟩ := bind_eq_ok_iff.1 h
        obtain ⟨t, ht, h⟩ := bind_eq_ok_iff.1 h
        cases h
        refine ⟨key, rest, body, items, t, mapError_eq_ok_iff.1 hkey, hbody, ?_, by simpa using hdefined,
          hitems, ht, rfl⟩
        have hfinish := mapError_eq_ok_iff.1 hdone
        rw [finish] at hfinish
        split at hfinish
        · assumption
        · cases hfinish
  · rintro ⟨key, rest, body, items, t, hkey, hbody, hdone, hdefined, hitems, ht, rfl⟩
    have hfinish : finish "statement after the column list" body.rest = .ok () := by
      rw [finish, if_pos hdone]
    rw [createTable]
    refine bind_eq_ok_iff.2 ⟨(key, rest), mapError_eq_ok_iff.2 hkey, ?_⟩
    simp only [hbody, hdefined]
    refine bind_eq_ok_iff.2 ⟨(), mapError_eq_ok_iff.2 hfinish, ?_⟩
    exact bind_eq_ok_iff.2 ⟨items, hitems, bind_eq_ok_iff.2 ⟨t, ht, rfl⟩⟩

theorem createTable_sound {options : Options} {isDefined : QualifiedName → Bool} {ls : List Lexeme}
    {front : List Lexeme} {last : List Char} (hls : Chain (front ++ ls) last) {e : Entry}
    (h : createTable options isDefined ls = .ok e) :
    ∃ t, e = .table t ∧ isDefined t.key = false ∧ ∀ c ∈ t.columns, c.Sound options.inferId := by
  obtain ⟨key, rest, body, items, t, hkey, hbody, -, hdefined, hitems, ht, rfl⟩ :=
    createTable_eq_ok_iff.1 h
  have hsuffix : rest <:+ ls := (qualifiedName_suffix hkey).trans (skipKeywords_suffix _ ls)
  obtain ⟨inside, hopen, henclosed⟩ := Option.bind_eq_some_iff.1 hbody
  obtain ⟨front', hfront⟩ := (takeToken_suffix hopen).trans hsuffix
  have hinside : Chain inside last := by
    rw [← hfront, ← List.append_assoc] at hls
    exact (Chain.append_iff.1 hls).2
  refine ⟨t, rfl, ?_, ofItems_sound (fun item hitem => ?_) ht⟩
  · rw [Draft.key_ofItems ht]
    exact hdefined
  · obtain ⟨text, htext, hitem⟩ := exists_of_mem_of_mapM hitems hitem
    exact tableItem_sound (fun ms hms => slice_of_mem_listItems hinside henclosed htext hms) hitem

theorem createType_sound {strict : Bool} {text : List Char} {ls : List Lexeme} {e : Entry}
    (h : createType strict text ls = .ok (some e)) : ∃ t, e = .type t ∧ t.values ≠ [] := by
  obtain ⟨⟨key, rest⟩, -, h⟩ := bind_eq_ok_iff.1 h
  obtain ⟨rest, -, h⟩ := bind_eq_ok_iff.1 h
  simp only at h
  split at h
  · have := unsupported_eq_ok h
    cases this
  · obtain ⟨values, -, h⟩ := bind_eq_ok_iff.1 h
    split at h
    · cases h
    · rename_i hvalues
      cases h
      exact ⟨⟨key, values⟩, rfl, fun hnil => hvalues (List.isEmpty_iff.2 hnil)⟩

theorem commentText_ne {ls : List Lexeme} {text : Option String} (h : commentText ls = .ok text) :
    text ≠ some "" := by
  obtain ⟨rest, -, h⟩ := bind_eq_ok_iff.1 h
  simp only at h
  split at h
  · obtain ⟨-, -, h⟩ := bind_eq_ok_iff.1 h
    cases h
    simp
  · obtain ⟨⟨literal, rest⟩, -, h⟩ := bind_eq_ok_iff.1 h
    obtain ⟨-, -, h⟩ := bind_eq_ok_iff.1 h
    cases h
    split
    · simp
    · rename_i hne
      intro heq
      cases heq
      exact hne rfl

theorem createSchema_sound {ls : List Lexeme} {e : Entry}
    (h : createSchema ls = .ok e) : ∃ name, e = .schema name := by
  obtain ⟨⟨name, rest⟩, -, h⟩ := bind_eq_ok_iff.1 (mapError_eq_ok_iff.1 h)
  simp only at h
  split at h
  · obtain ⟨behind, -, h⟩ := bind_eq_ok_iff.1 h
    obtain ⟨-, -, h⟩ := bind_eq_ok_iff.1 h
    cases h
    exact ⟨name, rfl⟩
  · obtain ⟨behind, -, h⟩ := bind_eq_ok_iff.1 h
    obtain ⟨-, -, h⟩ := bind_eq_ok_iff.1 h
    cases h
    exact ⟨name, rfl⟩

theorem commentOnTable_sound {ls : List Lexeme} {e : Entry} (h : commentOnTable ls = .ok e) :
    ∃ c, e = .comment c ∧ c.text ≠ some "" := by
  obtain ⟨⟨key, rest⟩, -, h⟩ := bind_eq_ok_iff.1 (mapError_eq_ok_iff.1 h)
  obtain ⟨text, htext, h⟩ := bind_eq_ok_iff.1 h
  cases h
  exact ⟨_, rfl, commentText_ne htext⟩

theorem commentOnColumn_sound {ls : List Lexeme} {e : Entry} (h : commentOnColumn ls = .ok e) :
    ∃ c, e = .comment c ∧ c.text ≠ some "" := by
  obtain ⟨⟨⟨first, more⟩, rest⟩, -, h⟩ := bind_eq_ok_iff.1 (mapError_eq_ok_iff.1 h)
  simp only at h
  split at h
  · cases h
  · obtain ⟨text, htext, h⟩ := bind_eq_ok_iff.1 h
    cases h
    exact ⟨_, rfl, commentText_ne htext⟩

/-- Every statement that is read declares something sound, and no table that is defined before. -/
theorem readStatement_sound {options : Options} {isDefined : QualifiedName → Bool}
    {text : List Char} {e : Entry} (h : readStatement options isDefined text = .ok (some e)) :
    e.Sound options.inferId ∧ ∀ t, e = .table t → isDefined t.key = false := by
  obtain ⟨ls, hls, h⟩ := bind_eq_ok_iff.1 h
  obtain ⟨⟨ls', last⟩, hlexemes, rfl⟩ := exists_of_map_eq_ok (mapError_eq_ok_iff.1 hls)
  have hchain := (lexemes_eq_ok_iff.1 hlexemes).2.1
  simp only at h
  split at h
  · cases h
  · split at h
    · obtain ⟨e', he, h⟩ := bind_eq_ok_iff.1 h
      cases h
      obtain ⟨name, rfl⟩ := createSchema_sound he
      exact ⟨trivial, fun u hu => by cases hu⟩
    · obtain ⟨t, rfl, ht⟩ := createType_sound h
      exact ⟨ht, fun u hu => by cases hu⟩
    · rename_i rest hdispatch
      obtain ⟨e', he, h⟩ := bind_eq_ok_iff.1 h
      cases h
      obtain ⟨front, rfl⟩ := dispatch_suffix hdispatch
      obtain ⟨t, rfl, hdefined, hcolumns⟩ := createTable_sound hchain he
      refine ⟨hcolumns, fun u hu => ?_⟩
      cases hu
      exact hdefined
    · obtain ⟨e', he, h⟩ := bind_eq_ok_iff.1 h
      cases h
      obtain ⟨c, rfl, hc⟩ := commentOnTable_sound he
      exact ⟨hc, fun u hu => by cases hu⟩
    · obtain ⟨e', he, h⟩ := bind_eq_ok_iff.1 h
      cases h
      obtain ⟨c, rfl, hc⟩ := commentOnColumn_sound he
      exact ⟨hc, fun u hu => by cases hu⟩
    · have := unsupported_eq_ok h
      cases this

/-! ## Drafts -/

theorem forall_mem_concat {α : Type} {P : α → Prop} {xs : List α} {x : α} (hxs : ∀ y ∈ xs, P y)
    (hx : P x) : ∀ y ∈ xs ++ [x], P y :=
  List.forall_mem_append.2 ⟨hxs, List.forall_mem_singleton.2 hx⟩

/-- What every draft that is read can be relied on for. -/
structure Draft.Sound (inferId : Bool) (d : Draft) : Prop extends Draft.Distinct d where
  default : defaultSchema ∈ d.schemas
  values : ∀ t ∈ d.types, t.values ≠ []
  columns : ∀ t ∈ d.tables, ∀ c ∈ t.columns, c.Sound inferId
  comments : ∀ c ∈ d.comments, c.text ≠ some ""

namespace Draft

theorem mem_schemas_withSchema (d : Draft) (name : String) : name ∈ (d.withSchema name).schemas := by
  rw [withSchema]
  split
  · rename_i h
    exact List.contains_iff_mem.1 h
  · exact List.mem_append_right _ List.mem_cons_self

theorem schemas_subset_withSchema (d : Draft) (name : String) :
    d.schemas ⊆ (d.withSchema name).schemas := by
  rw [withSchema]
  split
  · exact List.Subset.refl _
  · exact List.subset_append_left _ _

theorem nodup_schemas_withSchema {d : Draft} (h : d.schemas.Nodup) (name : String) :
    (d.withSchema name).schemas.Nodup := by
  rw [withSchema]
  split
  · exact h
  · rename_i hname
    refine List.nodup_append.2 ⟨h, List.nodup_singleton name, fun a ha b hb => ?_⟩
    rw [List.mem_singleton.1 hb]
    rintro rfl
    exact hname (List.contains_iff_mem.2 ha)

theorem Sound.withSchema {inferId : Bool} {d : Draft} (h : d.Sound inferId) (name : String) :
    (d.withSchema name).Sound inferId := by
  have hsubset := d.schemas_subset_withSchema name
  constructor
  · constructor
    · exact nodup_schemas_withSchema h.schemas name
    · rw [types_withSchema]
      exact fun t ht => hsubset (h.types t ht)
    · rw [tables_withSchema]
      exact fun t ht => hsubset (h.tables t ht)
    · rw [tables_withSchema]
      exact h.keys
  · exact hsubset h.default
  · rw [types_withSchema]
    exact h.values
  · rw [tables_withSchema]
    exact h.columns
  · rw [comments_withSchema]
    exact h.comments

/-- A sound entry leaves the draft sound. -/
theorem Sound.add {inferId : Bool} {d : Draft} {e : Entry} (h : d.Sound inferId)
    (he : e.Sound inferId) (hnew : ∀ t, e = .table t → d.definesTable t.key = false) :
    (d.add e).Sound inferId := by
  cases e with
  | schema name => exact h.withSchema name
  | type t =>
    have hd := h.withSchema t.key.schema
    have htypes := forall_mem_concat hd.types (d.mem_schemas_withSchema t.key.schema)
    exact ⟨⟨hd.schemas, htypes, hd.tables, hd.keys⟩, hd.default, forall_mem_concat hd.values he,
      hd.columns, hd.comments⟩
  | table t =>
    have hd := h.withSchema t.key.schema
    have hkey : ∀ u ∈ (d.withSchema t.key.schema).tables, u.key ≠ t.key := by
      have hdefined := hnew t rfl
      rw [definesTable, List.any_eq_false] at hdefined
      rw [tables_withSchema]
      exact fun u hu heq => hdefined u hu (beq_iff_eq.2 heq)
    have hkeys : (((d.withSchema t.key.schema).tables ++ [t]).map TableDraft.key).Nodup := by
      rw [List.map_append, List.nodup_append]
      refine ⟨hd.keys, List.nodup_singleton _, fun a ha b hb => ?_⟩
      obtain ⟨u, hu, rfl⟩ := List.mem_map.1 ha
      rw [List.map_cons, List.map_nil, List.mem_singleton] at hb
      exact hb ▸ hkey u hu
    have htables := forall_mem_concat hd.tables (d.mem_schemas_withSchema t.key.schema)
    exact ⟨⟨hd.schemas, hd.types, htables, hkeys⟩, hd.default, hd.values,
      forall_mem_concat hd.columns he, hd.comments⟩
  | comment c =>
    have hd : (d.add (.comment c)).Distinct := ⟨h.schemas, h.types, h.tables, h.keys⟩
    exact ⟨hd, h.default, h.values, h.columns, forall_mem_concat h.comments he⟩

theorem sound_empty (inferId : Bool) : ({} : Draft).Sound inferId := by
  refine ⟨⟨List.nodup_singleton _, ?_, ?_, List.nodup_nil⟩, List.mem_cons_self, ?_, ?_, ?_⟩ <;>
    exact fun _ h => by cases h

theorem readNext_sound {options : Options} {d d' : Draft} {s : Statement}
    (hd : d.Sound options.inferId) (h : readNext options d s = .ok d') :
    d'.Sound options.inferId := by
  rw [readNext] at h
  split at h
  · cases h
  · rename_i entry hentry
    cases h
    cases entry with
    | none => exact hd
    | some e =>
      obtain ⟨he, hnew⟩ := readStatement_sound hentry
      exact hd.add he hnew

/-- Every draft that is read is sound. -/
theorem ofStatements_sound {options : Options} {ss : List Statement} {d : Draft}
    (h : ofStatements options ss = .ok d) : d.Sound options.inferId :=
  foldlM_induction h (sound_empty options.inferId) fun _ _ _ _ hd hstep => readNext_sound hd hstep

end Draft

end SchemaDdl.Script
