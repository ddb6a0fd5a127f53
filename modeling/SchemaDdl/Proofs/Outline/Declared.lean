import SchemaDdl.Proofs.Outline.Reread
import SchemaDdl.Proofs.Reading.Sound

/-!
# Outlines that scripts declare

Whatever a script declares is legible: its texts are excerpts that were read before, constraint names
come out sanitized and told apart, and comments are written where their names find a column. So
models of scripts generate scripts that can be read.
-/

namespace SchemaDdl

open Script

/-! ## Comments as they are written -/

/-- A table whose comments can all be written again. -/
structure TableOutline.Described (t : TableOutline) : Prop where
  comment : t.comment ≠ some ""
  columnComments : ∀ c ∈ t.columns, c.comment ≠ some ""
  commentedFirst : t.columns.Pairwise fun b c => c.comment ≠ none → b.name ≠ c.name

namespace TableOutline

/-- A table without its comments. -/
def plain (t : TableOutline) : TableOutline :=
  { t with comment := none, columns := t.drafts.map fun c => { toColumnDraft := c } }

theorem drafts_plain (t : TableOutline) : t.plain.drafts = t.drafts := by
  rw [plain, drafts, List.map_map]
  exact List.map_id t.drafts

variable {t t' : TableOutline} {comment : CommentDraft}

theorem plain_describe? (h : t.describe? comment = some t') : t'.plain = t.plain := by
  rw [describe?] at h
  split at h
  · cases h
    rfl
  · obtain ⟨columns, hcolumns, rfl⟩ := Option.map_eq_some_iff.1 h
    have hdrafts := map_updateFirst? (g := ColumnOutline.toColumnDraft) hcolumns fun _ => rfl
    rw [plain, plain, drafts, drafts, hdrafts]

/-- A comment on a column goes to the first one so named, so that it can be written again. -/
theorem Described.describe? (ht : t.Described) (hcomment : comment.text ≠ some "")
    (h : t.describe? comment = some t') : t'.Described := by
  obtain ⟨htable, hcolumns, hfirst⟩ := ht
  rw [TableOutline.describe?] at h
  split at h
  · cases h
    exact ⟨hcomment, hcolumns, hfirst⟩
  · obtain ⟨columns, hupdate, rfl⟩ := Option.map_eq_some_iff.1 h
    refine ⟨htable, fun c hc => ?_, ?_⟩
    · rcases mem_of_updateFirst? hupdate hc with hc | ⟨d, -, rfl⟩
      · exact hcolumns c hc
      · exact hcomment
    · obtain ⟨front, x, back, hsplit, hfront, hx, rfl⟩ := exists_of_updateFirst? hupdate
      rw [hsplit, List.pairwise_append, List.pairwise_cons] at hfirst
      obtain ⟨hinner, ⟨hbehind, hback⟩, hacross⟩ := hfirst
      change List.Pairwise _ (front ++ x.describe comment.text :: back)
      rw [List.pairwise_append, List.pairwise_cons]
      refine ⟨hinner, ⟨hbehind, hback⟩, fun b hb c hc => ?_⟩
      rcases List.mem_cons.1 hc with rfl | hc
      · intro _ heq
        have hname := hfront b hb
        rw [heq] at hname
        exact absurd (hname.symm.trans hx) Bool.false_ne_true
      · exact hacross b hb c (List.mem_cons_of_mem x hc)

end TableOutline

section Describe

variable {ts ts' : List TableOutline} {comment : CommentDraft}

theorem exists_key_of_describe? (h : describe? ts comment = some ts') :
    ∃ t ∈ ts, t.key = comment.target.key := by
  rw [describe?] at h
  split at h
  · obtain ⟨front, t, back, rfl, -, ht, -⟩ := exists_of_updateFirst? h
    rename_i htarget
    refine ⟨t, List.mem_append_right _ List.mem_cons_self, ?_⟩
    rw [htarget]
    exact beq_iff_eq.1 ht
  · obtain ⟨columns, hcolumns, -⟩ := Option.map_eq_some_iff.1 h
    obtain ⟨t, ht, -⟩ := Option.bind_eq_some_iff.1 hcolumns
    rename_i htarget
    refine ⟨t, List.mem_of_find?_eq_some ht, ?_⟩
    have hkey := List.find?_some ht
    rw [htarget]
    exact beq_iff_eq.1 hkey

/-- A comment is written into one table. -/
theorem exists_of_describe? (hkeys : (ts.map TableOutline.key).Nodup)
    (h : describe? ts comment = some ts') :
    ∃ front t t' back, ts = front ++ t :: back ∧ t.key = comment.target.key ∧
      t.describe? comment = some t' ∧ ts' = front ++ t' :: back := by
  obtain ⟨t, ht, hkey⟩ := exists_key_of_describe? h
  obtain ⟨front, back, rfl⟩ := List.append_of_mem ht
  rw [List.map_append, List.map_cons, List.nodup_append, List.nodup_cons] at hkeys
  obtain ⟨-, ⟨hback, -⟩, hfront⟩ := hkeys
  have hahead (x : TableOutline) (hx : x ∈ front) : x.key ≠ t.key :=
    hfront x.key (List.mem_map_of_mem hx) t.key List.mem_cons_self
  have hbehind (y : TableOutline) (hy : y ∈ back) : y.key ≠ t.key :=
    fun heq => hback (heq ▸ List.mem_map_of_mem hy)
  rw [describe?_append hahead hbehind hkey.symm] at h
  obtain ⟨t', ht', rfl⟩ := Option.map_eq_some_iff.1 h
  exact ⟨front, t, t', back, rfl, hkey, ht', rfl⟩

/-- Comments change nothing but comments and leave every table so that they can be written again. -/
theorem described_of_foldlM {comments : List CommentDraft}
    (hkeys : (ts.map TableOutline.key).Nodup) (hts : ∀ t ∈ ts, t.Described)
    (hcomments : ∀ c ∈ comments, c.text ≠ some "") (h : comments.foldlM describe? ts = some ts') :
    ts'.map TableOutline.plain = ts.map TableOutline.plain ∧ ∀ t ∈ ts', t.Described := by
  induction comments generalizing ts with
  | nil =>
    cases h
    exact ⟨rfl, hts⟩
  | cons c cs ih =>
    rw [List.foldlM_cons] at h
    obtain ⟨next, hnext, h⟩ := Option.bind_eq_some_iff.1 h
    obtain ⟨front, t, t', back, rfl, -, ht', rfl⟩ := exists_of_describe? hkeys hnext
    have hplain := TableOutline.plain_describe? ht'
    have hmap : (front ++ t' :: back).map TableOutline.plain =
        (front ++ t :: back).map TableOutline.plain := by
      rw [List.map_append, List.map_append, List.map_cons, List.map_cons, hplain]
    have hnames : ((front ++ t' :: back).map TableOutline.key).Nodup := by
      rw [List.map_append, List.map_cons, key_describe? ht', ← List.map_cons, ← List.map_append]
      exact hkeys
    have hdescribed : ∀ u ∈ front ++ t' :: back, u.Described := by
      intro u hu
      rw [List.mem_append, List.mem_cons] at hu
      rcases hu with hu | rfl | hu
      · exact hts u (List.mem_append_left _ hu)
      · have ht := hts t (List.mem_append_right _ List.mem_cons_self)
        exact ht.describe? (hcomments c List.mem_cons_self) ht'
      · exact hts u (List.mem_append_right _ (List.mem_cons_of_mem t hu))
    obtain ⟨hrest, hresult⟩ := ih hnames hdescribed (fun d hd => hcomments d (List.mem_cons_of_mem c hd)) h
    exact ⟨hrest.trans hmap, hresult⟩

end Describe

/-! ## Constraint names -/

theorem nodup_constraintNames (table : String) (used : List String) (fks : List ForeignKeyDraft) :
    (constraintNames table used fks).Nodup := by
  rw [constraintNames_eq_inTurn]
  exact (Naming.apart_inTurn Naming.ensureUnique_notMem used _).distinct

theorem clean_of_mem_constraintNames {table : String} {used : List String}
    {fks : List ForeignKeyDraft} {n : String} (hn : n ∈ constraintNames table used fks) :
    Naming.Clean n := by
  rw [constraintNames_eq_inTurn] at hn
  refine Naming.clean_of_mem_inTurn (fun base hbase => ?_) hn
  obtain ⟨fk, -, rfl⟩ := List.mem_map.1 hbase
  exact Naming.clean_sanitize _ _

theorem map_name_zipWith {names : List String} {fks : List ForeignKeyDraft}
    (h : names.length = fks.length) :
    (List.zipWith (fun name (fk : ForeignKeyDraft) => { fk with name }) names fks).map
      ForeignKeyDraft.name = names := by
  induction names generalizing fks with
  | nil => rfl
  | cons name names ih =>
    cases fks with
    | nil => cases h
    | cons fk fks => rw [List.zipWith_cons_cons, List.map_cons, ih (Nat.succ.inj h)]

theorem exists_of_mem_zipWith {names : List String} {fks : List ForeignKeyDraft}
    {x : ForeignKeyDraft}
    (h : x ∈ List.zipWith (fun name (fk : ForeignKeyDraft) => { fk with name }) names fks) :
    ∃ fk ∈ fks, x = { fk with name := x.name } := by
  induction names generalizing fks with
  | nil => cases h
  | cons name names ih =>
    cases fks with
    | nil => cases h
    | cons fk fks =>
      rcases List.mem_cons.1 h with rfl | h
      · exact ⟨fk, List.mem_cons_self, rfl⟩
      · obtain ⟨fk', hfk, hx⟩ := ih h
        exact ⟨fk', List.mem_cons_of_mem fk hfk, hx⟩

/-! ## What a draft declares -/

namespace Script

namespace TableDraft

variable (t : TableDraft)

theorem drafts_outline : t.outline.drafts = t.columns := by
  rw [outline, TableOutline.drafts, List.map_map]
  exact List.map_id t.columns

theorem described_outline : t.outline.Described := by
  have hnone (c : ColumnOutline) (hc : c ∈ t.outline.columns) : c.comment = none := by
    obtain ⟨d, -, rfl⟩ := List.mem_map.1 hc
    rfl
  constructor
  · exact fun h => by cases h
  · intro c hc
    rw [hnone c hc]
    exact fun h => by cases h
  · refine List.pairwise_of_forall_mem_list fun b _ c hc hcomment => ?_
    exact absurd (hnone c hc) hcomment

theorem map_name_foreignKeys_outline :
    t.outline.foreignKeys.map ForeignKeyDraft.name = constraintNames t.key.name [] t.foreignKeys :=
  map_name_zipWith (length_constraintNames _ _ _)

end TableDraft

section Declares

variable {inferId : Bool} {d : Draft} {o : Outline}

/-- Tables come out of a draft as they were declared, comments aside. -/
theorem Draft.Declares.map_plain (h : d.Declares o) (hd : d.Sound inferId) :
    o.tables.map TableOutline.plain = d.tables.map (fun t => t.outline.plain) ∧
      ∀ t ∈ o.tables, t.Described := by
  have hkeys : ((d.tables.map TableDraft.outline).map TableOutline.key).Nodup := by
    rw [List.map_map]
    exact hd.keys
  have hstart : ∀ t ∈ d.tables.map TableDraft.outline, t.Described := by
    intro t ht
    obtain ⟨u, -, rfl⟩ := List.mem_map.1 ht
    exact u.described_outline
  obtain ⟨hplain, hdescribed⟩ := described_of_foldlM hkeys hstart hd.comments h.tables
  rw [List.map_map] at hplain
  exact ⟨hplain, hdescribed⟩

theorem Draft.Declares.exists_draft (h : d.Declares o) (hd : d.Sound inferId) {t : TableOutline}
    (ht : t ∈ o.tables) :
    ∃ u ∈ d.tables, u.key = t.key ∧ t.drafts = u.columns ∧ t.foreignKeys = u.outline.foreignKeys := by
  have hmem : t.plain ∈ d.tables.map fun u => u.outline.plain := by
    rw [← (h.map_plain hd).1]
    exact List.mem_map_of_mem ht
  obtain ⟨u, hu, hut⟩ := List.mem_map.1 hmem
  have hdrafts := congrArg TableOutline.drafts hut
  rw [TableOutline.drafts_plain, TableOutline.drafts_plain, u.drafts_outline] at hdrafts
  have hkey : u.key = t.key := by
    have := congrArg TableOutline.key hut
    exact this
  have hfks : u.outline.foreignKeys = t.foreignKeys := by
    have := congrArg TableOutline.foreignKeys hut
    exact this
  exact ⟨u, hu, hkey, hdrafts.symm, hfks.symm⟩

theorem Draft.Declares.exists_outline (h : d.Declares o) (hd : d.Sound inferId) {u : TableDraft}
    (hu : u ∈ d.tables) : ∃ t ∈ o.tables, t.key = u.key ∧ t.drafts = u.columns := by
  have hmem : u.outline.plain ∈ o.tables.map TableOutline.plain := by
    rw [(h.map_plain hd).1]
    exact List.mem_map.2 ⟨u, hu, rfl⟩
  obtain ⟨t, ht, htu⟩ := List.mem_map.1 hmem
  have hdrafts := congrArg TableOutline.drafts htu
  rw [TableOutline.drafts_plain, TableOutline.drafts_plain, u.drafts_outline] at hdrafts
  have hkey : t.key = u.key := by
    have := congrArg TableOutline.key htu
    exact this
  exact ⟨t, ht, hkey, hdrafts⟩

theorem Draft.Declares.legible_table (h : d.Declares o) (hd : d.Sound inferId) {t : TableOutline}
    (ht : t ∈ o.tables) : t.Legible := by
  obtain ⟨hcomment, hcolumnComments, hfirst⟩ := (h.map_plain hd).2 t ht
  obtain ⟨u, hu, hkey, hdrafts, hfks⟩ := h.exists_draft hd ht
  have hnames := u.map_name_foreignKeys_outline
  refine ⟨fun c hc => ?_, hcomment, hcolumnComments, hfirst, ?_, fun fk hfk => ?_, fun fk hfk => ?_⟩
  · rw [hdrafts] at hc
    exact (hd.columns u hu c hc).legible
  · rw [hfks, hnames]
    exact nodup_constraintNames _ _ _
  · rw [hfks] at hfk
    have hmem : fk.name ∈ u.outline.foreignKeys.map ForeignKeyDraft.name := List.mem_map_of_mem hfk
    rw [hnames] at hmem
    exact clean_of_mem_constraintNames hmem
  · rw [hfks] at hfk
    obtain ⟨fk', hfk', heq⟩ := exists_of_mem_zipWith hfk
    obtain ⟨hsource, -⟩ := h.ends u hu fk' hfk'
    rw [hdrafts, heq]
    exact hsource

/-- What a sound draft declares is legible. -/
theorem Draft.Declares.legible (h : d.Declares o) (hd : d.Sound inferId) : o.Legible := by
  have hkeys : (o.tables.map TableOutline.key).Nodup := by
    have hmap := congrArg (List.map TableOutline.key) (h.map_plain hd).1
    rw [List.map_map, List.map_map] at hmap
    have hd' := hd.keys
    rwa [show TableDraft.key = TableOutline.key ∘ fun t : TableDraft => t.outline.plain from rfl,
      ← hmap] at hd'
  refine ⟨⟨?_, ?_, fun t ht => ?_, hkeys⟩, ?_, fun t ht => h.legible_table hd ht, ?_⟩
  · rw [h.schemas]
    exact hd.schemas
  · rw [h.types, h.schemas]
    exact hd.types
  · obtain ⟨u, hu, hkey, -⟩ := h.exists_draft hd ht
    rw [← hkey, h.schemas]
    exact hd.tables u hu
  · rw [h.types]
    exact hd.values
  · intro t ht fk hfk
    obtain ⟨u, hu, -, -, hfks⟩ := h.exists_draft hd ht
    rw [hfks] at hfk
    obtain ⟨fk', hfk', heq⟩ := exists_of_mem_zipWith hfk
    obtain ⟨-, v, hv, hkey, hcolumn⟩ := h.ends u hu fk' hfk'
    obtain ⟨w, hw, hwkey, hwdrafts⟩ := h.exists_outline hd hv
    rw [heq]
    refine ⟨w, hw, hwkey.trans hkey, ?_⟩
    rw [hwdrafts]
    exact hcolumn

end Declares

end Script

end SchemaDdl
