import SchemaDdl.Proofs.Outline.Resolution
import SchemaDdl.Proofs.Outline.Statements

/-!
# Reading an outline back

The script of a legible outline is read as a model whose outline is the same up to the keys of
columns, which come back by name. Comments find the parts that they were written for.
-/

namespace SchemaDdl

open Script

/-- Columns with the comments of others. -/
def recomment (cs : List ColumnDraft) (ds : List ColumnOutline) : List ColumnOutline :=
  List.zipWith (fun c d => { toColumnDraft := c, comment := d.comment }) cs ds

/-- A table as its statements are read. -/
def TableOutline.reread (inferId : Bool) (t : TableOutline) : TableOutline :=
  { t with columns := recomment (rekeyed inferId t.drafts) t.columns }

/-- An outline as its script is read. -/
def Outline.reread (inferId : Bool) (o : Outline) : Outline where
  schemas := defaultSchema :: o.createdSchemas
  types := o.types
  tables := o.tables.map (TableOutline.reread inferId)

/-! ## Comments of one table -/

def Script.CommentTarget.key : CommentTarget → QualifiedName
  | .table key => key
  | .column key _ => key

/-- Writes a comment that means the table or one of its columns. -/
def TableOutline.describe? (t : TableOutline) (comment : CommentDraft) : Option TableOutline :=
  match comment.target with
  | .table _ => some (t.describe comment.text)
  | .column _ name =>
    (updateFirst? (fun c => c.name == name) (ColumnOutline.describe comment.text) t.columns).map
      fun columns => { t with columns }

section Describe

variable {xs ys : List TableOutline} {t : TableOutline} {comment : CommentDraft}

/-- A comment is written into the only table with its key. -/
theorem describe?_append (hxs : ∀ x ∈ xs, x.key ≠ t.key) (hys : ∀ y ∈ ys, y.key ≠ t.key)
    (hkey : comment.target.key = t.key) :
    SchemaDdl.describe? (xs ++ t :: ys) comment =
      (t.describe? comment).map fun t' => xs ++ t' :: ys := by
  obtain ⟨target, text⟩ := comment
  have hskip (x : TableOutline) (hx : x ∈ xs) : (x.key == t.key) = false :=
    beq_eq_false_iff_ne.2 (hxs x hx)
  cases target with
  | table key =>
    cases hkey
    have hfirst : updateFirst? (fun u => u.key == t.key) (TableOutline.describe text) (t :: ys) =
      some (t.describe text :: ys) := by
        rw [updateFirst?, if_pos (beq_self_eq_true t.key)]
    change updateFirst? (fun u => u.key == t.key) (TableOutline.describe text) (xs ++ t :: ys) = _
    rw [updateFirst?_append hskip, hfirst]
    rfl
  | column key name =>
    cases hkey
    have hfind : (xs ++ t :: ys).find? (fun u => u.key == t.key) = some t := by
      rw [List.find?_append, List.find?_eq_none.2 fun x hx => by simp [hxs x hx]]
      simp
    have hkept (columns : List ColumnOutline) (zs : List TableOutline)
        (hzs : ∀ z ∈ zs, z.key ≠ t.key) :
        (zs.map fun u => if u.key == t.key then { u with columns } else u) = zs := by
      refine (List.map_congr_left fun z hz => ?_).trans (List.map_id zs)
      rw [if_neg (by simpa using hzs z hz)]
      rfl
    change (((xs ++ t :: ys).find? fun u => u.key == t.key).bind fun u =>
      updateFirst? (fun c => c.name == name) (ColumnOutline.describe text) u.columns).map _ = _
    have hdescribe : t.describe? ⟨.column t.key name, text⟩ =
        (updateFirst? (fun c => c.name == name) (ColumnOutline.describe text) t.columns).map
          fun columns => { t with columns } := rfl
    rw [hfind, Option.bind_some, hdescribe]
    cases updateFirst? (fun c => c.name == name) (ColumnOutline.describe text) t.columns with
    | none => rfl
    | some columns =>
      simp only [Option.map_some, List.map_append, List.map_cons, hkept columns xs hxs,
        hkept columns ys hys, beq_self_eq_true, if_true]

theorem key_describe? {t' : TableOutline} (h : t.describe? comment = some t') : t'.key = t.key := by
  rw [TableOutline.describe?] at h
  split at h
  · cases h
    rfl
  · obtain ⟨columns, -, rfl⟩ := Option.map_eq_some_iff.1 h
    rfl

/-- All comments on one table are written into it. -/
theorem foldlM_describe?_append {cs : List CommentDraft} (hxs : ∀ x ∈ xs, x.key ≠ t.key)
    (hys : ∀ y ∈ ys, y.key ≠ t.key) (hcs : ∀ c ∈ cs, c.target.key = t.key) :
    cs.foldlM SchemaDdl.describe? (xs ++ t :: ys) =
      (cs.foldlM TableOutline.describe? t).map fun t' => xs ++ t' :: ys := by
  induction cs generalizing t with
  | nil => rfl
  | cons c cs ih =>
    rw [List.foldlM_cons, List.foldlM_cons, describe?_append hxs hys (hcs c List.mem_cons_self)]
    cases h : t.describe? c with
    | none => rfl
    | some t' =>
      have hkey := key_describe? h
      exact ih (fun x hx => hkey ▸ hxs x hx) (fun y hy => hkey ▸ hys y hy)
        fun d hd => hkey ▸ hcs d (List.mem_cons_of_mem c hd)

end Describe

/-! ## Comments of a script -/

/-- The comments on columns from `cs` on, as they stand behind the table. -/
def commentsOn (key : QualifiedName) (cs : List ColumnOutline) : List CommentDraft :=
  cs.filterMap fun c => c.comment.map fun text => ⟨.column key c.name, some text⟩

theorem commentsOn_cons_none (key : QualifiedName) {c : ColumnOutline} (h : c.comment = none)
    (cs : List ColumnOutline) : commentsOn key (c :: cs) = commentsOn key cs := by
  rw [commentsOn, List.filterMap_cons_none (by rw [h]; rfl), commentsOn]

theorem commentsOn_cons_some (key : QualifiedName) {c : ColumnOutline} {text : String}
    (h : c.comment = some text) (cs : List ColumnOutline) :
    commentsOn key (c :: cs) = ⟨.column key c.name, some text⟩ :: commentsOn key cs := by
  rw [commentsOn, List.filterMap_cons_some (by rw [h]; rfl), commentsOn]

theorem describe?_column {t : TableOutline} {front back : List ColumnOutline} {c : ColumnOutline}
    (hcolumns : t.columns = front ++ c :: back) (hfront : ∀ b ∈ front, b.name ≠ c.name)
    (text : Option String) :
    t.describe? ⟨.column t.key c.name, text⟩ =
      some { t with columns := front ++ c.describe text :: back } := by
  have hupdate : updateFirst? (fun x => x.name == c.name) (ColumnOutline.describe text)
      (front ++ c :: back) = some (front ++ c.describe text :: back) := by
    rw [updateFirst?_append fun b hb => beq_eq_false_iff_ne.2 (hfront b hb), updateFirst?,
      if_pos (beq_self_eq_true c.name)]
    rfl
  change (updateFirst? (fun x => x.name == c.name) (ColumnOutline.describe text) t.columns).map _ = _
  rw [hcolumns, hupdate]
  rfl

/-- Comments on columns are written one after another, as each means a column that is the first one
so named. -/
theorem foldlM_commentsOn {t : TableOutline} {front cs : List ColumnOutline} {ds : List ColumnDraft}
    (hnames : ds.map ColumnDraft.name = cs.map fun c => c.name)
    (hcolumns : t.columns = front ++ ds.map fun d => { toColumnDraft := d })
    (hfront : ∀ b ∈ front, ∀ c ∈ cs, c.comment ≠ none → b.name ≠ c.name)
    (hfirst : cs.Pairwise fun b c => c.comment ≠ none → b.name ≠ c.name) :
    (commentsOn t.key cs).foldlM TableOutline.describe? t =
      some { t with columns := front ++ recomment ds cs } := by
  induction cs generalizing t front ds with
  | nil =>
    have hds : ds = [] := by simpa using hnames
    subst hds
    rw [List.map_nil] at hcolumns
    rw [recomment, List.zipWith_nil_right, ← hcolumns]
    rfl
  | cons c cs ih =>
    obtain ⟨d, ds, rfl, hname, hnames⟩ := List.map_eq_cons_iff.1 hnames
    replace hname : d.name = c.name := hname
    obtain ⟨hc, hfirst⟩ := List.pairwise_cons.1 hfirst
    have hmore (text : Option String) (b : ColumnOutline)
        (hb : b ∈ front ++ [{ toColumnDraft := d, comment := text }]) (x : ColumnOutline)
        (hx : x ∈ cs) (hcomment : x.comment ≠ none) : b.name ≠ x.name := by
      rcases List.mem_append.1 hb with hb | hb
      · exact hfront b hb x (List.mem_cons_of_mem c hx) hcomment
      · rw [List.mem_singleton.1 hb]
        exact hname ▸ hc x hx hcomment
    cases hcomment : c.comment with
    | none =>
      have hcolumns' : t.columns = (front ++ [{ toColumnDraft := d }]) ++
          ds.map fun d => { toColumnDraft := d } := by
        rw [hcolumns, List.map_cons, List.append_assoc]
        rfl
      rw [commentsOn_cons_none t.key hcomment, ih hnames hcolumns' (hmore none) hfirst]
      simp [recomment, hcomment]
    | some text =>
      let t' : TableOutline :=
        { t with
          columns := (front ++ [{ toColumnDraft := d, comment := some text }]) ++
            ds.map fun d => { toColumnDraft := d } }
      have hstep : t.describe? ⟨.column t.key c.name, some text⟩ = some t' := by
        have hahead (b : ColumnOutline) (hb : b ∈ front) : b.name ≠ d.name := by
          rw [hname]
          exact hfront b hb c List.mem_cons_self (by simp [hcomment])
        have := describe?_column hcolumns hahead (some text)
        rw [← hname, this]
        simp [t', ColumnOutline.describe]
      have hrest := ih (t := t') hnames rfl (hmore (some text)) hfirst
      rw [commentsOn_cons_some t.key hcomment, List.foldlM_cons, hstep]
      refine hrest.trans ?_
      simp [t', recomment, hcomment]

/-! ## Names of foreign keys -/

theorem constraintNames_eq {table : String} {used : List String} {fks : List ForeignKeyDraft}
    (hclean : ∀ fk ∈ fks, Naming.Clean fk.name) (hused : ∀ fk ∈ fks, fk.name ∉ used)
    (hnodup : (fks.map ForeignKeyDraft.name).Nodup) :
    constraintNames table used fks = fks.map ForeignKeyDraft.name := by
  induction fks generalizing used with
  | nil => rfl
  | cons fk fks ih =>
    obtain ⟨hfk, hnodup⟩ := List.nodup_cons.1 hnodup
    have hname (fallback : String) :
        Naming.ensureUnique (Naming.sanitize fk.name fallback) used = fk.name := by
      rw [(hclean fk List.mem_cons_self).sanitize_eq]
      exact Naming.ensureUnique_of_free (hused fk List.mem_cons_self)
    rw [constraintNames, hname, List.map_cons, ih (fun x hx => hclean x (List.mem_cons_of_mem fk hx)) _ hnodup]
    intro x hx
    rw [List.mem_cons, not_or]
    exact ⟨fun heq => hfk (heq ▸ List.mem_map_of_mem hx), hused x (List.mem_cons_of_mem fk hx)⟩

theorem TableOutline.Legible.foreignKeys_draft {t : TableOutline} (h : t.Legible) (inferId : Bool) :
    (t.draft inferId).outline.foreignKeys = t.foreignKeys := by
  have hnames : constraintNames t.key.name [] t.foreignKeys =
      t.foreignKeys.map ForeignKeyDraft.name :=
    constraintNames_eq h.clean (fun _ _ => List.not_mem_nil) h.constraints
  change List.zipWith (fun name (fk : ForeignKeyDraft) => { fk with name })
    (constraintNames t.key.name [] t.foreignKeys) t.foreignKeys = _
  rw [hnames, List.zipWith_map_left]
  refine (List.zipWith_self ..).trans ?_
  exact List.map_id t.foreignKeys

/-- The comments on a table are all written into it. -/
theorem TableOutline.Legible.foldlM_commentDrafts {t : TableOutline} (h : t.Legible)
    (inferId : Bool) :
    t.commentDrafts.foldlM TableOutline.describe? (t.draft inferId).outline =
      some (t.reread inferId) := by
  let t' : TableOutline := { (t.draft inferId).outline with comment := t.comment }
  have htable : (t.comment.toList.map fun text => (⟨.table t.key, some text⟩ : CommentDraft)).foldlM
      TableOutline.describe? (t.draft inferId).outline = some t' := by
    cases hcomment : t.comment <;> simp only [t', hcomment] <;> rfl
  have hnames : (rekeyed inferId t.drafts).map ColumnDraft.name = t.columns.map fun c => c.name := by
    rw [map_name_rekeyed, TableOutline.drafts, List.map_map]
    rfl
  have hcolumns : (commentsOn t'.key t.columns).foldlM TableOutline.describe? t' =
      some { t' with columns := [] ++ recomment (rekeyed inferId t.drafts) t.columns } :=
    foldlM_commentsOn hnames rfl (fun b hb => by cases hb) h.commentedFirst
  have hfks : t'.foreignKeys = t.foreignKeys := h.foreignKeys_draft inferId
  rw [TableOutline.commentDrafts, List.foldlM_append, htable]
  refine hcolumns.trans ?_
  rw [List.nil_append, hfks]
  rfl

theorem key_of_mem_commentDrafts {t : TableOutline} {c : CommentDraft} (hc : c ∈ t.commentDrafts) :
    c.target.key = t.key := by
  rcases List.mem_append.1 hc with hc | hc
  · obtain ⟨text, -, rfl⟩ := List.mem_map.1 hc
    rfl
  · obtain ⟨d, -, hd⟩ := List.mem_filterMap.1 hc
    obtain ⟨text, -, rfl⟩ := Option.map_eq_some_iff.1 hd
    rfl

theorem foldlM_tableComments (inferId : Bool) {front ts : List TableOutline}
    (hlegible : ∀ t ∈ ts, t.Legible) (hkeys : (ts.map TableOutline.key).Nodup)
    (hfront : ∀ x ∈ front, ∀ t ∈ ts, x.key ≠ t.key) :
    (ts.flatMap TableOutline.commentDrafts).foldlM describe?
        (front ++ ts.map fun t => (t.draft inferId).outline) =
      some (front ++ ts.map (TableOutline.reread inferId)) := by
  induction ts generalizing front with
  | nil => rfl
  | cons t ts ih =>
    obtain ⟨ht, hkeys⟩ := List.nodup_cons.1 hkeys
    have hbehind (y : TableOutline) (hy : y ∈ ts.map fun t => (t.draft inferId).outline) :
        y.key ≠ t.key := by
      obtain ⟨u, hu, rfl⟩ := List.mem_map.1 hy
      exact fun heq => ht (List.mem_map.2 ⟨u, hu, heq⟩)
    have htable : t.commentDrafts.foldlM describe?
        (front ++ (t.draft inferId).outline :: ts.map fun t => (t.draft inferId).outline) =
        some (front ++ t.reread inferId :: ts.map fun t => (t.draft inferId).outline) := by
      have hahead (x : TableOutline) (hx : x ∈ front) : x.key ≠ (t.draft inferId).outline.key :=
        hfront x hx t List.mem_cons_self
      have hcomments (c : CommentDraft) (hc : c ∈ t.commentDrafts) :
          c.target.key = (t.draft inferId).outline.key := by
        rw [key_of_mem_commentDrafts hc]
        rfl
      rw [foldlM_describe?_append hahead hbehind hcomments,
        (hlegible t List.mem_cons_self).foldlM_commentDrafts inferId]
      rfl
    have hmore (x : TableOutline) (hx : x ∈ front ++ [t.reread inferId]) (u : TableOutline)
        (hu : u ∈ ts) : x.key ≠ u.key := by
      rcases List.mem_append.1 hx with hx | hx
      · exact hfront x hx u (List.mem_cons_of_mem t hu)
      · rw [List.mem_singleton.1 hx]
        exact fun heq => ht (heq ▸ List.mem_map_of_mem hu)
    have hrest := ih (fun u hu => hlegible u (List.mem_cons_of_mem t hu)) hkeys hmore
    rw [List.append_assoc, List.append_assoc, List.singleton_append, List.singleton_append] at hrest
    rw [List.flatMap_cons, List.foldlM_append, List.map_cons, htable]
    exact hrest

/-! ## Reading back -/

namespace Outline

variable {o : Outline}

theorem Distinct.draft (h : o.Distinct) (inferId : Bool) : (o.draft inferId).Distinct := by
  refine ⟨h.nodup_createdSchemas, fun t ht => mem_defaultSchema_cons (h.types t ht), ?_, ?_⟩
  · intro t ht
    obtain ⟨u, hu, rfl⟩ := List.mem_map.1 ht
    exact mem_defaultSchema_cons (h.tables u hu)
  · have := h.keys
    rw [Outline.draft, List.map_map]
    exact this

theorem map_name_draft (inferId : Bool) (t : TableOutline) :
    (t.draft inferId).columns.map ColumnDraft.name = t.drafts.map ColumnDraft.name :=
  map_name_rekeyed inferId t.drafts

/-- The draft of a script declares the outline up to keys. -/
theorem Legible.declares (h : o.Legible) (inferId : Bool) :
    (o.draft inferId).Declares (o.reread inferId) := by
  refine ⟨rfl, rfl, ?_, ?_⟩
  · intro t ht fk hfk
    obtain ⟨u, hu, rfl⟩ := List.mem_map.1 ht
    obtain ⟨v, hv, hkey, hcolumn⟩ := h.targets u hu fk hfk
    refine ⟨?_, v.draft inferId, List.mem_map_of_mem hv, hkey, ?_⟩
    · rw [map_name_draft]
      exact (h.each u hu).sources fk hfk
    · rwa [map_name_draft]
  · have hnone (x : TableOutline) (hx : x ∈ []) (t : TableOutline) (_ : t ∈ o.tables) :
        x.key ≠ t.key := by cases hx
    have := foldlM_tableComments inferId h.each h.keys hnone
    change (o.tables.flatMap TableOutline.commentDrafts).foldlM describe?
      ((o.tables.map (TableOutline.draft inferId)).map TableDraft.outline) = _
    rw [List.map_map]
    exact this

/-- A legible outline is read back from its script up to the keys of its columns. -/
theorem Legible.exists_parse (h : o.Legible) {ids : Ids} (hids : ids.Distinct) (options : Options) :
    ∃ m, parse ids options (Ddl.scriptText o.script) = .ok m ∧
      m.outline = o.reread options.inferId := by
  obtain ⟨m, hm, houtline⟩ := exists_resolve_of_declares hids
    (h.toDistinct.draft options.inferId) (h.declares options.inferId)
  refine ⟨m, ?_, houtline⟩
  rw [parse, h.ofStatements_script options]
  exact hm

end Outline

end SchemaDdl
