import SchemaDdl.Proofs.Outline.Placement

/-!
# Comments on outlines

Writing comments into the tables of a model and into their outlines comes to the same.
-/

namespace SchemaDdl

open Script

section UpdateFirst

variable {α β : Type} {p : α → Bool} {f : α → α} {g : α → β} {xs ys : List α}

theorem updateFirst?_map {q : β → Bool} {f' : β → β} (hq : ∀ x ∈ xs, q (g x) = p x)
    (hf : ∀ x ∈ xs, f' (g x) = g (f x)) :
    updateFirst? q f' (xs.map g) = (updateFirst? p f xs).map (List.map g) := by
  induction xs with
  | nil => rfl
  | cons x xs ih =>
    have hmore := ih (fun y hy => hq y (List.mem_cons_of_mem x hy))
      fun y hy => hf y (List.mem_cons_of_mem x hy)
    rw [List.map_cons, updateFirst?, updateFirst?, hq x List.mem_cons_self,
      hf x List.mem_cons_self, hmore]
    split
    · rfl
    · cases updateFirst? p f xs <;> rfl

/-- What is changed is the first element that satisfies `p`. -/
theorem exists_of_updateFirst? (h : updateFirst? p f xs = some ys) :
    ∃ front x back, xs = front ++ x :: back ∧ (∀ b ∈ front, p b = false) ∧ p x = true ∧
      ys = front ++ f x :: back := by
  induction xs generalizing ys with
  | nil => cases h
  | cons x xs ih =>
    rw [updateFirst?] at h
    by_cases hx : p x = true
    · rw [if_pos hx] at h
      cases h
      exact ⟨[], x, xs, rfl, List.forall_mem_nil _, hx, rfl⟩
    · rw [if_neg hx] at h
      obtain ⟨zs, hzs, rfl⟩ := Option.map_eq_some_iff.1 h
      obtain ⟨front, y, back, rfl, hfront, hy, rfl⟩ := ih hzs
      refine ⟨x :: front, y, back, rfl, fun b hb => ?_, hy, rfl⟩
      rcases List.mem_cons.1 hb with rfl | hb
      · simpa using hx
      · exact hfront b hb

/-- What the change keeps is kept in the whole list. -/
theorem map_updateFirst? (h : updateFirst? p f xs = some ys) (hg : ∀ x, g (f x) = g x) :
    ys.map g = xs.map g := by
  obtain ⟨front, x, back, rfl, -, -, rfl⟩ := exists_of_updateFirst? h
  rw [List.map_append, List.map_append, List.map_cons, List.map_cons, hg]

theorem mem_of_updateFirst? (h : updateFirst? p f xs = some ys) {y : α} (hy : y ∈ ys) :
    y ∈ xs ∨ ∃ x ∈ xs, y = f x := by
  obtain ⟨front, x, back, rfl, -, -, rfl⟩ := exists_of_updateFirst? h
  rw [List.mem_append, List.mem_cons] at hy
  rcases hy with hy | rfl | hy
  · exact .inl (List.mem_append_left _ hy)
  · exact .inr ⟨x, List.mem_append_right _ List.mem_cons_self, rfl⟩
  · exact .inl (List.mem_append_right _ (List.mem_cons_of_mem x hy))

end UpdateFirst

def Column.describe (text : Option String) (c : Column) : Column :=
  { c with comment := text }

def Table.describe (text : Option String) (t : Table) : Table :=
  { t with comment := text }

def ColumnOutline.describe (text : Option String) (c : ColumnOutline) : ColumnOutline :=
  { c with comment := text }

def TableOutline.describe (text : Option String) (t : TableOutline) : TableOutline :=
  { t with comment := text }

/-- Writes a comment on the table or the column that it names. -/
def describe? (ts : List TableOutline) (comment : CommentDraft) : Option (List TableOutline) :=
  match comment.target with
  | .table key => updateFirst? (fun t => t.key == key) (TableOutline.describe comment.text) ts
  | .column key name =>
    ((ts.find? fun t => t.key == key).bind fun t =>
      updateFirst? (fun c => c.name == name) (ColumnOutline.describe comment.text) t.columns).map
        fun columns => ts.map fun t => if t.key == key then { t with columns } else t

/-- The tables are told apart by their keys, which the model agrees with. -/
structure KeyedBy (m : Model) (tables : KeyedTables) : Prop where
  nodup : (tables.map Prod.fst).Nodup
  key : ∀ p ∈ tables, m.qualify p.2.schemaId p.2.name = p.1

/-- Keys and tables, comments aside. -/
def plainTables (tables : KeyedTables) : KeyedTables :=
  tables.map fun p => (p.1, p.2.plain)

def outlines (m : Model) (tables : KeyedTables) : List TableOutline :=
  tables.map fun p => m.tableOutline p.2

section Comment

variable {m : Model} {tables tables' : KeyedTables} {comment : CommentDraft}

theorem KeyedBy.congr (h : KeyedBy m tables) (heq : plainTables tables' = plainTables tables) :
    KeyedBy m tables' := by
  constructor
  · have hfst := congrArg (List.map Prod.fst) heq
    rw [plainTables, plainTables, List.map_map, List.map_map] at hfst
    have := h.nodup
    rwa [show Prod.fst = Prod.fst ∘ fun p : QualifiedName × Table => (p.1, p.2.plain) from rfl,
      ← hfst] at this
  · intro p hp
    have hmem : (p.1, p.2.plain) ∈ plainTables tables := heq ▸ List.mem_map_of_mem hp
    obtain ⟨q, hq, hqp⟩ := List.mem_map.1 hmem
    obtain ⟨hkey, hplain⟩ := Prod.mk.inj hqp
    have hschema : q.2.schemaId = p.2.schemaId := by
      have := congrArg Table.schemaId hplain
      exact this
    have hname : q.2.name = p.2.name := by
      have := congrArg Table.name hplain
      exact this
    rw [← hschema, ← hname, h.key q hq, hkey]

theorem KeyedBy.eq_of_find? (h : KeyedBy m tables) {key : QualifiedName}
    {p q : QualifiedName × Table} (hp : tables.find? (fun r => r.1 == key) = some p)
    (hq : q ∈ tables) (hkey : q.1 = key) : q = p := by
  have hpkey : p.1 = key := by simpa using List.find?_some hp
  exact List.inj_on_of_nodup_map h.nodup hq (List.mem_of_find?_eq_some hp) (hkey.trans hpkey.symm)

theorem plain_with_columns {t : Table} {columns : List Column}
    (h : columns.map Column.plain = t.columns.map Column.plain) :
    { t with columns }.plain = t.plain := by
  rw [Table.plain, Table.plain, h]

theorem map_plain_describe {name : String} {text : Option String} {cs cs' : List Column}
    (h : updateFirst? (fun c => c.name == name) (Column.describe text) cs = some cs') :
    cs'.map Column.plain = cs.map Column.plain :=
  map_updateFirst? h fun _ => rfl

theorem applyComment_table (tables : KeyedTables) (key : QualifiedName) (text : Option String) :
    (applyComment tables ⟨.table key, text⟩).toOption =
      updateFirst? (fun p => p.1 == key) (fun p => (p.1, p.2.describe text)) tables := by
  rw [applyComment]
  simp only
  split
  · rename_i hsome
    exact hsome.symm
  · rename_i hnone
    exact hnone.symm

theorem applyComment_column (tables : KeyedTables) (key : QualifiedName) (name : String)
    (text : Option String) :
    (applyComment tables ⟨.column key name, text⟩).toOption =
      ((tables.find? fun p => p.1 == key).bind fun p =>
        updateFirst? (fun c => c.name == name) (Column.describe text) p.2.columns).map fun columns =>
        tables.map fun p => (p.1, if p.1 == key then { p.2 with columns } else p.2) := by
  have hupdate {result : Option (List Column)}
      (h : ((tables.find? fun p => p.1 == key).bind fun p =>
        updateFirst? (fun c => c.name == name) (fun c => { c with comment := text }) p.2.columns) =
          result) :
      ((tables.find? fun p => p.1 == key).bind fun p =>
        updateFirst? (fun c => c.name == name) (Column.describe text) p.2.columns) = result := h
  rw [applyComment]
  simp only
  split
  · rename_i hsome
    rw [hupdate hsome]
    rfl
  · rename_i hnone
    rw [hupdate hnone]
    rfl

/-- A comment changes nothing but comments. -/
theorem plainTables_applyComment (hkeys : KeyedBy m tables)
    (h : applyComment tables comment = .ok tables') : plainTables tables' = plainTables tables := by
  have hsome : (applyComment tables comment).toOption = some tables' := congrArg _ h
  obtain ⟨target, text⟩ := comment
  cases target with
  | table key =>
    rw [applyComment_table] at hsome
    exact map_updateFirst? hsome fun _ => rfl
  | column key name =>
    rw [applyComment_column] at hsome
    obtain ⟨columns, hcolumns, rfl⟩ := Option.map_eq_some_iff.1 hsome
    obtain ⟨p, hp, hupdate⟩ := Option.bind_eq_some_iff.1 hcolumns
    rw [plainTables, plainTables, List.map_map]
    refine List.map_congr_left fun q hq => ?_
    by_cases hkey : q.1 = key
    · cases hkeys.eq_of_find? hp hq hkey
      simp [hkey, plain_with_columns (map_plain_describe hupdate)]
    · simp [hkey]

theorem tableOutline_describe (m : Model) (t : Table) (text : Option String) :
    m.tableOutline (t.describe text) = (m.tableOutline t).describe text := by
  have hfks : m.foreignKeyOutline? (t.describe text) = m.foreignKeyOutline? t :=
    Model.foreignKeyOutline?_congr rfl rfl
  rw [Model.tableOutline, hfks]
  rfl

theorem tableOutline_with_columns (m : Model) {t : Table} {columns : List Column}
    (h : columns.map Column.plain = t.columns.map Column.plain) :
    m.tableOutline { t with columns } =
      { m.tableOutline t with columns := columns.map Column.outline } := by
  have hfks : m.foreignKeyOutline? { t with columns } = m.foreignKeyOutline? t :=
    Model.foreignKeyOutline?_congr rfl (plain_with_columns h)
  rw [Model.tableOutline, hfks]
  rfl

/-- A comment on a model is the same comment on its outline. -/
theorem outlines_applyComment (hkeys : KeyedBy m tables) (comment : CommentDraft) :
    (applyComment tables comment).toOption.map (outlines m) =
      describe? (outlines m tables) comment := by
  have hkey (key : QualifiedName) (p : QualifiedName × Table) (hp : p ∈ tables) :
      ((m.tableOutline p.2).key == key) = (p.1 == key) := by
    rw [← hkeys.key p hp]
    rfl
  obtain ⟨target, text⟩ := comment
  cases target with
  | table key =>
    rw [applyComment_table]
    exact (updateFirst?_map (hkey key) fun p _ => (tableOutline_describe m p.2 text).symm).symm
  | column key name =>
    have hfind : (outlines m tables).find? (fun t => t.key == key) =
        (tables.find? fun p => p.1 == key).map fun p => m.tableOutline p.2 := by
      rw [outlines, List.find?_map]
      exact congrArg _ (List.find?_congr fun p hp => hkey key p hp)
    rw [applyComment_column, describe?]
    simp only [hfind]
    cases hp : tables.find? fun p => p.1 == key with
    | none => rfl
    | some p =>
      have hupdate : updateFirst? (fun c => c.name == name) (ColumnOutline.describe text)
          (m.tableOutline p.2).columns =
          (updateFirst? (fun c => c.name == name) (Column.describe text) p.2.columns).map
            (List.map Column.outline) :=
        updateFirst?_map (fun _ _ => rfl) fun _ _ => rfl
      simp only [Option.bind_some, Option.map_some, hupdate]
      cases hcolumns : updateFirst? (fun c => c.name == name) (Column.describe text) p.2.columns with
      | none => rfl
      | some columns =>
        simp only [Option.map_some, outlines, List.map_map]
        refine congrArg some (List.map_congr_left fun q hq => ?_)
        simp only [Function.comp_apply, hkey key q hq]
        by_cases hqkey : q.1 = key
        · cases hkeys.eq_of_find? hp hq hqkey
          simp [hqkey, tableOutline_with_columns m (map_plain_describe hcolumns)]
        · simp [hqkey]

/-- The comments of a script are written into the model as into its outline. -/
theorem outlines_applyComments (hkeys : KeyedBy m tables) (comments : List CommentDraft) :
    (comments.foldlM applyComment tables).toOption.map (outlines m) =
        comments.foldlM describe? (outlines m tables) ∧
      ∀ tables', comments.foldlM applyComment tables = .ok tables' →
        plainTables tables' = plainTables tables := by
  induction comments generalizing tables with
  | nil => exact ⟨rfl, fun tables' h => by cases h; rfl⟩
  | cons c cs ih =>
    have hstep := outlines_applyComment hkeys c
    rw [List.foldlM_cons, List.foldlM_cons, ← hstep]
    cases hc : applyComment tables c with
    | error e => exact ⟨rfl, fun tables' h => by cases h⟩
    | ok next =>
      have hplain := plainTables_applyComment hkeys hc
      obtain ⟨hfold, hkept⟩ := ih (hkeys.congr hplain)
      refine ⟨hfold, fun tables' h => (hkept tables' h).trans hplain⟩

end Comment

end SchemaDdl
