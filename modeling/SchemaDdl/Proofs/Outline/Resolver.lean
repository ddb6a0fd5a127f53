import SchemaDdl.Proofs.Outline.Resolution
import SchemaDdl.Proofs.Reading.Sound

/-!
# What resolving comes to

A draft is resolved in steps that may fail: the foreign keys of table after table, and then comment
after comment. Together they come to a list of faults, the first of which is reported, and to a model
that is given outright.
-/

namespace SchemaDdl

open Script

/-! ## Steps with a known fault -/

section Faults

variable {ε α β : Type}

/-- The fault, if there is one, or else `a`. -/
def okUnless (fault : Option ε) (a : α) : Except ε α :=
  match fault with
  | some e => .error e
  | none => .ok a

theorem okUnless_eq_ok_iff {fault : Option ε} {a b : α} :
    okUnless fault a = .ok b ↔ fault = none ∧ b = a := by
  cases fault with
  | none => exact ⟨fun h => ⟨rfl, (Except.ok.inj h).symm⟩, fun h => h.2 ▸ rfl⟩
  | some e =>
    constructor
    · intro h
      cases h
    · rintro ⟨h, -⟩
      cases h

theorem okUnless_eq_error_iff {fault : Option ε} {a : α} {e : ε} :
    okUnless fault a = .error e ↔ fault = some e := by
  cases fault with
  | none =>
    constructor <;> intro h <;> cases h
  | some e' => exact ⟨fun h => congrArg some (Except.error.inj h), fun h => by cases h; rfl⟩

theorem okUnless_bind {fault fault' : Option ε} {a : α} {b : β} {f : α → Except ε β}
    (h : f a = okUnless fault' b) : (okUnless fault a >>= f) = okUnless (fault.or fault') b := by
  cases fault with
  | none => exact h
  | some e => rfl

/-- A run reports the fault of the first step that has one. -/
theorem mapM_eq_okUnless {f : α → Except ε β} {fault : α → Option ε} {g : α → β} {xs : List α}
    (h : ∀ x ∈ xs, f x = okUnless (fault x) (g x)) :
    xs.mapM f = okUnless (xs.findSome? fault) (xs.map g) := by
  induction xs with
  | nil => rfl
  | cons x xs ih =>
    rw [List.mapM_cons, h x List.mem_cons_self, ih fun y hy => h y (List.mem_cons_of_mem x hy),
      List.findSome?_cons, List.map_cons]
    cases fault x with
    | some e => rfl
    | none => cases xs.findSome? fault <;> rfl

/-- The first element of a list, after changes that depend on the place. -/
theorem find?_mapIdx {p : β → Bool} {q : α → Bool} {f : Nat → α → β} (h : ∀ i a, p (f i a) = q a)
    (xs : List α) : (xs.mapIdx f).find? p = (xs.find? q).map (f (xs.findIdx q)) := by
  induction xs generalizing f with
  | nil => rfl
  | cons x xs ih =>
    rw [List.mapIdx_cons, List.find?_cons, List.find?_cons, List.findIdx_cons, h,
      ih (f := fun i => f (i + 1)) fun i => h (i + 1)]
    cases q x <;> rfl

/-- A change of the first element that satisfies `p`, by its place. -/
theorem updateFirst?_eq_mapIdx (p : α → Bool) (f : α → α) (xs : List α) :
    updateFirst? p f xs =
      if xs.any p then some (xs.mapIdx fun i x => if i = xs.findIdx p then f x else x) else none := by
  induction xs with
  | nil => rfl
  | cons x xs ih =>
    rw [updateFirst?, List.any_cons, List.findIdx_cons, List.mapIdx_cons]
    cases hx : p x with
    | true =>
      have hrest : (xs.mapIdx fun _ y => y) = xs := List.ext_getElem (by simp) fun i hi hj => by simp
      simp [hrest]
    | false =>
      rw [ih]
      cases xs.any p <;> simp

theorem updateFirst?_mapIdx {p : β → Bool} {q : α → Bool} {f : β → β} {g k : Nat → α → β}
    {xs : List α} (hp : ∀ i a, p (g i a) = q a)
    (hg : ∀ (i : Nat) (hi : i < xs.length),
      (if i = xs.findIdx q then f (g i xs[i]) else g i xs[i]) = k i xs[i]) :
    updateFirst? p f (xs.mapIdx g) = if xs.any q then some (xs.mapIdx k) else none := by
  have htests : (xs.mapIdx g).map p = xs.map q := map_mapIdx_eq_map g p xs fun i a _ => hp i a
  have hany : (xs.mapIdx g).any p = xs.any q := by
    have := congrArg (List.any · id) htests
    rwa [List.any_map, List.any_map] at this
  have hindex : (xs.mapIdx g).findIdx p = xs.findIdx q := by
    have := congrArg (List.findIdx id) htests
    rwa [List.findIdx_map, List.findIdx_map] at this
  rw [updateFirst?_eq_mapIdx, hany, hindex, List.mapIdx_mapIdx]
  refine if_congr Iff.rfl (congrArg some ?_) rfl
  exact List.mapIdx_eq_mapIdx_iff.2 hg

end Faults

namespace Script

/-! ## Faults -/

/-- The table or the column is there. -/
def Draft.HasTarget (d : Draft) : CommentTarget → Prop
  | .table key => ∃ t ∈ d.tables, t.key = key
  | .column key name => ∃ t ∈ d.tables, t.key = key ∧ name ∈ t.columns.map ColumnDraft.name

instance Draft.decidableHasTarget (d : Draft) (target : CommentTarget) :
    Decidable (d.HasTarget target) :=
  match target with
  | .table key => inferInstanceAs (Decidable (∃ t ∈ d.tables, t.key = key))
  | .column key name => inferInstanceAs
      (Decidable (∃ t ∈ d.tables, t.key = key ∧ name ∈ t.columns.map ColumnDraft.name))

instance Draft.decidableHasEnds (d : Draft) (t : TableDraft) (fk : ForeignKeyDraft) :
    Decidable (d.HasEnds t fk) :=
  inferInstanceAs (Decidable (fk.fromColumn ∈ t.columns.map ColumnDraft.name ∧
    d.HasTarget (.column fk.target fk.targetColumn)))

/-- What is wrong with a foreign key of the table `t`. The column that it starts from comes first. -/
def Draft.keyFault? (d : Draft) (t : TableDraft) (fk : ForeignKeyDraft) : Option ParseError :=
  if fk.fromColumn ∈ t.columns.map ColumnDraft.name then
    if d.HasTarget (.column fk.target fk.targetColumn) then none
    else some (.missingReference fk.name s!"{fk.target.spelling}.{fk.targetColumn}")
  else some (.missingReference fk.name s!"{t.key.spelling}.{fk.fromColumn}")

def Draft.commentFault? (d : Draft) (c : CommentDraft) : Option ParseError :=
  if d.HasTarget c.target then none else some (.missingCommentTarget c.target.spelling)

/-- All that is wrong with a draft, foreign keys first, each list in the order of the script. -/
def Draft.faults (d : Draft) : List ParseError :=
  (d.tables.flatMap fun t => t.foreignKeys.filterMap (d.keyFault? t)) ++
    d.comments.filterMap d.commentFault?

theorem Draft.keyFault?_eq_none_iff {d : Draft} {t : TableDraft} {fk : ForeignKeyDraft} :
    d.keyFault? t fk = none ↔ d.HasEnds t fk := by
  rw [keyFault?]
  by_cases hfrom : fk.fromColumn ∈ t.columns.map ColumnDraft.name
  · rw [if_pos hfrom]
    by_cases hto : d.HasTarget (.column fk.target fk.targetColumn)
    · rw [if_pos hto]
      exact iff_of_true rfl ⟨hfrom, hto⟩
    · rw [if_neg hto]
      exact iff_of_false (Option.some_ne_none _) fun h => hto h.2
  · rw [if_neg hfrom]
    exact iff_of_false (Option.some_ne_none _) fun h => hfrom h.1

theorem Draft.commentFault?_eq_none_iff {d : Draft} {c : CommentDraft} :
    d.commentFault? c = none ↔ d.HasTarget c.target := by
  rw [commentFault?]
  split
  · rename_i h
    exact iff_of_true rfl h
  · rename_i h
    exact iff_of_false (Option.some_ne_none _) h

theorem Draft.head?_faults_eq_none_iff {d : Draft} :
    d.faults.head? = none ↔ (∀ t ∈ d.tables, ∀ fk ∈ t.foreignKeys, d.HasEnds t fk) ∧
      ∀ c ∈ d.comments, d.HasTarget c.target := by
  rw [List.head?_eq_none_iff, faults, List.append_eq_nil_iff, List.flatMap_eq_nil_iff,
    List.filterMap_eq_nil_iff]
  simp only [List.filterMap_eq_nil_iff, keyFault?_eq_none_iff, commentFault?_eq_none_iff]

/-! ## The resolved model -/

/-- The place of the first column so named. -/
def TableDraft.columnIndex (t : TableDraft) (name : String) : Nat :=
  t.columns.findIdx fun c => c.name == name

def Draft.tableIndex (d : Draft) (key : QualifiedName) : Nat :=
  d.tables.findIdx fun t => t.key == key

def Draft.table? (d : Draft) (key : QualifiedName) : Option TableDraft :=
  d.tables.find? fun t => t.key == key

/-- The text of the last comment on the target, unless it has none or an empty one. -/
def lastComment (comments : List CommentDraft) (target : CommentTarget) : Option String :=
  ((comments.reverse.find? fun c => c.target == target).bind CommentDraft.text).filter (· != "")

/-- The `j`-th column of the `i`-th table. Comments are on the first column so named. -/
def TableDraft.resolvedColumn (ids : Ids) (comments : List CommentDraft) (i : Nat) (t : TableDraft)
    (j : Nat) (c : ColumnDraft) : Column :=
  { c.place (ids.column i j) with
    comment := if j = t.columnIndex c.name then lastComment comments (.column t.key c.name) else none }

/-- The ends of a foreign key of the `i`-th table. -/
def Draft.ends (ids : Ids) (d : Draft) (i : Nat) (t : TableDraft) (fk : ForeignKeyDraft) : Ends where
  fromColumnId := ids.column i (t.columnIndex fk.fromColumn)
  toTableId := ids.table (d.tableIndex fk.target)
  toColumnId := ids.column (d.tableIndex fk.target)
    ((d.table? fk.target).elim 0 fun u => u.columnIndex fk.targetColumn)

/-- The `i`-th table under the given comments. -/
def Draft.resolvedTable (ids : Ids) (d : Draft) (comments : List CommentDraft) (i : Nat)
    (t : TableDraft) : Table where
  id := ids.table i
  schemaId := schemaId ids d.schemas t.key.schema
  name := t.key.name
  comment := lastComment comments (.table t.key)
  columns := t.columns.mapIdx (t.resolvedColumn ids comments i)
  foreignKeys := ((constraintNames t.key.name [] t.foreignKeys).zip t.foreignKeys).mapIdx
    fun j (name, fk) => foreignKey (ids.foreignKey i j) name (d.ends ids i t fk) fk

/-- What a draft without faults is resolved to. -/
def Draft.resolved (ids : Ids) (d : Draft) : Model :=
  d.model ids (d.tables.mapIdx (d.resolvedTable ids d.comments))

/-! ## Foreign keys -/

theorem columnId?_place (ids : Ids) (schemas : List String) (i : Nat) (t : TableDraft)
    (name : String) : (t.place ids schemas i).columnId? name =
      if name ∈ t.columns.map ColumnDraft.name then some (ids.column i (t.columnIndex name))
      else none := by
  have hfind : (t.place ids schemas i).columnId? name =
      (t.columns.find? fun c => c.name == name).map fun _ => ids.column i (t.columnIndex name) := by
    have hplaced := find?_mapIdx (f := fun j (c : ColumnDraft) => c.place (ids.column i j))
      (p := fun c => c.name == name) (q := fun c => c.name == name) (fun _ _ => rfl) t.columns
    rw [Placed.columnId?, Table.columnNamed?, TableDraft.place]
    simp only [hplaced, Option.map_map]
    rfl
  rw [hfind]
  by_cases hname : name ∈ t.columns.map ColumnDraft.name
  · obtain ⟨c, hc, rfl⟩ := List.mem_map.1 hname
    obtain ⟨c', hc'⟩ := Option.isSome_iff_exists.1
      (List.find?_isSome (p := fun d : ColumnDraft => d.name == c.name).2 ⟨c, hc, beq_self_eq_true _⟩)
    rw [if_pos hname, hc']
    rfl
  · have hnone : (t.columns.find? fun c => c.name == name) = none := by
      rw [List.find?_eq_none]
      intro c hc hbeq
      exact hname (beq_iff_eq.1 hbeq ▸ List.mem_map_of_mem hc)
    rw [if_neg hname, hnone]
    rfl

theorem findPlaced?_placed (ids : Ids) (d : Draft) (key : QualifiedName) :
    findPlaced? (d.placed ids) key =
      (d.table? key).map fun u => u.place ids d.schemas (d.tableIndex key) := by
  rw [findPlaced?, Draft.placed, find?_mapIdx (q := fun t : TableDraft => t.key == key) fun _ _ => rfl]
  rfl

theorem hasTarget_column_iff {d : Draft} (hkeys : (d.tables.map TableDraft.key).Nodup)
    {key : QualifiedName} {name : String} : d.HasTarget (.column key name) ↔
      ∃ t, d.table? key = some t ∧ name ∈ t.columns.map ColumnDraft.name := by
  constructor
  · rintro ⟨t, ht, rfl, hname⟩
    exact ⟨t, find?_eq_of_nodup hkeys ht, hname⟩
  · rintro ⟨t, ht, hname⟩
    exact ⟨t, List.mem_of_find?_eq_some ht, by simpa using List.find?_some ht, hname⟩

theorem resolveEnds_eq {d : Draft} (hkeys : (d.tables.map TableDraft.key).Nodup) (ids : Ids) (i : Nat)
    (t : TableDraft) (fk : ForeignKeyDraft) :
    resolveEnds (d.placed ids) (t.place ids d.schemas i) fk =
      okUnless (d.keyFault? t fk) (d.ends ids i t fk) := by
  rw [resolveEnds, Draft.keyFault?, columnId?_place, findPlaced?_placed]
  by_cases hfrom : fk.fromColumn ∈ t.columns.map ColumnDraft.name
  · rw [if_pos hfrom, if_pos hfrom, Draft.ends]
    simp only [hasTarget_column_iff hkeys]
    cases d.table? fk.target with
    | none => simp [okUnless, resolveEnds.missing]
    | some u =>
      simp only [Option.map_some, columnId?_place, Option.some.injEq, exists_eq_left',
        Option.elim_some]
      by_cases hto : fk.targetColumn ∈ u.columns.map ColumnDraft.name
      · rw [if_pos hto, if_pos hto]
        rfl
      · rw [if_neg hto, if_neg hto]
        rfl
  · rw [if_neg hfrom, if_neg hfrom]
    rfl

theorem mapIdx_zip_map_zip {α β γ δ : Type} (f : Nat → (α × γ) × β → δ) (g : β → γ) (xs : List α)
    (ys : List β) : ((xs.zip (ys.map g)).zip ys).mapIdx f =
      (xs.zip ys).mapIdx fun i p => f i ((p.1, g p.2), p.2) :=
  List.ext_getElem (by simp) fun i hi hj => by simp

theorem resolvedColumn_nil (ids : Ids) (i : Nat) (t : TableDraft) (j : Nat) (c : ColumnDraft) :
    t.resolvedColumn ids [] i j c = c.place (ids.column i j) := by
  have hnone : lastComment [] (.column t.key c.name) = none := rfl
  rw [TableDraft.resolvedColumn, hnone, ite_self]
  rfl

theorem resolveForeignKeys_eq {d : Draft} (hkeys : (d.tables.map TableDraft.key).Nodup) (ids : Ids)
    (i : Nat) (t : TableDraft) :
    resolveForeignKeys ids (d.placed ids) i (t.place ids d.schemas i) =
      okUnless (t.foreignKeys.findSome? (d.keyFault? t)) (d.resolvedTable ids [] i t) := by
  have hends : t.foreignKeys.mapM (resolveEnds (d.placed ids) (t.place ids d.schemas i)) =
      okUnless (t.foreignKeys.findSome? (d.keyFault? t)) (t.foreignKeys.map (d.ends ids i t)) :=
    mapM_eq_okUnless fun fk _ => resolveEnds_eq hkeys ids i t fk
  have hcolumns : t.resolvedColumn ids [] i = fun j c => c.place (ids.column i j) := by
    funext j c
    exact resolvedColumn_nil ids i t j c
  have hcomment : lastComment [] (.table t.key) = none := rfl
  rw [resolveForeignKeys]
  simp only [TableDraft.place] at hends ⊢
  rw [hends]
  cases t.foreignKeys.findSome? (d.keyFault? t) with
  | some e => rfl
  | none =>
    refine congrArg Except.ok ?_
    rw [Draft.resolvedTable, hcolumns, hcomment]
    simp only [mapIdx_zip_map_zip]

/-- The tables before comments, or the first fault of a foreign key. -/
theorem resolvedTables_eq {d : Draft} (hkeys : (d.tables.map TableDraft.key).Nodup) (ids : Ids) :
    resolvedTables ids d =
      okUnless (d.tables.findSome? fun t => t.foreignKeys.findSome? (d.keyFault? t))
        (d.tables.mapIdx (d.resolvedTable ids [])) := by
  have hplaced : (d.placed ids).zipIdx =
      d.tables.zipIdx.map fun (t, i) => (t.place ids d.schemas i, i) := by
    rw [Draft.placed, List.mapIdx_eq_zipIdx_map]
    refine List.ext_getElem (by simp) fun i hi hj => ?_
    simp
  have hstep (x : Placed × Nat)
      (hx : x ∈ d.tables.zipIdx.map fun (t, i) => (t.place ids d.schemas i, i)) :
      resolveForeignKeys ids (d.placed ids) x.2 x.1 =
        okUnless (x.1.draft.foreignKeys.findSome? (d.keyFault? x.1.draft))
          (d.resolvedTable ids [] x.2 x.1.draft) := by
    obtain ⟨⟨t, i⟩, -, rfl⟩ := List.mem_map.1 hx
    exact resolveForeignKeys_eq hkeys ids i t
  have hfault (fault : TableDraft → Option ParseError) :
      d.tables.findSome? fault = d.tables.zipIdx.findSome? (fault ∘ Prod.fst) := by
    rw [← List.findSome?_map, List.zipIdx_map_fst]
  rw [resolvedTables, hplaced, mapM_eq_okUnless hstep, List.findSome?_map, List.map_map,
    List.mapIdx_eq_zipIdx_map, hfault]
  rfl

/-! ## Comments -/

/-- The tables under the given comments, with their keys. -/
def Draft.keyed (ids : Ids) (d : Draft) (comments : List CommentDraft) : KeyedTables :=
  d.tables.mapIdx fun i t => (t.key, d.resolvedTable ids comments i t)

theorem zip_keys_resolvedTable (ids : Ids) (d : Draft) (comments : List CommentDraft) :
    (d.tables.map TableDraft.key).zip (d.tables.mapIdx (d.resolvedTable ids comments)) =
      d.keyed ids comments :=
  List.ext_getElem (by simp [Draft.keyed]) fun i hi hj => by simp [Draft.keyed]

theorem eq_missing_of_applyComment {tables : KeyedTables} {c : CommentDraft} {e : ParseError}
    (h : applyComment tables c = .error e) : e = .missingCommentTarget c.target.spelling := by
  rw [applyComment] at h
  split at h
  · rename_i key htarget
    simp only at h
    split at h
    · cases h
    · cases h
      rfl
  · split at h
    · cases h
    · cases h
      rfl

/-! What one more comment changes. -/

section Concat

variable (comments : List CommentDraft) {c : CommentDraft}

theorem lastComment_concat_self (htext : c.text ≠ some "") :
    lastComment (comments ++ [c]) c.target = c.text := by
  have hlast : (c :: comments.reverse).find? (fun b => b.target == c.target) = some c :=
    List.find?_cons_of_pos (beq_self_eq_true c.target)
  rw [lastComment, List.reverse_concat, hlast, Option.bind_some]
  cases h : c.text with
  | none => rfl
  | some text =>
    rw [h] at htext
    simpa using htext

theorem lastComment_concat_of_ne {target : CommentTarget} (h : c.target ≠ target) :
    lastComment (comments ++ [c]) target = lastComment comments target := by
  rw [lastComment, List.reverse_concat, List.find?_cons_of_neg (by simpa using h)]
  rfl

variable (ids : Ids) (d : Draft) (i : Nat) {t : TableDraft}

theorem resolvedColumn_concat_of_ne (h : ∀ name, c.target ≠ .column t.key name) :
    t.resolvedColumn ids (comments ++ [c]) i = t.resolvedColumn ids comments i := by
  funext j column
  rw [TableDraft.resolvedColumn, TableDraft.resolvedColumn, lastComment_concat_of_ne comments (h _)]

theorem resolvedTable_concat_of_ne (htable : c.target ≠ .table t.key)
    (hcolumn : ∀ name, c.target ≠ .column t.key name) :
    d.resolvedTable ids (comments ++ [c]) i t = d.resolvedTable ids comments i t := by
  rw [Draft.resolvedTable, Draft.resolvedTable, lastComment_concat_of_ne comments htable,
    resolvedColumn_concat_of_ne comments ids i hcolumn]

theorem resolvedTable_concat_table (htarget : c.target = .table t.key) (htext : c.text ≠ some "") :
    d.resolvedTable ids (comments ++ [c]) i t = (d.resolvedTable ids comments i t).describe c.text := by
  have hcolumn (name : String) : c.target ≠ .column t.key name := by
    rw [htarget]
    intro h
    cases h
  rw [Draft.resolvedTable, Draft.resolvedTable, ← htarget, lastComment_concat_self comments htext,
    resolvedColumn_concat_of_ne comments ids i hcolumn]
  rfl

theorem resolvedTable_concat_column {name : String} (htarget : c.target = .column t.key name) :
    d.resolvedTable ids (comments ++ [c]) i t = { d.resolvedTable ids comments i t with
      columns := t.columns.mapIdx (t.resolvedColumn ids (comments ++ [c]) i) } := by
  have htable : c.target ≠ .table t.key := by
    rw [htarget]
    intro h
    cases h
  rw [Draft.resolvedTable, Draft.resolvedTable, lastComment_concat_of_ne comments htable]

/-- A comment on a column is written on the first column of that name. -/
theorem updateFirst?_resolvedColumn {name : String} (htarget : c.target = .column t.key name)
    (htext : c.text ≠ some "") :
    updateFirst? (fun column => column.name == name) (Column.describe c.text)
        (t.columns.mapIdx (t.resolvedColumn ids comments i)) =
      if name ∈ t.columns.map ColumnDraft.name then
        some (t.columns.mapIdx (t.resolvedColumn ids (comments ++ [c]) i))
      else none := by
  have hnames : (t.columns.any fun column => column.name == name) = true ↔
      name ∈ t.columns.map ColumnDraft.name := by
    simp [List.any_eq_true, List.mem_map]
  rw [updateFirst?_mapIdx (q := fun column : ColumnDraft => column.name == name)
    (k := t.resolvedColumn ids (comments ++ [c]) i) (fun _ _ => rfl) fun j hj => ?_]
  · simp only [hnames]
  · split
    · rename_i hindex
      have hname : t.columns[j].name = name := by
        subst hindex
        exact beq_iff_eq.1
          (List.findIdx_getElem (p := fun column : ColumnDraft => column.name == name) (w := hj))
      have hfirst : j = t.columnIndex name := hindex
      rw [TableDraft.resolvedColumn, TableDraft.resolvedColumn, hname, if_pos hfirst, if_pos hfirst,
        ← htarget, lastComment_concat_self comments htext]
      rfl
    · rename_i hindex
      rw [TableDraft.resolvedColumn, TableDraft.resolvedColumn]
      split
      · rename_i hfirst
        have hne : c.target ≠ .column t.key t.columns[j].name := by
          rw [htarget]
          intro h
          rw [← (CommentTarget.column.inj h).2] at hfirst
          exact hindex hfirst
        rw [lastComment_concat_of_ne comments hne]
      · rfl

end Concat

section Keyed

variable {d : Draft} (hkeys : (d.tables.map TableDraft.key).Nodup)

include hkeys

theorem eq_tableIndex_iff {key : QualifiedName} {i : Nat} (hi : i < d.tables.length) :
    i = d.tableIndex key ↔ d.tables[i].key = key := by
  have hfound {j : Nat} (hj : j < d.tables.length) (hindex : j = d.tableIndex key) :
      d.tables[j].key = key := by
    subst hindex
    exact beq_iff_eq.1 (List.findIdx_getElem (p := fun t : TableDraft => t.key == key) (w := hj))
  refine ⟨hfound hi, fun hkey => ?_⟩
  have hlt : d.tableIndex key < d.tables.length :=
    List.findIdx_lt_length_of_exists ⟨d.tables[i], List.getElem_mem hi, beq_iff_eq.2 hkey⟩
  have hi' : i < (d.tables.map TableDraft.key).length := by simpa using hi
  have hlt' : d.tableIndex key < (d.tables.map TableDraft.key).length := by simpa using hlt
  have hsame : (d.tables.map TableDraft.key)[i] = (d.tables.map TableDraft.key)[d.tableIndex key] := by
    rw [List.getElem_map, List.getElem_map, hkey, hfound hlt rfl]
  exact (hkeys.getElem_inj_iff).1 hsame

theorem updateFirst?_keyed (ids : Ids) (comments : List CommentDraft) {c : CommentDraft}
    {key : QualifiedName} (htarget : c.target = .table key) (htext : c.text ≠ some "") :
    updateFirst? (fun p => p.1 == key) (fun p => (p.1, p.2.describe c.text)) (d.keyed ids comments) =
      if d.HasTarget (.table key) then some (d.keyed ids (comments ++ [c])) else none := by
  have hany : (d.tables.any fun t => t.key == key) = true ↔ d.HasTarget (.table key) := by
    rw [List.any_eq_true]
    simp only [beq_iff_eq]
    rfl
  rw [Draft.keyed, updateFirst?_mapIdx (q := fun t : TableDraft => t.key == key)
    (k := fun i t => (t.key, d.resolvedTable ids (comments ++ [c]) i t)) (fun _ _ => rfl)
    fun i hi => ?_]
  · simp only [hany]
    rfl
  · by_cases hkey : d.tables[i].key = key
    · have hindex : i = d.tables.findIdx fun t => t.key == key := (eq_tableIndex_iff hkeys hi).2 hkey
      rw [if_pos hindex, resolvedTable_concat_table comments ids d i (by rw [htarget, hkey]) htext]
    · have hindex : i ≠ d.tables.findIdx fun t => t.key == key :=
        fun h => hkey ((eq_tableIndex_iff hkeys hi).1 h)
      rw [if_neg hindex, resolvedTable_concat_of_ne comments ids d i]
      · rw [htarget]
        exact fun h => hkey (CommentTarget.table.inj h).symm
      · rw [htarget]
        intro name h
        cases h

/-- A comment on a column changes the columns of the one table with that key. -/
theorem map_columns_keyed (ids : Ids) (comments : List CommentDraft) {c : CommentDraft}
    {key : QualifiedName} {name : String} (htarget : c.target = .column key name) {u : TableDraft}
    (hu : d.table? key = some u) :
    ((d.keyed ids comments).map fun p => (p.1, if p.1 == key then { p.2 with
        columns := u.columns.mapIdx (u.resolvedColumn ids (comments ++ [c]) (d.tableIndex key)) }
      else p.2)) = d.keyed ids (comments ++ [c]) := by
  have hkey : u.key = key := by simpa using List.find?_some hu
  rw [Draft.keyed, Draft.keyed]
  refine List.ext_getElem (by simp) fun i hlength _ => ?_
  have hi : i < d.tables.length := by simpa using hlength
  rw [List.getElem_map, List.getElem_mapIdx, List.getElem_mapIdx]
  by_cases hi' : d.tables[i].key = key
  · have hsame : d.tables[i] = u := by
      have hfound : d.table? d.tables[i].key = some d.tables[i] :=
        find?_eq_of_nodup hkeys (List.getElem_mem hi)
      rw [hi', hu] at hfound
      exact (Option.some.inj hfound).symm
    have hindex : i = d.tableIndex key := (eq_tableIndex_iff hkeys hi).2 hi'
    rw [hsame, hkey, beq_self_eq_true, if_pos rfl, ← hindex,
      resolvedTable_concat_column comments ids d i (by rw [htarget, hkey])]
  · rw [if_neg (by simpa using hi'), resolvedTable_concat_of_ne comments ids d i]
    · rw [htarget]
      intro h
      cases h
    · rw [htarget]
      exact fun _ h => hi' (CommentTarget.column.inj h).1.symm

theorem updateColumns_keyed (ids : Ids) (comments : List CommentDraft) {c : CommentDraft}
    {key : QualifiedName} {name : String} (htarget : c.target = .column key name)
    (htext : c.text ≠ some "") :
    (((d.keyed ids comments).find? fun p => p.1 == key).bind fun p =>
        updateFirst? (fun column => column.name == name) (Column.describe c.text) p.2.columns).map
          (fun columns => (d.keyed ids comments).map fun p =>
            (p.1, if p.1 == key then { p.2 with columns } else p.2)) =
      if d.HasTarget (.column key name) then some (d.keyed ids (comments ++ [c])) else none := by
  have hfind : ((d.keyed ids comments).find? fun p => p.1 == key) = (d.table? key).map fun u =>
      (u.key, d.resolvedTable ids comments (d.tableIndex key) u) := by
    rw [Draft.keyed, find?_mapIdx (q := fun t : TableDraft => t.key == key) fun _ _ => rfl]
    rfl
  rw [hfind]
  simp only [hasTarget_column_iff hkeys]
  cases hu : d.table? key with
  | none => simp
  | some u =>
    have hkey : u.key = key := by simpa using List.find?_some hu
    have hupdate := updateFirst?_resolvedColumn comments ids (d.tableIndex key) (t := u)
      (by rw [htarget, hkey]) htext
    simp only [Option.map_some, Option.bind_some, Option.some.injEq, exists_eq_left']
    rw [Draft.resolvedTable, hupdate]
    by_cases hname : name ∈ u.columns.map ColumnDraft.name
    · rw [if_pos hname, if_pos hname, Option.map_some, map_columns_keyed hkeys ids comments htarget hu]
    · rw [if_neg hname, if_neg hname]
      rfl

theorem applyComment_keyed (ids : Ids) (comments : List CommentDraft) {c : CommentDraft}
    (htext : c.text ≠ some "") : applyComment (d.keyed ids comments) c =
      okUnless (d.commentFault? c) (d.keyed ids (comments ++ [c])) := by
  have hresult : (applyComment (d.keyed ids comments) c).toOption =
      if d.HasTarget c.target then some (d.keyed ids (comments ++ [c])) else none := by
    cases htarget : c.target with
    | table key =>
      rw [← updateFirst?_keyed hkeys ids comments htarget htext, ← applyComment_table]
      cases c
      cases htarget
      rfl
    | column key name =>
      rw [← updateColumns_keyed hkeys ids comments htarget htext, ← applyComment_column]
      cases c
      cases htarget
      rfl
  rw [Draft.commentFault?]
  cases h : applyComment (d.keyed ids comments) c with
  | ok tables =>
    rw [h] at hresult
    split at hresult
    · rename_i hhas
      rw [if_pos hhas]
      exact congrArg Except.ok (Option.some.inj hresult)
    · cases hresult
  | error e =>
    rw [h] at hresult
    split at hresult
    · cases hresult
    · rename_i hhas
      rw [if_neg hhas, eq_missing_of_applyComment h]
      rfl

/-- A run over comments reports the first one without a target. -/
theorem foldlM_applyComment (ids : Ids) (before comments : List CommentDraft)
    (htext : ∀ c ∈ comments, c.text ≠ some "") :
    comments.foldlM applyComment (d.keyed ids before) =
      okUnless (comments.findSome? d.commentFault?) (d.keyed ids (before ++ comments)) := by
  induction comments generalizing before with
  | nil =>
    rw [List.append_nil]
    rfl
  | cons c cs ih =>
    have hrest := ih (before ++ [c]) fun b hb => htext b (List.mem_cons_of_mem c hb)
    rw [List.append_assoc, List.singleton_append] at hrest
    rw [List.foldlM_cons, applyComment_keyed hkeys ids before (htext c List.mem_cons_self),
      okUnless_bind (f := fun tables => cs.foldlM applyComment tables) hrest, List.findSome?_cons]
    cases d.commentFault? c <;> rfl

end Keyed

/-! ## The whole draft -/

theorem resolve_eq {d : Draft} (hkeys : (d.tables.map TableDraft.key).Nodup)
    (htext : ∀ c ∈ d.comments, c.text ≠ some "") (ids : Ids) :
    d.resolve ids = okUnless d.faults.head? (d.resolved ids) := by
  have hfaults : d.faults.head? =
      (d.tables.findSome? fun t => t.foreignKeys.findSome? (d.keyFault? t)).or
        (d.comments.findSome? d.commentFault?) := by
    rw [Draft.faults, List.head?_append, List.head?_flatMap, List.head?_filterMap]
    simp only [List.head?_filterMap]
  have hresolve : d.resolve ids = resolvedTables ids d >>= fun ts =>
      d.comments.foldlM applyComment ((d.tables.map TableDraft.key).zip ts) >>= fun keyed =>
        .ok (d.model ids (keyed.map Prod.snd)) := rfl
  have hkeyed (comments : List CommentDraft) : (d.keyed ids comments).map Prod.snd =
      d.tables.mapIdx (d.resolvedTable ids comments) :=
    List.ext_getElem (by simp [Draft.keyed]) fun i _ _ => by simp [Draft.keyed]
  have hcomments := foldlM_applyComment hkeys ids [] d.comments htext
  rw [List.nil_append] at hcomments
  rw [hresolve, resolvedTables_eq hkeys, hfaults]
  refine okUnless_bind ?_
  rw [zip_keys_resolvedTable, hcomments]
  cases d.comments.findSome? d.commentFault? with
  | some e => rfl
  | none => exact congrArg (fun ts => Except.ok (d.model ids ts)) (hkeyed d.comments)

/-- A draft that is read is resolved if all its foreign keys have their ends and all its comments
their targets. Otherwise the first fault is reported. -/
theorem resolve_first_fault {options : Options} {ss : List Statement} {d : Draft}
    (h : Draft.ofStatements options ss = .ok d) (ids : Ids) :
    ((∃ m, d.resolve ids = .ok m) ↔ (∀ t ∈ d.tables, ∀ fk ∈ t.foreignKeys, d.HasEnds t fk) ∧
      ∀ c ∈ d.comments, d.HasTarget c.target) ∧
    (∀ e, d.resolve ids = .error e ↔ d.faults.head? = some e) ∧
    ∀ m, d.resolve ids = .ok m → m = d.resolved ids := by
  have hsound := Draft.ofStatements_sound h
  have hresolve := resolve_eq hsound.keys hsound.comments ids
  refine ⟨?_, fun e => ?_, fun m hm => ?_⟩
  · rw [← Draft.head?_faults_eq_none_iff, hresolve]
    simp only [okUnless_eq_ok_iff, exists_and_left, exists_eq, and_true]
  · rw [hresolve, okUnless_eq_error_iff]
  · rw [hresolve] at hm
    exact (okUnless_eq_ok_iff.1 hm).2

/-- The first statements refer forward and to the table itself, and the last comment on their first
table is empty. Of the second ones a comment has no target and two foreign keys do not have their
ends. -/
theorem resolve_first_fault_statements :
    let a : QualifiedName := ⟨defaultSchema, "a"⟩
    let b : QualifiedName := ⟨defaultSchema, "b"⟩
    let linked : Draft :=
      { tables := [⟨a, [{ name := "x", type := "int" }, { name := "x", type := "text" }],
            [⟨"F!", "x", b, "k", some .cascade, none⟩, ⟨"g", "x", a, "x", none, none⟩]⟩,
          ⟨b, [{ name := "k", type := "int" }], []⟩]
        comments := [⟨.table a, some "1"⟩, ⟨.column a "x", some "2"⟩, ⟨.table a, none⟩] }
    let faulty : Draft :=
      { tables := [⟨a, [{ name := "x", type := "int" }], [⟨"F!", "y", ⟨"s", "b"⟩, "k", none, none⟩]⟩,
          ⟨b, [{ name := "k", type := "int" }], [⟨"g", "k", a, "z", none, none⟩]⟩]
        comments := [⟨.table ⟨defaultSchema, "c"⟩, some "1"⟩] }
    let ss := ["COMMENT ON TABLE a IS '1'",
      "CREATE TABLE a(x int,x text,CONSTRAINT \"F!\" FOREIGN KEY(x)REFERENCES b(k)ON DELETE CASCADE," ++
        "CONSTRAINT g FOREIGN KEY(x)REFERENCES a(x))",
      "CREATE TABLE b(k int)", "COMMENT ON COLUMN a.x IS '2'", "COMMENT ON TABLE a IS ''"]
    let ss' := ["COMMENT ON TABLE c IS '1'",
      "CREATE TABLE a(x int,CONSTRAINT \"F!\" FOREIGN KEY(y)REFERENCES s.b(k))",
      "CREATE TABLE b(k int,CONSTRAINT g FOREIGN KEY(k)REFERENCES a(z))"]
    (Draft.ofStatements {} (ss.map fun text => ⟨1, text.toList⟩) = .ok linked ∧
      ∃ m, linked.resolve .positional = .ok m ∧
        m.tables.map Table.comment = [none, none] ∧
        m.tables.map (fun t => t.columns.map Column.comment) = [[some "2", none], [none]] ∧
        m.tables.map Table.foreignKeys = [[
          { id := "t1f1", name := "f", fromColumnId := "t1c1", toTableId := "t2", toColumnId := "t2c1"
            onDelete := some .cascade },
          { id := "t1f2", name := "g", fromColumnId := "t1c1", toTableId := "t1", toColumnId := "t1c1" }],
          []]) ∧
    Draft.ofStatements {} (ss'.map fun text => ⟨1, text.toList⟩) = .ok faulty ∧
      faulty.resolve .positional = .error (.missingReference "F!" "public.a.y") := by
  intro a b linked faulty ss ss'
  refine ⟨?_, ?_⟩
  · have hread : Draft.ofStatements {} (ss.map fun text => ⟨1, text.toList⟩) = .ok linked :=
      toOption_eq_some_iff.1 (by decide +kernel)
    obtain ⟨hok, -, hmodel⟩ := resolve_first_fault hread .positional
    obtain ⟨m, hm⟩ := hok.2 ⟨by decide +kernel, by decide +kernel⟩
    refine ⟨hread, m, hm, ?_⟩
    rw [hmodel m hm]
    exact ⟨by decide +kernel, by decide +kernel, by decide +kernel⟩
  · have hread : Draft.ofStatements {} (ss'.map fun text => ⟨1, text.toList⟩) = .ok faulty :=
      toOption_eq_some_iff.1 (by decide +kernel)
    obtain ⟨-, herror, -⟩ := resolve_first_fault hread .positional
    exact ⟨hread, (herror _).2 (by decide +kernel)⟩

end Script

end SchemaDdl
