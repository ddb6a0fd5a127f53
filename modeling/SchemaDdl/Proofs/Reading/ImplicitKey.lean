import SchemaDdl.Proofs.Outline.Resolver
import SchemaDdl.Proofs.Reading.BlankedItems

/-!
# Implicit keys

The rule that makes every column named `id` a primary key is local. To read a script under it comes
to reading the script without it and marking the columns of that name afterwards: each reader is
compared with itself without the rule, from the clauses of a column up to the whole script.
-/

namespace SchemaDdl

open Script

theorem mapIdx_map_eq {α α' β β' : Type} {f : Nat → α' → β'} {g : Nat → α → β} {k : α → α'}
    {k' : β → β'} (h : ∀ i a, f i (k a) = k' (g i a)) (xs : List α) :
    (xs.map k).mapIdx f = (xs.mapIdx g).map k' :=
  List.ext_getElem (by simp) fun i hi hj => by simp [h]

/-! ## Marked parts -/

/-- A column of that name is a primary key, and so unique and not nullable. -/
def Column.withImplicitKey (c : Column) : Column :=
  if c.name = implicitKeyName then { c with isPrimaryKey := true, isUnique := true, nullable := false }
  else c

theorem Column.describe_withImplicitKey (c : Column) (text : Option String) :
    c.withImplicitKey.describe text = (c.describe text).withImplicitKey := by
  by_cases hname : c.name = implicitKeyName
  · rw [withImplicitKey, if_pos hname]
    exact (if_pos hname).symm
  · rw [withImplicitKey, if_neg hname]
    exact (if_neg hname).symm

def Table.withImplicitKey (t : Table) : Table :=
  { t with columns := t.columns.map Column.withImplicitKey }

def Model.withImplicitKeys (m : Model) : Model :=
  { m with tables := m.tables.map Table.withImplicitKey }

namespace Script

def ColumnDraft.withImplicitKey (c : ColumnDraft) : ColumnDraft :=
  if c.name == implicitKeyName then c.markPrimaryKey else c

def TableItem.withImplicitKey : TableItem → TableItem
  | .column c => .column c.withImplicitKey
  | item => item

def TableDraft.withImplicitKey (t : TableDraft) : TableDraft :=
  { t with columns := t.columns.map ColumnDraft.withImplicitKey }

def Entry.withImplicitKey : Entry → Entry
  | .table t => .table t.withImplicitKey
  | entry => entry

def Draft.withImplicitKeys (d : Draft) : Draft :=
  { d with tables := d.tables.map TableDraft.withImplicitKey }

/-! ## Columns -/

namespace ColumnDraft

@[simp] theorem name_withImplicitKey (c : ColumnDraft) : c.withImplicitKey.name = c.name := by
  rw [withImplicitKey]
  split <;> rfl

/-- A change that keeps the name and a mark can be made before or after the rule is applied. -/
theorem withImplicitKey_comm {f : ColumnDraft → ColumnDraft} (hname : ∀ c, (f c).name = c.name)
    (hmark : ∀ c, f c.markPrimaryKey = (f c).markPrimaryKey) (c : ColumnDraft) :
    f c.withImplicitKey = (f c).withImplicitKey := by
  rw [withImplicitKey, withImplicitKey, hname]
  split
  · exact hmark c
  · rfl

theorem markPrimaryKey_withImplicitKey (c : ColumnDraft) :
    c.withImplicitKey.markPrimaryKey = c.markPrimaryKey.withImplicitKey :=
  withImplicitKey_comm (f := markPrimaryKey) (fun _ => rfl) (fun _ => rfl) c

theorem markUnique_withImplicitKey (c : ColumnDraft) :
    c.withImplicitKey.markUnique = c.markUnique.withImplicitKey :=
  withImplicitKey_comm (f := markUnique) (fun _ => rfl) (fun _ => rfl) c

/-- `NULL` is no exception: behind a key it forbids nulls, and so it does when the key comes last. -/
theorem apply_withImplicitKey (c : ColumnDraft) (k : ColumnClause) :
    c.withImplicitKey.apply k = (c.apply k).withImplicitKey := by
  apply withImplicitKey_comm (f := fun c => c.apply k)
  · intro c
    cases k <;> rfl
  · intro c
    cases k <;> rfl

theorem place_withImplicitKey (c : ColumnDraft) (id : String) :
    c.withImplicitKey.place id = (c.place id).withImplicitKey := by
  rw [withImplicitKey, Column.withImplicitKey]
  by_cases hname : c.name = implicitKeyName
  · rw [if_pos (beq_iff_eq.2 hname), if_pos (show (c.place id).name = implicitKeyName from hname)]
    rfl
  · rw [if_neg fun h => hname (beq_iff_eq.1 h),
      if_neg (show ¬(c.place id).name = implicitKeyName from hname)]

end ColumnDraft

theorem columnClauses_withImplicitKey (strict : Bool) (c : ColumnDraft) (ls : List Lexeme) :
    columnClauses strict c.withImplicitKey ls =
      (columnClauses strict c ls).map ColumnDraft.withImplicitKey := by
  -- on the length, for a clause takes as many lexemes as it has
  induction hn : ls.length using Nat.strongRecOn generalizing ls c with
  | _ n ih =>
    cases ls with
    | nil =>
      rw [columnClauses, columnClauses]
      rfl
    | cons l ls =>
      rw [columnClauses_eq, columnClauses_eq]
      split
      · rfl
      · cases hk : clause l ls with
        | error e => rfl
        | ok p =>
          obtain ⟨k, rest⟩ := p
          have hmore := ih rest.length (hn ▸ length_clause_lt hk) (c.apply k) rest rfl
          rw [← c.apply_withImplicitKey k] at hmore
          change afterClause strict c.withImplicitKey k rest = (afterClause strict c k rest).map _
          cases strict with
          | false => exact hmore
          | true =>
            cases k with
            | unsupported head => rfl
            | _ => exact hmore

theorem columnDefinition_withImplicitKey (strict : Bool) (table : QualifiedName) (ls : List Lexeme) :
    columnDefinition strict true table ls =
      (columnDefinition strict false table ls).map ColumnDraft.withImplicitKey := by
  refine bind_eq_map fun ⟨name, rest⟩ => ?_
  refine .trans (congrArg (Except.mapError _) ?_) (mapError_map _ _ _)
  simp only
  split
  · rfl
  · exact columnClauses_withImplicitKey strict { name, type := String.ofList (verbatim _) } _

/-! ## Items and tables -/

theorem tableItem_withImplicitKey (strict : Bool) (table : QualifiedName) (text : List Char) :
    tableItem { strict, inferId := true } table text =
      (tableItem { strict, inferId := false } table text).map TableItem.withImplicitKey := by
  refine bind_eq_map fun ls => ?_
  simp only
  -- the rule is for column definitions, and no other item declares a column
  split
  · refine (map_eq_self fun item h => ?_).symm
    obtain ⟨columns, rfl⟩ := exists_of_primaryKeyItem h
    rfl
  · refine (map_eq_self fun item h => ?_).symm
    obtain ⟨columns, rfl⟩ := exists_of_uniqueItem h
    rfl
  · refine (map_eq_self fun item h => ?_).symm
    obtain ⟨fk, rfl⟩ := exists_of_foreignKeyItem h
    rfl
  · refine (map_eq_self fun item h => ?_).symm
    obtain ⟨_, _, fk, -, -, rfl⟩ | ⟨columns, rfl⟩ | ⟨columns, rfl⟩ | rfl := cases_of_namedItem h <;> rfl
  · refine (map_eq_self fun item h => ?_).symm
    rw [unsupported_eq_ok h]
    rfl
  · rw [columnDefinition_withImplicitKey]
    exact map_bind_eq_map fun c => rfl

theorem column?_withImplicitKey (item : TableItem) :
    item.withImplicitKey.column? = item.column?.map ColumnDraft.withImplicitKey := by
  cases item <;> rfl

theorem markColumns_withImplicitKey (strict : Bool) (table : QualifiedName) (keyword : String)
    {mark : ColumnDraft → ColumnDraft}
    (hmark : ∀ c, mark c.withImplicitKey = (mark c).withImplicitKey) (ns : List String)
    (cs : List ColumnDraft) :
    markColumns strict table keyword mark ns (cs.map ColumnDraft.withImplicitKey) =
      (markColumns strict table keyword mark ns cs).map (List.map ColumnDraft.withImplicitKey) := by
  induction ns generalizing cs with
  | nil => rfl
  | cons n ns ih =>
    have hupdate : updateFirst? (fun c => c.name == n) mark (cs.map ColumnDraft.withImplicitKey) =
        (updateFirst? (fun c => c.name == n) mark cs).map (List.map ColumnDraft.withImplicitKey) :=
      updateFirst?_map (fun c _ => by rw [c.name_withImplicitKey]) fun c _ => hmark c
    rw [markColumns, markColumns, hupdate]
    cases updateFirst? (fun c => c.name == n) mark cs with
    | some marked => exact ih marked
    | none =>
      cases strict with
      | true => rfl
      | false => exact ih cs

theorem ofItems_withImplicitKey (strict : Bool) (key : QualifiedName) (items : List TableItem) :
    TableDraft.ofItems strict key (items.map TableItem.withImplicitKey) =
      (TableDraft.ofItems strict key items).map TableDraft.withImplicitKey := by
  have hcolumns : (items.map TableItem.withImplicitKey).filterMap TableItem.column? =
      (items.filterMap TableItem.column?).map ColumnDraft.withImplicitKey := by
    rw [List.filterMap_map, List.map_filterMap]
    exact List.filterMap_congr fun item _ => column?_withImplicitKey item
  have hprimary : (items.map TableItem.withImplicitKey).flatMap TableItem.primaryKeyColumns =
      items.flatMap TableItem.primaryKeyColumns := by
    rw [List.flatMap_map]
    exact List.flatMap_congr fun item _ => by cases item <;> rfl
  have hunique : (items.map TableItem.withImplicitKey).flatMap TableItem.uniqueColumns =
      items.flatMap TableItem.uniqueColumns := by
    rw [List.flatMap_map]
    exact List.flatMap_congr fun item _ => by cases item <;> rfl
  have hforeign : (items.map TableItem.withImplicitKey).filterMap TableItem.foreignKey? =
      items.filterMap TableItem.foreignKey? := by
    rw [List.filterMap_map]
    exact List.filterMap_congr fun item _ => by cases item <;> rfl
  rw [TableDraft.ofItems, TableDraft.ofItems, hcolumns, hprimary, hunique, hforeign,
    markColumns_withImplicitKey _ _ _ ColumnDraft.markPrimaryKey_withImplicitKey]
  refine map_bind_eq_map fun cs => ?_
  rw [markColumns_withImplicitKey _ _ _ ColumnDraft.markUnique_withImplicitKey]
  exact map_bind_eq_map fun cs => rfl

/-! ## Statements -/

theorem createTable_withImplicitKey (strict : Bool) (isDefined : QualifiedName → Bool)
    (ls : List Lexeme) :
    createTable { strict, inferId := true } isDefined ls =
      (createTable { strict, inferId := false } isDefined ls).map Entry.withImplicitKey := by
  refine bind_eq_map fun ⟨key, rest⟩ => ?_
  simp only
  split
  · rfl
  · refine bind_eq_map fun _ => ?_
    split
    · rfl
    · rw [mapM_eq_map (tableItem_withImplicitKey strict key)]
      refine map_bind_eq_map fun items => ?_
      rw [ofItems_withImplicitKey]
      exact map_bind_eq_map fun t => rfl

theorem readStatement_withImplicitKey (strict : Bool) (isDefined : QualifiedName → Bool)
    (text : List Char) :
    readStatement { strict, inferId := true } isDefined text =
      (readStatement { strict, inferId := false } isDefined text).map
        (Option.map Entry.withImplicitKey) := by
  refine bind_eq_map fun ls => ?_
  simp only
  split
  · rfl
  · split
    · refine (map_eq_self fun entry h => ?_).symm
      obtain ⟨e, he, h⟩ := bind_eq_ok_iff.1 h
      cases h
      obtain ⟨name, rfl⟩ := createSchema_sound he
      rfl
    · refine (map_eq_self fun entry h => ?_).symm
      cases entry with
      | none => rfl
      | some e =>
        obtain ⟨t, rfl, -⟩ := createType_sound h
        rfl
    · rw [createTable_withImplicitKey]
      exact map_bind_eq_map fun e => rfl
    · refine (map_eq_self fun entry h => ?_).symm
      obtain ⟨e, he, h⟩ := bind_eq_ok_iff.1 h
      cases h
      obtain ⟨c, rfl, -⟩ := commentOnTable_sound he
      rfl
    · refine (map_eq_self fun entry h => ?_).symm
      obtain ⟨e, he, h⟩ := bind_eq_ok_iff.1 h
      cases h
      obtain ⟨c, rfl, -⟩ := commentOnColumn_sound he
      rfl
    · refine (map_eq_self fun entry h => ?_).symm
      rw [unsupported_eq_ok h]
      rfl

namespace Draft

@[simp] theorem definesTable_withImplicitKeys (d : Draft) :
    d.withImplicitKeys.definesTable = d.definesTable := by
  funext key
  exact List.any_map

theorem withSchema_withImplicitKeys (d : Draft) (name : String) :
    d.withImplicitKeys.withSchema name = (d.withSchema name).withImplicitKeys := by
  rw [withSchema, withSchema]
  by_cases h : d.schemas.contains name = true
  · rw [if_pos h]
    exact if_pos h
  · rw [if_neg h]
    exact if_neg h

theorem add_withImplicitKey (d : Draft) (e : Entry) :
    d.withImplicitKeys.add e.withImplicitKey = (d.add e).withImplicitKeys := by
  cases e with
  | schema name => exact d.withSchema_withImplicitKeys name
  | type t =>
    simp only [Entry.withImplicitKey, add, withSchema_withImplicitKeys]
    rfl
  | table t =>
    have hkey : t.withImplicitKey.key = t.key := rfl
    simp only [Entry.withImplicitKey, add, hkey, withSchema_withImplicitKeys]
    simp only [withImplicitKeys, List.map_append, List.map_singleton]
  | comment c => rfl

theorem readNext_withImplicitKeys (strict : Bool) (d : Draft) (s : Statement) :
    readNext { strict, inferId := true } d.withImplicitKeys s =
      (readNext { strict, inferId := false } d s).map withImplicitKeys := by
  rw [readNext, readNext, definesTable_withImplicitKeys, readStatement_withImplicitKey]
  cases readStatement { strict, inferId := false } d.definesTable s.text with
  | error problem => rfl
  | ok entry =>
    cases entry with
    | none => rfl
    | some e => exact congrArg Except.ok (d.add_withImplicitKey e)

theorem ofStatements_withImplicitKeys (strict : Bool) (ss : List Statement) :
    ofStatements { strict, inferId := true } ss =
      (ofStatements { strict, inferId := false } ss).map withImplicitKeys :=
  foldlM_eq_map (k := withImplicitKeys) (readNext_withImplicitKeys strict) {} ss

end Draft

/-! ## Models -/

theorem TableDraft.names_withImplicitKey (t : TableDraft) :
    t.withImplicitKey.columns.map ColumnDraft.name = t.columns.map ColumnDraft.name := by
  rw [withImplicitKey, List.map_map]
  exact List.map_congr_left fun c _ => c.name_withImplicitKey

theorem TableDraft.columnIndex_withImplicitKey (t : TableDraft) (name : String) :
    t.withImplicitKey.columnIndex name = t.columnIndex name := by
  rw [columnIndex, columnIndex, withImplicitKey, List.findIdx_map]
  refine congrArg (List.findIdx · t.columns) ?_
  funext c
  rw [Function.comp_apply, c.name_withImplicitKey]

namespace Draft

variable (d : Draft)

theorem hasTarget_withImplicitKeys (target : CommentTarget) :
    d.withImplicitKeys.HasTarget target ↔ d.HasTarget target := by
  have hexists (P : TableDraft → Prop) :
      (∃ t ∈ d.withImplicitKeys.tables, P t) ↔ ∃ t ∈ d.tables, P t.withImplicitKey := by
    rw [withImplicitKeys]
    simp only [List.mem_map, exists_exists_and_eq_and]
  cases target with
  | table key => exact hexists fun t => t.key = key
  | column key name =>
    refine (hexists fun t => t.key = key ∧ name ∈ t.columns.map ColumnDraft.name).trans ?_
    simp only [TableDraft.names_withImplicitKey]
    rfl

theorem faults_withImplicitKeys : d.withImplicitKeys.faults = d.faults := by
  have hkey (t : TableDraft) :
      d.withImplicitKeys.keyFault? t.withImplicitKey = d.keyFault? t := by
    funext fk
    rw [keyFault?, keyFault?]
    simp only [t.names_withImplicitKey, d.hasTarget_withImplicitKeys]
    rfl
  have hcomment : d.withImplicitKeys.commentFault? = d.commentFault? := by
    funext c
    rw [commentFault?, commentFault?]
    simp only [d.hasTarget_withImplicitKeys]
  rw [faults, faults, hcomment]
  refine congrArg (· ++ d.comments.filterMap d.commentFault?) ?_
  rw [withImplicitKeys, List.flatMap_map]
  refine List.flatMap_congr fun t _ => ?_
  exact congrArg (t.foreignKeys.filterMap ·) (hkey t)

theorem ends_withImplicitKeys (ids : Ids) (i : Nat) (t : TableDraft) (fk : ForeignKeyDraft) :
    d.withImplicitKeys.ends ids i t.withImplicitKey fk = d.ends ids i t fk := by
  have htable : d.withImplicitKeys.tableIndex fk.target = d.tableIndex fk.target :=
    List.findIdx_map _ _ _
  have hfind : d.withImplicitKeys.table? fk.target =
      (d.table? fk.target).map TableDraft.withImplicitKey := List.find?_map
  rw [ends, ends, htable, hfind, t.columnIndex_withImplicitKey]
  cases d.table? fk.target with
  | none => rfl
  | some u =>
    rw [Option.map_some, Option.elim_some, Option.elim_some, u.columnIndex_withImplicitKey]

theorem resolvedColumn_withImplicitKey (ids : Ids) (comments : List CommentDraft) (i : Nat)
    (t : TableDraft) (j : Nat) (c : ColumnDraft) :
    t.withImplicitKey.resolvedColumn ids comments i j c.withImplicitKey =
      (t.resolvedColumn ids comments i j c).withImplicitKey := by
  rw [TableDraft.resolvedColumn, c.place_withImplicitKey, c.name_withImplicitKey,
    t.columnIndex_withImplicitKey]
  exact (c.place (ids.column i j)).describe_withImplicitKey _

theorem resolvedTable_withImplicitKeys (ids : Ids) (i : Nat) (t : TableDraft) :
    d.withImplicitKeys.resolvedTable ids d.comments i t.withImplicitKey =
      (d.resolvedTable ids d.comments i t).withImplicitKey := by
  have hends : d.withImplicitKeys.ends ids i t.withImplicitKey = d.ends ids i t :=
    funext (d.ends_withImplicitKeys ids i t)
  have hcolumns : t.withImplicitKey.columns.mapIdx
      (t.withImplicitKey.resolvedColumn ids d.comments i) =
      (t.columns.mapIdx (t.resolvedColumn ids d.comments i)).map Column.withImplicitKey :=
    mapIdx_map_eq (resolvedColumn_withImplicitKey ids d.comments i t) t.columns
  rw [resolvedTable, hends, hcolumns]
  rfl

theorem resolved_withImplicitKeys (ids : Ids) :
    d.withImplicitKeys.resolved ids = (d.resolved ids).withImplicitKeys := by
  have htables : (d.tables.map TableDraft.withImplicitKey).mapIdx
      (d.withImplicitKeys.resolvedTable ids d.comments) =
      (d.tables.mapIdx (d.resolvedTable ids d.comments)).map Table.withImplicitKey :=
    mapIdx_map_eq (d.resolvedTable_withImplicitKeys ids) d.tables
  exact congrArg (d.model ids) htables

end Draft

end Script

/-! ## Scripts -/

section Parse

variable {ids ids' : Ids} {options : Options} {script : String}

/-- Which ids are given out makes no difference to what is reported. -/
theorem parse_error_of_ids {e : ParseError} (h : parse ids options script = .error e) :
    parse ids' options script = .error e := by
  rw [parse, bind_eq_error_iff] at h ⊢
  rcases h with h | ⟨d, hd, h⟩
  · exact .inl h
  · have hsound := Draft.ofStatements_sound hd
    have hresolve := resolve_eq hsound.keys hsound.comments
    rw [hresolve, okUnless_eq_error_iff] at h
    refine .inr ⟨d, hd, ?_⟩
    rw [hresolve, okUnless_eq_error_iff]
    exact h

theorem exists_parse_outline {m : Model} (hids : ids.Distinct) (hids' : ids'.Distinct)
    (h : parse ids options script = .ok m) : m.Linked ∧
      ∃ m', parse ids' options script = .ok m' ∧ m'.Linked ∧ m'.outline = m.outline := by
  obtain ⟨d, hd, hresolve⟩ := bind_eq_ok_iff.1 h
  have hdistinct := (Draft.ofStatements_sound hd).toDistinct
  obtain ⟨hdeclares, hlinked, -⟩ := declares_of_resolve hids hdistinct hresolve
  obtain ⟨m', hm', houtline⟩ := exists_resolve_of_declares hids' hdistinct hdeclares
  obtain ⟨-, hlinked', -⟩ := declares_of_resolve hids' hdistinct hm'
  exact ⟨hlinked, m', bind_eq_ok_iff.2 ⟨d, hd, hm'⟩, hlinked', houtline⟩

/-- To read a script under the rule is to read it without and to mark the columns afterwards. -/
theorem parse_inferId (ids : Ids) (strict : Bool) (script : String) :
    parse ids { strict, inferId := true } script =
      (parse ids { strict, inferId := false } script).map Model.withImplicitKeys := by
  rw [parse, Draft.ofStatements_withImplicitKeys]
  cases hd : Draft.ofStatements { strict, inferId := false } (statements script.toList) with
  | error e =>
    rw [parse, hd]
    rfl
  | ok d =>
    have hmarked : Draft.ofStatements { strict, inferId := true } (statements script.toList) =
        .ok d.withImplicitKeys := by
      rw [Draft.ofStatements_withImplicitKeys, hd]
      rfl
    have hsound := Draft.ofStatements_sound hd
    have hsound' := Draft.ofStatements_sound hmarked
    rw [parse, hd]
    change d.withImplicitKeys.resolve ids = (d.resolve ids).map Model.withImplicitKeys
    rw [resolve_eq hsound.keys hsound.comments, resolve_eq hsound'.keys hsound'.comments,
      d.faults_withImplicitKeys, d.resolved_withImplicitKeys]
    cases d.faults.head? <;> rfl

end Parse

/-- The rule for columns named `id` is local. With it a script fails with the report that it fails
with without it, or it is read to the same model with those columns marked. Where the ids are not
given out alike, nothing but the ids differs besides. -/
theorem parse_withImplicitKeys (strict : Bool) (script : String) :
    (∀ ids, parse ids { strict, inferId := true } script =
      (parse ids { strict, inferId := false } script).map Model.withImplicitKeys) ∧
    ∀ ids ids' : Ids, ids.Distinct → ids'.Distinct →
      (∀ e, parse ids { strict, inferId := true } script = .error e ↔
        parse ids' { strict, inferId := false } script = .error e) ∧
      ∀ m, parse ids { strict, inferId := true } script = .ok m →
        ∃ m', parse ids' { strict, inferId := false } script = .ok m' ∧
          m.Linked ∧ m'.Linked ∧ m.outline = m'.withImplicitKeys.outline := by
  refine ⟨fun ids => parse_inferId ids strict script, fun ids ids' hids hids' => ⟨fun e => ?_, ?_⟩⟩
  · have hreport : parse ids { strict, inferId := true } script = .error e ↔
        parse ids { strict, inferId := false } script = .error e := by
      rw [parse_inferId]
      cases parse ids { strict, inferId := false } script with
      | error e' => exact Iff.rfl
      | ok m =>
        constructor <;> intro h <;> cases h
    exact hreport.trans ⟨parse_error_of_ids, parse_error_of_ids⟩
  · intro m hm
    obtain ⟨hlinked, m', hm', -, houtline⟩ := exists_parse_outline hids hids' hm
    rw [parse_inferId] at hm'
    obtain ⟨plain, hplain, rfl⟩ := exists_of_map_eq_ok hm'
    have hlinked' := (exists_parse_outline hids' hids' hplain).1
    exact ⟨plain, hplain, hlinked, hlinked', houtline.symm⟩

/-- A key behind `NULL`, a column whose name only looks like one, and a script that fails either
way. -/
theorem parse_withImplicitKeys_null :
    let script := "CREATE TABLE t (id int NULL, \"ID\" text, UNIQUE (\"ID\"));"
    let unknown := "CREATE TABLE t (id int, UNIQUE (code));"
    let flags := fun m : Model =>
      (m.tables.flatMap Table.columns).map fun c => (c.isPrimaryKey, c.isUnique, c.nullable)
    Ids.positional.Distinct ∧
    (∃ m m', parse .positional {} script = .ok m ∧
      parse .positional { inferId := false } script = .ok m' ∧
      m.outline = m'.withImplicitKeys.outline ∧
      flags m = [(true, true, false), (false, true, true)] ∧
      flags m' = [(false, false, true), (false, true, true)]) ∧
    ∃ e, parse .positional { strict := true } unknown = .error e ∧
      parse .positional { strict := true, inferId := false } unknown = .error e := by
  intro script unknown flags
  have hdistinct := Ids.distinct_positional
  refine ⟨hdistinct, ?_, ?_⟩
  · have hread : (parse .positional {} script).toOption.map flags =
        some [(true, true, false), (false, true, true)] := by decide +kernel
    have hplain : (parse .positional { inferId := false } script).toOption.map flags =
        some [(false, false, true), (false, true, true)] := by decide +kernel
    obtain ⟨m, hm, hflags⟩ := Option.map_eq_some_iff.1 hread
    have hm := toOption_eq_some_iff.1 hm
    obtain ⟨-, hmodels⟩ := (parse_withImplicitKeys false script).2 .positional .positional hdistinct hdistinct
    obtain ⟨m', hm', -, -, houtline⟩ := hmodels m hm
    rw [hm'] at hplain
    exact ⟨m, m', hm, hm', houtline, hflags, Option.some.inj hplain⟩
  · have hfails : (parse .positional { strict := true } unknown).toOption.isNone := by decide +kernel
    cases he : parse .positional { strict := true } unknown with
    | ok m =>
      rw [he] at hfails
      cases hfails
    | error e =>
      obtain ⟨hreports, -⟩ :=
        (parse_withImplicitKeys true unknown).2 .positional .positional hdistinct hdistinct
      exact ⟨e, rfl, (hreports e).1 he⟩

end SchemaDdl
