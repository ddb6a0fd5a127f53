import SchemaDdl.Proofs.Ddl.Decoding
import SchemaDdl.Proofs.Outline.Script

/-!
# Keys read back

A script gives keys by column name, and a name means the first column so named. So the columns of a
table read back as they were if their names differ, and their definitions read back exactly if each
key flag is on a column that its name finds again.
-/

namespace SchemaDdl

open Script

/-- Each column with whether it is the first one so named. `seen` holds the names before. -/
def withFirst (seen : List String) : List ColumnDraft → List (ColumnDraft × Bool)
  | [] => []
  | c :: cs => (c, !seen.contains c.name) :: withFirst (c.name :: seen) cs

def markFirst (mark : ColumnDraft → ColumnDraft) (ns : List String) (p : ColumnDraft × Bool) :
    ColumnDraft :=
  if p.2 && ns.contains p.1.name then mark p.1 else p.1

/-- A mark changes no name and nothing the second time. -/
structure Mark (mark : ColumnDraft → ColumnDraft) : Prop where
  name : ∀ c, (mark c).name = c.name
  again : ∀ c, mark (mark c) = mark c

theorem mark_primaryKey : Mark ColumnDraft.markPrimaryKey :=
  ⟨fun _ => rfl, fun _ => rfl⟩

theorem mark_unique : Mark ColumnDraft.markUnique :=
  ⟨fun _ => rfl, fun _ => rfl⟩

/-! ## First columns -/

theorem map_fst_withFirst (seen : List String) (cs : List ColumnDraft) :
    (withFirst seen cs).map Prod.fst = cs := by
  induction cs generalizing seen with
  | nil => rfl
  | cons c cs ih => rw [withFirst, List.map_cons, ih]

/-- Which columns are first hangs on their names alone. -/
theorem withFirst_map_withFirst {g : ColumnDraft × Bool → ColumnDraft}
    (hg : ∀ p, (g p).name = p.1.name) (seen : List String) (cs : List ColumnDraft) :
    withFirst seen ((withFirst seen cs).map g) = (withFirst seen cs).map fun p => (g p, p.2) := by
  induction cs generalizing seen with
  | nil => rfl
  | cons c cs ih => rw [withFirst, List.map_cons, withFirst, hg, ih, List.map_cons]

theorem withFirst_map {f : ColumnDraft → ColumnDraft} (hf : ∀ c, (f c).name = c.name)
    (seen : List String) (cs : List ColumnDraft) :
    withFirst seen (cs.map f) = (withFirst seen cs).map fun p => (f p.1, p.2) := by
  have hmap : (withFirst seen cs).map (f ∘ Prod.fst) = cs.map f := by
    rw [← List.map_map, map_fst_withFirst]
  rw [← hmap]
  exact withFirst_map_withFirst (fun p => hf p.1) seen cs

theorem withFirst_of_nodup {seen : List String} {cs : List ColumnDraft}
    (hcs : (cs.map ColumnDraft.name).Nodup) (hseen : ∀ c ∈ cs, c.name ∉ seen) :
    withFirst seen cs = cs.map fun c => (c, true) := by
  induction cs generalizing seen with
  | nil => rfl
  | cons c cs ih =>
    obtain ⟨hc, hcs⟩ := List.nodup_cons.1 hcs
    have hfirst : (!seen.contains c.name) = true := by
      simpa using hseen c List.mem_cons_self
    have hmore (d : ColumnDraft) (hd : d ∈ cs) : d.name ∉ c.name :: seen := by
      rw [List.mem_cons, not_or]
      exact ⟨fun h => hc (h ▸ List.mem_map_of_mem hd), hseen d (List.mem_cons_of_mem c hd)⟩
    rw [withFirst, hfirst, ih hcs hmore, List.map_cons]

/-- A name that was seen finds nothing more. -/
theorem map_markFirst_of_mem {mark : ColumnDraft → ColumnDraft} {seen : List String} {n : String}
    (hn : n ∈ seen) (cs : List ColumnDraft) :
    (withFirst seen cs).map (markFirst mark [n]) = cs := by
  induction cs generalizing seen with
  | nil => rfl
  | cons c cs ih =>
    rw [withFirst, List.map_cons, ih (List.mem_cons_of_mem _ hn), markFirst, if_neg]
    rw [Bool.and_eq_true, Bool.not_eq_true', List.contains_iff_mem, List.mem_singleton]
    rintro ⟨hfirst, rfl⟩
    simp [hn] at hfirst

theorem updateFirst?_name_eq_none_iff {mark : ColumnDraft → ColumnDraft} {n : String}
    {cs : List ColumnDraft} :
    updateFirst? (fun c => c.name == n) mark cs = none ↔ n ∉ cs.map ColumnDraft.name := by
  rw [updateFirst?_eq_none_iff]
  simp

theorem updateFirst?_eq {mark : ColumnDraft → ColumnDraft} {seen : List String} {n : String}
    (hn : n ∉ seen) {cs cs' : List ColumnDraft}
    (h : updateFirst? (fun c => c.name == n) mark cs = some cs') :
    cs' = (withFirst seen cs).map (markFirst mark [n]) := by
  induction cs generalizing seen cs' with
  | nil => cases h
  | cons c cs ih =>
    rw [updateFirst?] at h
    rw [withFirst, List.map_cons, markFirst]
    split at h
    · rename_i hc
      have hname : c.name = n := by simpa using hc
      cases h
      have hmark : (!seen.contains c.name && [n].contains c.name) = true := by
        simp [hname, hn]
      rw [map_markFirst_of_mem (hname ▸ List.mem_cons_self), if_pos hmark]
    · rename_i hc
      have hname : c.name ≠ n := by simpa using hc
      obtain ⟨ds, hds, rfl⟩ := Option.map_eq_some_iff.1 h
      have hmore : n ∉ c.name :: seen := by
        rw [List.mem_cons, not_or]
        exact ⟨hname.symm, hn⟩
      rw [← ih hmore hds, if_neg]
      simp [hname]

theorem map_markFirst_markFirst {mark : ColumnDraft → ColumnDraft} (hmark : Mark mark) (n : String)
    (ns : List String) (p : ColumnDraft × Bool) :
    markFirst mark ns (markFirst mark [n] p, p.2) = markFirst mark (n :: ns) p := by
  obtain ⟨c, first⟩ := p
  cases first with
  | false => rfl
  | true =>
    by_cases hn : c.name = n
    · by_cases hns : n ∈ ns <;> simp [markFirst, hn, hns, hmark.name, hmark.again]
    · simp [markFirst, hn]

theorem name_markFirst {mark : ColumnDraft → ColumnDraft} (hmark : Mark mark) (ns : List String)
    (p : ColumnDraft × Bool) : (markFirst mark ns p).name = p.1.name := by
  rw [markFirst]
  split
  · exact hmark.name p.1
  · rfl

/-- What keeps the name of each column keeps all names. -/
theorem map_name_withFirst {g : ColumnDraft × Bool → ColumnDraft} (hg : ∀ p, (g p).name = p.1.name)
    (cs : List ColumnDraft) :
    ((withFirst [] cs).map g).map ColumnDraft.name = cs.map ColumnDraft.name := by
  have hnames : (withFirst [] cs).map (ColumnDraft.name ∘ Prod.fst) = cs.map ColumnDraft.name := by
    rw [← List.map_map, map_fst_withFirst]
  rw [List.map_map, ← hnames]
  exact List.map_congr_left fun p _ => hg p

theorem map_name_markFirst {mark : ColumnDraft → ColumnDraft} (hmark : Mark mark) (ns : List String)
    (cs : List ColumnDraft) :
    ((withFirst [] cs).map (markFirst mark ns)).map ColumnDraft.name = cs.map ColumnDraft.name :=
  map_name_withFirst (name_markFirst hmark ns) cs

/-- A name without a column marks nothing. -/
theorem map_markFirst_of_notMem {mark : ColumnDraft → ColumnDraft} {n : String} {ns : List String}
    {cs : List ColumnDraft} (hn : n ∉ cs.map ColumnDraft.name) :
    (withFirst [] cs).map (markFirst mark (n :: ns)) = (withFirst [] cs).map (markFirst mark ns) := by
  refine List.map_congr_left fun p hp => ?_
  have hname : p.1.name ≠ n := by
    rintro rfl
    apply hn
    rw [← map_fst_withFirst [] cs]
    exact List.mem_map_of_mem (List.mem_map_of_mem hp)
  simp [markFirst, hname]

/-- The columns of a key list are marked at their first places. Strict reading wants all of them to
be there. -/
theorem markColumns_eq_ok_iff {strict : Bool} {table : QualifiedName} {keyword : String}
    {mark : ColumnDraft → ColumnDraft} (hmark : Mark mark) {ns : List String}
    {cs cs' : List ColumnDraft} :
    markColumns strict table keyword mark ns cs = .ok cs' ↔
      (strict = true → ∀ n ∈ ns, n ∈ cs.map ColumnDraft.name) ∧
        cs' = (withFirst [] cs).map (markFirst mark ns) := by
  induction ns generalizing cs with
  | nil =>
    have hnone : markFirst mark [] = Prod.fst := by
      funext p
      simp [markFirst]
    rw [markColumns, hnone, map_fst_withFirst, Except.ok.injEq]
    exact ⟨fun h => ⟨fun _ _ hn => absurd hn List.not_mem_nil, h.symm⟩, fun h => h.2.symm⟩
  | cons n ns ih =>
    rw [markColumns]
    cases hupdate : updateFirst? (fun c => c.name == n) mark cs with
    | none =>
      have hn : n ∉ cs.map ColumnDraft.name := updateFirst?_name_eq_none_iff.1 hupdate
      cases strict with
      | false =>
        refine ih.trans ?_
        rw [map_markFirst_of_notMem hn]
        simp
      | true =>
        constructor
        · intro h
          cases h
        · exact fun h => absurd (h.1 rfl n List.mem_cons_self) hn
    | some next =>
      have heq := updateFirst?_eq List.not_mem_nil hupdate
      have hnames : next.map ColumnDraft.name = cs.map ColumnDraft.name := by
        rw [heq, map_name_markFirst hmark]
      have hmem : n ∈ cs.map ColumnDraft.name := by
        by_contra hn
        rw [updateFirst?_name_eq_none_iff.2 hn] at hupdate
        cases hupdate
      have hmarked : (withFirst [] next).map (markFirst mark ns) =
          (withFirst [] cs).map (markFirst mark (n :: ns)) := by
        rw [heq, withFirst_map_withFirst (name_markFirst hmark [n]), List.map_map]
        exact List.map_congr_left fun p _ => map_markFirst_markFirst hmark n ns p
      refine ih.trans ?_
      rw [hnames, hmarked, List.forall_mem_cons]
      simp only [hmem, true_and]

/-- Columns with the keys that the names in key lists give them. -/
def markKeys (primary unique : List String) (cs : List ColumnDraft) : List ColumnDraft :=
  (withFirst [] cs).map fun p => markFirst .markUnique unique (markFirst .markPrimaryKey primary p, p.2)

theorem map_name_markKeys (primary unique : List String) (cs : List ColumnDraft) :
    (markKeys primary unique cs).map ColumnDraft.name = cs.map ColumnDraft.name := by
  apply map_name_withFirst
  intro p
  exact (name_markFirst mark_unique _ _).trans (name_markFirst mark_primaryKey _ p)

/-- A body makes up its columns with their keys, and its foreign keys. -/
theorem ofItems_eq_ok_iff {strict : Bool} {key : QualifiedName} {items : List TableItem}
    {t : TableDraft} :
    TableDraft.ofItems strict key items = .ok t ↔
      (strict = true → ∀ n ∈ items.flatMap TableItem.primaryKeyColumns ++
        items.flatMap TableItem.uniqueColumns,
          n ∈ (items.filterMap TableItem.column?).map ColumnDraft.name) ∧
        t = ⟨key, markKeys (items.flatMap TableItem.primaryKeyColumns)
          (items.flatMap TableItem.uniqueColumns) (items.filterMap TableItem.column?),
          items.filterMap TableItem.foreignKey?⟩ := by
  have hmarked (primary unique : List String) (cs : List ColumnDraft) :
      (withFirst [] ((withFirst [] cs).map (markFirst .markPrimaryKey primary))).map
        (markFirst .markUnique unique) = markKeys primary unique cs := by
    rw [withFirst_map_withFirst (name_markFirst mark_primaryKey primary), List.map_map]
    rfl
  rw [TableDraft.ofItems, List.forall_mem_append]
  constructor
  · intro h
    obtain ⟨cs, hcs, h⟩ := bind_eq_ok_iff.1 h
    obtain ⟨ds, hds, h⟩ := bind_eq_ok_iff.1 h
    cases h
    obtain ⟨hprimary, rfl⟩ := (markColumns_eq_ok_iff mark_primaryKey).1 hcs
    obtain ⟨hunique, rfl⟩ := (markColumns_eq_ok_iff mark_unique).1 hds
    rw [map_name_markFirst mark_primaryKey] at hunique
    rw [hmarked]
    exact ⟨fun hstrict => ⟨hprimary hstrict, hunique hstrict⟩, rfl⟩
  · rintro ⟨hknown, rfl⟩
    refine bind_eq_ok_iff.2 ⟨_, (markColumns_eq_ok_iff mark_primaryKey).2
      ⟨fun hstrict => (hknown hstrict).1, rfl⟩, ?_⟩
    refine bind_eq_ok_iff.2 ⟨_, (markColumns_eq_ok_iff mark_unique).2 ⟨fun hstrict => ?_, rfl⟩, ?_⟩
    · rw [map_name_markFirst mark_primaryKey]
      exact (hknown hstrict).2
    · rw [hmarked]
      rfl

/-! ## Columns read back -/

/-- A column as its definition alone is read. -/
def Script.ColumnDraft.bare (inferId : Bool) (c : ColumnDraft) : ColumnDraft :=
  let isId := inferId && c.name == implicitKeyName
  { name := c.name, type := c.type, nullable := !(isId || (!c.nullable || c.isPrimaryKey))
    defaultValue := c.defaultValue, isPrimaryKey := isId, isUnique := isId }

/-- A column as it is read together with the key lists. -/
def rekey (inferId : Bool) (primary unique : List String) (p : ColumnDraft × Bool) : ColumnDraft :=
  markFirst .markUnique unique
    (markFirst .markPrimaryKey primary (p.1.bare inferId, p.2), p.2)

/-- The columns of a table as its definitions are read. -/
def rekeyed (inferId : Bool) (cs : List ColumnDraft) : List ColumnDraft :=
  (withFirst [] cs).map (rekey inferId (primaryNames cs) (uniqueNames cs))

theorem name_rekey (inferId : Bool) (primary unique : List String) (p : ColumnDraft × Bool) :
    (rekey inferId primary unique p).name = p.1.name := by
  rw [rekey, name_markFirst mark_unique, name_markFirst mark_primaryKey]
  rfl

theorem map_name_rekeyed (inferId : Bool) (cs : List ColumnDraft) :
    (rekeyed inferId cs).map ColumnDraft.name = cs.map ColumnDraft.name :=
  map_name_withFirst (name_rekey inferId _ _) cs

theorem mem_names_of_mem_primaryNames {cs : List ColumnDraft} {n : String}
    (h : n ∈ primaryNames cs) : n ∈ cs.map ColumnDraft.name := by
  obtain ⟨c, hc, rfl⟩ := List.mem_map.1 h
  exact List.mem_map_of_mem (List.mem_filter.1 hc).1

theorem mem_names_of_mem_uniqueNames {cs : List ColumnDraft} {n : String}
    (h : n ∈ uniqueNames cs) : n ∈ cs.map ColumnDraft.name := by
  obtain ⟨c, hc, rfl⟩ := List.mem_map.1 h
  exact List.mem_map_of_mem (List.mem_filter.1 hc).1

section Items

variable (inferId : Bool) (cs : List ColumnDraft) (fks : List ForeignKeyDraft)

/-- The items of a body, in the order of its definitions. -/
def bodyItems : List TableItem :=
  (cs.map fun c => .column (c.bare inferId)) ++
    (((if (primaryNames cs).isEmpty then [] else [.primaryKey (primaryNames cs)]) ++
      (uniqueNames cs).map fun n => .unique [n]) ++ fks.map .foreignKey)

theorem map_item_definitions :
    (columnDefinitions cs ++ fks.map ForeignKeyDraft.definition).map (Ddl.Definition.item inferId) =
      bodyItems inferId cs fks := by
  rw [columnDefinitions, bodyItems, List.map_append, List.map_append, List.map_append, List.map_map,
    List.map_map, List.map_map, List.append_assoc]
  split <;> rfl

theorem columns_bodyItems :
    (bodyItems inferId cs fks).filterMap TableItem.column? = cs.map (ColumnDraft.bare inferId) := by
  have hcolumns : (TableItem.column? ∘ fun c : ColumnDraft => .column (c.bare inferId)) =
    some ∘ ColumnDraft.bare inferId := rfl
  have huniques : (TableItem.column? ∘ fun n => .unique [n]) = fun _ => none := rfl
  have hfks : TableItem.column? ∘ TableItem.foreignKey = fun _ => none := rfl
  rw [bodyItems]
  simp only [List.filterMap_append, List.filterMap_map, hcolumns, huniques, hfks]
  split <;> simp [TableItem.column?, List.filterMap_cons]

omit inferId cs fks in
theorem flatMap_nil_names {α : Type} (xs : List α) : (xs.flatMap fun _ => ([] : List String)) = [] :=
  List.flatMap_eq_nil_iff.2 fun _ _ => rfl

theorem primaryKeys_bodyItems :
    (bodyItems inferId cs fks).flatMap TableItem.primaryKeyColumns = primaryNames cs := by
  rw [bodyItems]
  simp only [List.flatMap_append, List.flatMap_map, TableItem.primaryKeyColumns, flatMap_nil_names]
  split
  · rename_i h
    rw [List.isEmpty_iff.1 h]
    simp
  · simp [TableItem.primaryKeyColumns]

theorem uniques_bodyItems :
    (bodyItems inferId cs fks).flatMap TableItem.uniqueColumns = uniqueNames cs := by
  rw [bodyItems]
  simp only [List.flatMap_append, List.flatMap_map, TableItem.uniqueColumns, flatMap_nil_names]
  split <;> simp [TableItem.uniqueColumns]

theorem foreignKeys_bodyItems :
    (bodyItems inferId cs fks).filterMap TableItem.foreignKey? = fks := by
  have hcolumns : (TableItem.foreignKey? ∘ fun c : ColumnDraft => .column (c.bare inferId)) =
    fun _ => none := rfl
  have huniques : (TableItem.foreignKey? ∘ fun n => .unique [n]) = fun _ => none := rfl
  have hfks : TableItem.foreignKey? ∘ TableItem.foreignKey = some := rfl
  rw [bodyItems]
  simp only [List.filterMap_append, List.filterMap_map, hcolumns, huniques, hfks]
  split <;> simp [TableItem.foreignKey?, List.filterMap_cons]

/-- What the definitions of a table make up. -/
theorem ofItems_definitions (strict : Bool) (key : QualifiedName) :
    TableDraft.ofItems strict key ((columnDefinitions cs ++
        fks.map ForeignKeyDraft.definition).map (Ddl.Definition.item inferId)) =
      .ok ⟨key, rekeyed inferId cs, fks⟩ := by
  have hbare (c : ColumnDraft) : (c.bare inferId).name = c.name := rfl
  have hkeys : markKeys (primaryNames cs) (uniqueNames cs) (cs.map (ColumnDraft.bare inferId)) =
      rekeyed inferId cs := by
    rw [markKeys, withFirst_map hbare, List.map_map]
    rfl
  rw [map_item_definitions, ofItems_eq_ok_iff, columns_bodyItems, primaryKeys_bodyItems,
    uniques_bodyItems, foreignKeys_bodyItems, hkeys]
  refine ⟨fun _ n hn => ?_, rfl⟩
  rw [List.map_map]
  rcases List.mem_append.1 hn with hn | hn
  · exact mem_names_of_mem_primaryNames hn
  · exact mem_names_of_mem_uniqueNames hn

end Items

/-! ## When keys read back -/

/-- Primary keys are unique and not null, and where ids are inferred each column named `id` is a
primary key. -/
structure Script.ColumnDraft.Keyed (inferId : Bool) (c : ColumnDraft) : Prop where
  primary : c.isPrimaryKey = true → c.isUnique = true ∧ c.nullable = false
  implicit : inferId = true → c.name = implicitKeyName → c.isPrimaryKey = true

/-- Whether a column is read back as a primary key. -/
def readsKey (inferId : Bool) (primary : List String) (p : ColumnDraft × Bool) : Bool :=
  (inferId && p.1.name == implicitKeyName) || (p.2 && primary.contains p.1.name)

theorem rekey_eq (inferId : Bool) (primary unique : List String) (p : ColumnDraft × Bool) :
    rekey inferId primary unique p =
      { p.1 with
        nullable := !readsKey inferId primary p && !(!p.1.nullable || p.1.isPrimaryKey)
        isPrimaryKey := readsKey inferId primary p
        isUnique := readsKey inferId primary p || (p.2 && unique.contains p.1.name) } := by
  obtain ⟨c, first⟩ := p
  cases first with
  | false => simp [rekey, markFirst, readsKey, ColumnDraft.bare]
  | true =>
    by_cases hprimary : c.name ∈ primary <;> by_cases hunique : c.name ∈ unique <;>
      simp [rekey, markFirst, readsKey, hprimary, hunique, ColumnDraft.bare,
        ColumnDraft.markPrimaryKey, ColumnDraft.markUnique]

section Nodup

variable {cs : List ColumnDraft} (hcs : (cs.map ColumnDraft.name).Nodup) {c : ColumnDraft}
  (hc : c ∈ cs)

include hcs hc

theorem mem_map_name_filter_iff (p : ColumnDraft → Bool) :
    c.name ∈ (cs.filter p).map ColumnDraft.name ↔ p c = true := by
  constructor
  · intro h
    obtain ⟨d, hd, hname⟩ := List.mem_map.1 h
    obtain ⟨hd, hkey⟩ := List.mem_filter.1 hd
    rwa [← List.inj_on_of_nodup_map hcs hd hc hname]
  · exact fun h => List.mem_map_of_mem (List.mem_filter.2 ⟨hc, h⟩)

theorem mem_primaryNames_iff : c.name ∈ primaryNames cs ↔ c.isPrimaryKey = true :=
  mem_map_name_filter_iff hcs hc ColumnDraft.isPrimaryKey

theorem mem_uniqueNames_iff :
    c.name ∈ uniqueNames cs ↔ (c.isUnique && !c.isPrimaryKey) = true :=
  mem_map_name_filter_iff hcs hc fun c => c.isUnique && !c.isPrimaryKey

end Nodup

/-- Columns with different names are read back as they are. -/
theorem rekeyed_eq_self {inferId : Bool} {cs : List ColumnDraft}
    (hcs : (cs.map ColumnDraft.name).Nodup) (hkeyed : ∀ c ∈ cs, c.Keyed inferId) :
    rekeyed inferId cs = cs := by
  rw [rekeyed, withFirst_of_nodup hcs fun _ _ => List.not_mem_nil, List.map_map]
  refine (List.map_congr_left fun c hc => ?_).trans (List.map_id cs)
  have hprimary : (primaryNames cs).contains c.name = c.isPrimaryKey := by
    rw [Bool.eq_iff_iff, List.contains_iff_mem]
    exact mem_primaryNames_iff hcs hc
  have hunique : (uniqueNames cs).contains c.name = (c.isUnique && !c.isPrimaryKey) := by
    rw [Bool.eq_iff_iff, List.contains_iff_mem]
    exact mem_uniqueNames_iff hcs hc
  obtain ⟨hkey, himplicit⟩ := hkeyed c hc
  have hreads : readsKey inferId (primaryNames cs) (c, true) = c.isPrimaryKey := by
    rw [readsKey, hprimary, Bool.true_and, Bool.or_eq_right_iff_imp, Bool.and_eq_true, beq_iff_eq]
    exact fun h => himplicit h.1 h.2
  rw [Function.comp_apply, rekey_eq, hreads, hunique]
  obtain ⟨name, type, nullable, defaultValue, isPrimaryKey, isUnique⟩ := c
  cases isPrimaryKey with
  | false => simp
  | true =>
    obtain ⟨rfl, rfl⟩ := hkey rfl
    rfl

/-- Every key flag is on a column that its name finds again: the columns read back as primary keys
have the names of the primary keys, likewise those read back as unique, and no column becomes not
null that was not. -/
structure KeysReadBack (inferId : Bool) (cs : List ColumnDraft) : Prop where
  primary : ((withFirst [] cs).filter (readsKey inferId (primaryNames cs))).map (fun p => p.1.name) =
    primaryNames cs
  unique : ((withFirst [] cs).filter fun p => p.2 && (uniqueNames cs).contains p.1.name &&
      !(primaryNames cs).contains p.1.name).map (fun p => p.1.name) = uniqueNames cs
  notNull : ∀ p ∈ withFirst [] cs, p.2 = true → p.1.name ∈ primaryNames cs → p.1.nullable = false

/-- The items of a body tell its columns and its keys. -/
theorem eq_of_bodyItems_eq {inferId : Bool} {cs ds : List ColumnDraft} {fks : List ForeignKeyDraft}
    (h : bodyItems inferId cs fks = bodyItems inferId ds fks) :
    cs.map (ColumnDraft.bare inferId) = ds.map (ColumnDraft.bare inferId) ∧
      primaryNames cs = primaryNames ds ∧ uniqueNames cs = uniqueNames ds := by
  refine ⟨?_, ?_, ?_⟩
  · rw [← columns_bodyItems inferId cs fks, h, columns_bodyItems]
  · rw [← primaryKeys_bodyItems inferId cs fks, h, primaryKeys_bodyItems]
  · rw [← uniques_bodyItems inferId cs fks, h, uniques_bodyItems]

/-- Tables have the same definitions if they are read alike without inferred ids. -/
theorem columnDefinitions_eq_iff {cs ds : List ColumnDraft} :
    columnDefinitions cs = columnDefinitions ds ↔
      cs.map (ColumnDraft.bare false) = ds.map (ColumnDraft.bare false) ∧
        primaryNames cs = primaryNames ds ∧ uniqueNames cs = uniqueNames ds := by
  constructor
  · intro h
    have hitems : bodyItems false cs [] = bodyItems false ds [] := by
      rw [← map_item_definitions, ← map_item_definitions, h]
    exact eq_of_bodyItems_eq hitems
  · rintro ⟨hbare, hprimary, hunique⟩
    have hdefinition : ColumnDraft.definition = fun c : ColumnDraft =>
        let b := c.bare false
        Ddl.Definition.column b.name b.type (!b.nullable) b.defaultValue := by
      funext c
      simp [ColumnDraft.definition, ColumnDraft.bare]
    have hcolumns : cs.map ColumnDraft.definition = ds.map ColumnDraft.definition := by
      rw [hdefinition]
      have := congrArg (List.map fun b : ColumnDraft =>
        Ddl.Definition.column b.name b.type (!b.nullable) b.defaultValue) hbare
      rwa [List.map_map, List.map_map] at this
    rw [columnDefinitions, columnDefinitions, hcolumns, hprimary, hunique]

section Fixed

variable {inferId : Bool} {cs : List ColumnDraft} (hkeyed : ∀ c ∈ cs, c.Keyed inferId)

theorem mem_of_mem_withFirst {p : ColumnDraft × Bool} (hp : p ∈ withFirst [] cs) : p.1 ∈ cs := by
  rw [← map_fst_withFirst [] cs]
  exact List.mem_map_of_mem hp

theorem primaryNames_rekeyed :
    primaryNames (rekeyed inferId cs) =
      ((withFirst [] cs).filter (readsKey inferId (primaryNames cs))).map fun p => p.1.name := by
  rw [primaryNames, rekeyed, List.filter_map, List.map_map]
  have hfilter : ColumnDraft.isPrimaryKey ∘ rekey inferId (primaryNames cs) (uniqueNames cs) =
      readsKey inferId (primaryNames cs) := by
    funext p
    rw [Function.comp_apply, rekey_eq]
  rw [hfilter]
  exact List.map_congr_left fun p _ => name_rekey inferId _ _ p

include hkeyed

theorem uniqueNames_rekeyed :
    uniqueNames (rekeyed inferId cs) =
      ((withFirst [] cs).filter fun p => p.2 && (uniqueNames cs).contains p.1.name &&
        !(primaryNames cs).contains p.1.name).map fun p => p.1.name := by
  rw [uniqueNames, rekeyed, List.filter_map, List.map_map]
  have hfilter (p : ColumnDraft × Bool) (hp : p ∈ withFirst [] cs) :
      (((fun c : ColumnDraft => c.isUnique && !c.isPrimaryKey) ∘
        rekey inferId (primaryNames cs) (uniqueNames cs)) p) =
        (p.2 && (uniqueNames cs).contains p.1.name && !(primaryNames cs).contains p.1.name) := by
    have hmem := mem_of_mem_withFirst hp
    have himplicit : (inferId && p.1.name == implicitKeyName) = true →
        (primaryNames cs).contains p.1.name = true := by
      intro h
      rw [Bool.and_eq_true, beq_iff_eq] at h
      rw [List.contains_iff_mem]
      exact List.mem_map_of_mem (List.mem_filter.2 ⟨hmem, (hkeyed _ hmem).implicit h.1 h.2⟩)
    rw [Function.comp_apply, rekey_eq, readsKey]
    revert himplicit
    cases inferId && p.1.name == implicitKeyName <;> cases p.2 <;>
      cases (uniqueNames cs).contains p.1.name <;> cases (primaryNames cs).contains p.1.name <;> simp
  rw [List.filter_congr hfilter]
  exact List.map_congr_left fun p _ => name_rekey inferId _ _ p

/-- A column keeps its definition unless it becomes not null. -/
theorem bare_rekey_iff {p : ColumnDraft × Bool} (hp : p ∈ withFirst [] cs) :
    (rekey inferId (primaryNames cs) (uniqueNames cs) p).bare false = p.1.bare false ↔
      (p.2 = true → p.1.name ∈ primaryNames cs → p.1.nullable = false) := by
  have hmem := mem_of_mem_withFirst hp
  obtain ⟨hprimary, himplicit⟩ := hkeyed _ hmem
  have hid : (inferId && p.1.name == implicitKeyName) = true → p.1.nullable = false := by
    intro h
    rw [Bool.and_eq_true, beq_iff_eq] at h
    exact (hprimary (himplicit h.1 h.2)).2
  have hkey : p.1.isPrimaryKey = true → p.1.nullable = false := fun h => (hprimary h).2
  rw [rekey_eq, readsKey, ← List.contains_iff_mem]
  simp only [ColumnDraft.bare, Bool.false_and, Bool.false_or, ColumnDraft.mk.injEq, true_and, and_true]
  revert hid hkey
  cases inferId && p.1.name == implicitKeyName <;> cases p.2 <;>
    cases (primaryNames cs).contains p.1.name <;> cases p.1.nullable <;> cases p.1.isPrimaryKey <;> simp

/-- The definitions of a table read back exactly if its keys do. -/
theorem columnDefinitions_rekeyed_iff :
    columnDefinitions (rekeyed inferId cs) = columnDefinitions cs ↔ KeysReadBack inferId cs := by
  have hbare : (rekeyed inferId cs).map (ColumnDraft.bare false) = cs.map (ColumnDraft.bare false) ↔
      ∀ p ∈ withFirst [] cs, p.2 = true → p.1.name ∈ primaryNames cs → p.1.nullable = false := by
    have hcs : cs.map (ColumnDraft.bare false) =
        (withFirst [] cs).map fun p => p.1.bare false := by
      rw [show (fun p : ColumnDraft × Bool => p.1.bare false) = ColumnDraft.bare false ∘ Prod.fst
        from rfl, ← List.map_map, map_fst_withFirst]
    rw [hcs, rekeyed, List.map_map, List.map_inj_left]
    exact forall₂_congr fun p hp => bare_rekey_iff hkeyed hp
  rw [columnDefinitions_eq_iff, hbare, primaryNames_rekeyed, uniqueNames_rekeyed hkeyed]
  constructor
  · rintro ⟨hnotNull, hprimary, hunique⟩
    exact ⟨hprimary, hunique, hnotNull⟩
  · rintro ⟨hprimary, hunique, hnotNull⟩
    exact ⟨hnotNull, hprimary, hunique⟩

end Fixed

end SchemaDdl
