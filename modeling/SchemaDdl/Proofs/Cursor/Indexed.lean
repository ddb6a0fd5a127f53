import SchemaDdl.Proofs.Cursor.Statements
import SchemaDdl.Proofs.Outline.Reread
import SchemaDdl.Proofs.Reading.Sound

/-!
# Resolving by index

The tables of a draft are found by an index of their keys, which says at which place each key stands.
No two tables of a draft that is read have one key, and so the index leads to the table that a search
for the key finds.
-/

namespace SchemaDdl.Script

open Attempt

/-- The place of a key. Of equal keys the last one counts. -/
def lastIndex? (keys : List QualifiedName) (key : QualifiedName) : Option Nat :=
  (keys.zipIdx.reverse.find? fun p => p.1 == key).map Prod.snd

namespace Indexed

def resolveEnds (tables : List Placed) (p : Placed) (fk : ForeignKeyDraft) :
    Attempt ParseError Ends :=
  match p.columnId? fk.fromColumn with
  | none => throw (.missingReference fk.name s!"{p.draft.key.spelling}.{fk.fromColumn}")
  | some fromColumnId =>
    match lastIndex? (tables.map fun q => q.draft.key) fk.target with
    | none => throw (resolveEnds.missing fk)
    | some i => do
      let target ← found tables[i]?
      match target.columnId? fk.targetColumn with
      | none => throw (resolveEnds.missing fk)
      | some toColumnId => return ⟨fromColumnId, target.table.id, toColumnId⟩

def resolveForeignKeys (ids : Ids) (tables : List Placed) (i : Nat) (p : Placed) :
    Attempt ParseError Table := do
  let drafts := p.draft.foreignKeys
  let ends ← drafts.mapM (resolveEnds tables p)
  let names := constraintNames p.draft.key.name [] drafts
  return { p.table with
    foreignKeys := ((names.zip ends).zip drafts).mapIdx fun j x =>
      foreignKey (ids.foreignKey i j) x.1.1 x.1.2 x.2 }

/-- Writes a comment into the table at the place of its key. -/
def applyComment (keys : List QualifiedName) (tables : List Table) (comment : CommentDraft) :
    Attempt ParseError (List Table) :=
  match comment.target with
  | .table key =>
    match lastIndex? keys key with
    | none => throw (applyComment.missing comment)
    | some i => do
      let t ← found tables[i]?
      return tables.set i { t with comment := comment.text }
  | .column key name =>
    match lastIndex? keys key with
    | none => throw (applyComment.missing comment)
    | some i => do
      let t ← found tables[i]?
      match updateFirst? (·.name == name) (fun c => { c with comment := comment.text }) t.columns with
      | none => throw (applyComment.missing comment)
      | some columns => return tables.set i { t with columns }

def resolve (ids : Ids) (d : Draft) : Attempt ParseError Model := do
  let placed := d.placed ids
  let tables ← placed.zipIdx.mapM fun x => resolveForeignKeys ids placed x.2 x.1
  let tables ← d.comments.foldlM (applyComment (d.tables.map TableDraft.key)) tables
  return d.model ids tables

end Indexed

/-! ## Places of keys -/

section Places

variable {α : Type} {f : α → QualifiedName} {key : QualifiedName} {xs : List α}

/-- The element at the place is the one with the key. -/
structure StandsAt (f : α → QualifiedName) (key : QualifiedName) (xs : List α) (i : Nat) (x : α) :
    Prop where
  key_eq : f x = key
  getElem?_eq : xs[i]? = some x
  find?_eq : xs.find? (fun y => f y == key) = some x
  updateFirst?_eq : ∀ g, updateFirst? (fun y => f y == key) g xs = some (xs.set i (g x))
  map_eq : ∀ g : α → α, (xs.map fun y => if f y == key then g y else y) = xs.set i (g x)

theorem standsAt_append {front back : List α} {x : α} (hkey : f x = key)
    (hfront : ∀ y ∈ front, (f y == key) = false) (hback : ∀ y ∈ back, (f y == key) = false) :
    StandsAt f key (front ++ x :: back) front.length x := by
  have hbeq : (f x == key) = true := beq_iff_eq.2 hkey
  refine ⟨hkey, by simp, ?_, fun g => ?_, fun g => ?_⟩
  · rw [List.find?_append, List.find?_eq_none.2 (by simpa using hfront), List.find?_cons, hbeq]
    rfl
  · rw [updateFirst?_append hfront, updateFirst?, hbeq]
    simp
  · have hsame {ys : List α} (hys : ∀ y ∈ ys, (f y == key) = false) :
        (ys.map fun y => if f y == key then g y else y) = ys := by
      rw [List.map_congr_left (g := id) fun y hy => by rw [hys y hy]; rfl, List.map_id]
    rw [List.map_append, List.map_cons, hsame hfront, hsame hback, hbeq]
    simp

theorem lastIndex?_append {front back : List QualifiedName} (hback : key ∉ back) :
    lastIndex? (front ++ key :: back) key = some front.length := by
  have hnone : ((back.zipIdx (front.length + 1)).reverse.find? fun p => p.1 == key) = none := by
    rw [List.find?_eq_none]
    intro p hp hbeq
    exact hback (beq_iff_eq.1 hbeq ▸ List.fst_mem_of_mem_zipIdx (List.mem_reverse.1 hp))
  rw [lastIndex?, List.zipIdx_append, List.zipIdx_cons, List.reverse_append, List.reverse_cons,
    List.find?_append, List.find?_append]
  simp [hnone]

theorem lastIndex?_eq_none {keys : List QualifiedName} (h : key ∉ keys) : lastIndex? keys key = none := by
  rw [lastIndex?, Option.map_eq_none_iff, List.find?_eq_none]
  intro p hp hbeq
  exact h (beq_iff_eq.1 hbeq ▸ List.fst_mem_of_mem_zipIdx (List.mem_reverse.1 hp))

/-- Among distinct keys the index says where the key stands, if it stands anywhere. -/
theorem lastIndex?_cases (h : (xs.map f).Nodup) (key : QualifiedName) :
    (lastIndex? (xs.map f) key = none ∧ ∀ x ∈ xs, (f x == key) = false) ∨
      ∃ i x, lastIndex? (xs.map f) key = some i ∧ StandsAt f key xs i x := by
  have hne {y : α} {ys : List α} (hy : y ∈ ys) (hkey : key ∉ ys.map f) : (f y == key) = false :=
    beq_eq_false_iff_ne.2 fun heq => hkey (List.mem_map.2 ⟨y, hy, heq⟩)
  by_cases hmem : key ∈ xs.map f
  · obtain ⟨x, hx, rfl⟩ := List.mem_map.1 hmem
    obtain ⟨front, back, rfl⟩ := List.append_of_mem hx
    rw [List.map_append, List.map_cons, List.nodup_middle, List.nodup_cons, List.mem_append,
      not_or] at h
    obtain ⟨⟨hfront, hback⟩, -⟩ := h
    refine .inr ⟨front.length, x, ?_, standsAt_append rfl (fun _ hy => hne hy hfront)
      fun _ hy => hne hy hback⟩
    rw [List.map_append, List.map_cons, lastIndex?_append hback, List.length_map]
  · exact .inl ⟨lastIndex?_eq_none hmem, fun _ hx => hne hx hmem⟩

end Places

/-! ## Foreign keys -/

section Resolve

variable {ids : Ids} {tables : List Placed} (hkeys : (tables.map fun q => q.draft.key).Nodup)

include hkeys

theorem resolveEnds_follows (p : Placed) (fk : ForeignKeyDraft) :
    Follows Eq (Indexed.resolveEnds tables p fk) (resolveEnds tables p fk) := by
  rw [Indexed.resolveEnds, resolveEnds, findPlaced?]
  cases p.columnId? fk.fromColumn with
  | none => exact .error _
  | some fromColumnId =>
    dsimp only
    obtain ⟨hindex, hnone⟩ | ⟨i, target, hindex, htarget⟩ := lastIndex?_cases hkeys fk.target
    · rw [hindex, List.find?_eq_none.2 (by simpa using hnone)]
      exact .error _
    · rw [hindex, htarget.find?_eq]
      dsimp only
      rw [htarget.getElem?_eq]
      dsimp only [found]
      rw [pure_bind]
      cases target.columnId? fk.targetColumn with
      | none => exact .error _
      | some toColumnId => exact .ok rfl

theorem resolveForeignKeys_follows (i : Nat) (p : Placed) :
    Follows Eq (Indexed.resolveForeignKeys ids tables i p) (resolveForeignKeys ids tables i p) := by
  refine (Follows.mapM (resolveEnds_follows hkeys p) p.draft.foreignKeys).bind ?_
  rintro ends _ rfl
  exact .ok rfl

end Resolve

/-! ## Comments -/

/-- The tables without their keys, which do not change. -/
structure KeyedAs (keys : List QualifiedName) (tables : List Table) (keyed : KeyedTables) : Prop where
  keys_eq : keyed.map Prod.fst = keys
  tables_eq : keyed.map Prod.snd = tables

theorem keyedAs_set {keyed : KeyedTables} {i : Nat} {x : QualifiedName × Table}
    (hx : keyed[i]? = some x) (t : Table) :
    KeyedAs (keyed.map Prod.fst) ((keyed.map Prod.snd).set i t) (keyed.set i (x.1, t)) := by
  obtain ⟨hi, rfl⟩ := List.getElem?_eq_some_iff.1 hx
  refine ⟨?_, List.map_set⟩
  calc (keyed.set i (keyed[i].1, t)).map Prod.fst
      = (keyed.map Prod.fst).set i keyed[i].1 := List.map_set
    _ = (keyed.set i keyed[i]).map Prod.fst := List.map_set.symm
    _ = keyed.map Prod.fst := by rw [List.set_getElem_self]

theorem applyComment_follows {keyed : KeyedTables} (hkeys : (keyed.map Prod.fst).Nodup)
    (comment : CommentDraft) : Follows (KeyedAs (keyed.map Prod.fst))
      (Indexed.applyComment (keyed.map Prod.fst) (keyed.map Prod.snd) comment)
      (applyComment keyed comment) := by
  have htable {i : Nat} {x : QualifiedName × Table} (hx : keyed[i]? = some x) :
      (keyed.map Prod.snd)[i]? = some x.2 := by
    rw [List.getElem?_map, hx]
    rfl
  obtain ⟨target, text⟩ := comment
  cases target with
  | table key =>
    rw [Indexed.applyComment, applyComment]
    dsimp only
    obtain ⟨hindex, hnone⟩ | ⟨i, x, hindex, hx⟩ := lastIndex?_cases hkeys key
    · rw [hindex, updateFirst?_eq_none_iff.2 hnone]
      exact .error _
    · rw [hindex, hx.updateFirst?_eq]
      dsimp only
      rw [htable hx.getElem?_eq]
      exact .ok (keyedAs_set hx.getElem?_eq _)
  | column key name =>
    rw [Indexed.applyComment, applyComment]
    dsimp only
    obtain ⟨hindex, hnone⟩ | ⟨i, x, hindex, hx⟩ := lastIndex?_cases hkeys key
    · rw [hindex, List.find?_eq_none.2 (by simpa using hnone)]
      exact .error _
    · rw [hindex, hx.find?_eq]
      dsimp only [Option.bind_some]
      rw [htable hx.getElem?_eq]
      dsimp only [found]
      rw [pure_bind]
      cases updateFirst? (fun c => c.name == name) (fun c => { c with comment := text }) x.2.columns with
      | none => exact .error _
      | some columns =>
        have hmap := hx.map_eq fun y => (y.1, { y.2 with columns })
        have hsame : (keyed.map fun y => (y.1, if y.1 == key then { y.2 with columns } else y.2)) =
            keyed.set i (x.1, { x.2 with columns }) := by
          rw [← hmap]
          refine List.map_congr_left fun y _ => ?_
          cases y.1 == key <;> rfl
        dsimp only
        rw [hsame]
        exact .ok (keyedAs_set hx.getElem?_eq _)

/-! ## The whole draft -/

/-- The index never leads out of the tables, and a draft is resolved with it as it is without. -/
theorem resolve_follows (ids : Ids) {d : Draft} (hkeys : (d.tables.map TableDraft.key).Nodup) :
    Follows Eq (Indexed.resolve ids d) (d.resolve ids) := by
  have hplaced : (d.placed ids).map (fun q => q.draft.key) = d.tables.map TableDraft.key := by
    have := congrArg (List.map TableDraft.key) (map_draft_placed ids d)
    rwa [List.map_map] at this
  have hread : d.resolve ids = resolvedTables ids d >>= fun ts =>
      d.comments.foldlM applyComment ((d.tables.map TableDraft.key).zip ts) >>= fun keyed =>
        .ok (d.model ids (keyed.map Prod.snd)) := rfl
  have htables : Follows Eq
      ((d.placed ids).zipIdx.mapM fun x => Indexed.resolveForeignKeys ids (d.placed ids) x.2 x.1)
      (resolvedTables ids d) :=
    .mapM (fun (x : Placed × Nat) => resolveForeignKeys_follows (hplaced ▸ hkeys) x.2 x.1) _
  rw [Indexed.resolve, hread]
  refine htables.and_eq_ok.bind ?_
  rintro ts _ ⟨rfl, hts⟩
  have hlength : ts.length = d.tables.length := by
    have := congrArg List.length (mapM_eq_ok_iff.1 hts)
    simpa [Draft.placed] using this.symm
  have hkeyed : KeyedAs (d.tables.map TableDraft.key) ts ((d.tables.map TableDraft.key).zip ts) :=
    ⟨List.map_fst_zip (by simp [hlength]), List.map_snd_zip (by simp [hlength])⟩
  -- a comment leaves the keys as they are, so the index is right for the next one too
  have hstep (tables : List Table) (keyed : KeyedTables) (comment : CommentDraft)
      (h : KeyedAs (d.tables.map TableDraft.key) tables keyed) :
      Follows (KeyedAs (d.tables.map TableDraft.key))
        (Indexed.applyComment (d.tables.map TableDraft.key) tables comment)
        (applyComment keyed comment) := by
    rw [← h.keys_eq, ← h.tables_eq]
    exact applyComment_follows (h.keys_eq ▸ hkeys) comment
  refine (Follows.foldlM hstep hkeyed d.comments).bind fun tables keyed h => .ok ?_
  rw [h.tables_eq]

end SchemaDdl.Script
