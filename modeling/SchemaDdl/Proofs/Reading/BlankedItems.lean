import SchemaDdl.Proofs.Reading.Alike
import SchemaDdl.Proofs.Splitting.Blanking

/-!
# Reading blanked items

The type and the default of a column are kept word for word, with the comments inside them. In
everything else an item of a table body and its blanked copy declare the same.
-/

namespace SchemaDdl.Script

/-! ## Clauses -/

/-- The same clause, with comments blanked in a default expression. -/
inductive ColumnClause.Blanked : ColumnClause → ColumnClause → Prop
  | same (k : ColumnClause) : Blanked k k
  | default {e e' : String} : Script.Blanked e.toList e'.toList → Blanked (.default e) (.default e')
  | unsupported (l l' : Lexeme) : Blanked (.unsupported l) (.unsupported l')

/-- The same column, with comments blanked in its type and in its default. -/
structure ColumnDraft.Blanked (c c' : ColumnDraft) : Prop where
  name : c'.name = c.name
  type : Script.Blanked c.type.toList c'.type.toList
  nullable : c'.nullable = c.nullable
  defaultValue :
    Option.Rel (fun e e' : String => Script.Blanked e.toList e'.toList) c.defaultValue c'.defaultValue
  isPrimaryKey : c'.isPrimaryKey = c.isPrimaryKey
  isUnique : c'.isUnique = c.isUnique

namespace ColumnDraft.Blanked

variable {c c' : ColumnDraft}

theorem ofType (name : String) {type type' : List Char} (h : Script.Blanked type type') :
    ColumnDraft.Blanked { name, type := String.ofList type } { name, type := String.ofList type' } := by
  refine ⟨rfl, ?_, rfl, .none, rfl, rfl⟩
  rw [String.toList_ofList, String.toList_ofList]
  exact h

theorem markPrimaryKey (h : c.Blanked c') : c.markPrimaryKey.Blanked c'.markPrimaryKey :=
  { h with nullable := rfl, isPrimaryKey := rfl, isUnique := rfl }

theorem markUnique (h : c.Blanked c') : c.markUnique.Blanked c'.markUnique :=
  { h with isUnique := rfl }

theorem apply (h : c.Blanked c') {k k' : ColumnClause} (hk : k.Blanked k') :
    (c.apply k).Blanked (c'.apply k') := by
  cases hk with
  | same =>
    cases k with
    | notNull => exact { h with nullable := rfl }
    | null => exact { h with nullable := congrArg Bool.not h.isPrimaryKey }
    | default e => exact { h with defaultValue := .some (.same _) }
    | primaryKey => exact h.markPrimaryKey
    | unique => exact h.markUnique
    | unsupported head => exact h
  | default he => exact { h with defaultValue := .some he }
  | unsupported => exact h

end ColumnDraft.Blanked

section Clauses

variable {l l' : Lexeme} {ls ls' : List Lexeme}

theorem Alike.length_spanType (h : Alike ls ls') (depth : Nat) :
    (spanType depth ls).1.length = (spanType depth ls').1.length := by
  induction ls generalizing ls' depth with
  | nil =>
    rw [alike_nil_iff.1 h]
  | cons l ms ih =>
    obtain ⟨l', ms', rfl, -, htoken, hms⟩ := h.exists_cons
    rw [spanType, spanType, htoken]
    split
    · rfl
    · exact congrArg Nat.succ (ih hms.alike _)

theorem Alike.spanType (h : Alike ls ls') :
    Alike (spanType 0 ls).1 (spanType 0 ls').1 ∧ Alike (spanType 0 ls).2 (spanType 0 ls').2 := by
  have hlength := h.length_spanType 0
  rw [← spanType_append 0 ls, ← spanType_append 0 ls'] at h
  exact h.append hlength

theorem Alike.length_spanDefault (h : Alike ls ls') (first : Bool) (depth : Nat) :
    (spanDefault first depth ls).1.length = (spanDefault first depth ls').1.length := by
  induction ls generalizing ls' first depth with
  | nil =>
    rw [alike_nil_iff.1 h]
  | cons l ms ih =>
    obtain ⟨l', ms', rfl, -, htoken, hms⟩ := h.exists_cons
    have hends : endsDefault l.token ms' = endsDefault l.token ms := by
      rw [endsDefault, endsDefault, isSome_eq_of_rel (hms.alike.takeKeywords ["NULL"])]
    rw [spanDefault, spanDefault, htoken, hends]
    split
    · rfl
    · exact congrArg Nat.succ (ih hms.alike _ _)

theorem Alike.spanDefault (h : Alike ls ls') :
    Alike (spanDefault true 0 ls).1 (spanDefault true 0 ls').1 ∧
      Alike (spanDefault true 0 ls).2 (spanDefault true 0 ls').2 := by
  have hlength := h.length_spanDefault true 0
  rw [← spanDefault_append true 0 ls, ← spanDefault_append true 0 ls'] at h
  exact h.append hlength

theorem Alike.isEmpty (h : Alike ls ls') : ls'.isEmpty = ls.isEmpty := by
  obtain ⟨rfl, rfl⟩ | ⟨l, ms, l', ms', rfl, rfl, -⟩ := h.cases <;> rfl

theorem Alike.defaultExpression (h : Alike ls ls') :
    Both (Captured fun e e' => Blanked e.toList e'.toList) (defaultExpression ls)
      (defaultExpression ls') := by
  obtain ⟨hexpression, hrest⟩ := h.spanDefault
  rw [Script.defaultExpression, Script.defaultExpression]
  simp only [hexpression.isEmpty]
  split
  · exact .error _ _
  · refine .ok ⟨?_, hrest⟩
    rw [String.toList_ofList, String.toList_ofList]
    exact hexpression.verbatim

theorem Restated.skipClause (h : Restated ls ls') (previous : Token) (depth : Nat) :
    Restated (skipClause previous depth ls) (skipClause previous depth ls') := by
  induction ls generalizing ls' previous depth with
  | nil =>
    rw [alike_nil_iff.1 h.alike]
    exact restated_nil
  | cons l ms ih =>
    obtain ⟨l', ms', rfl, -, htoken, hms⟩ := h.alike.exists_cons
    rw [Script.skipClause, Script.skipClause, htoken]
    split
    · exact h
    · exact ih hms _ _

theorem Alike.clause (h : Alike (l :: ls) (l' :: ls')) :
    Both (Captured ColumnClause.Blanked) (clause l ls) (clause l' ls') := by
  obtain ⟨m, ms, hcons, -, htoken, hms⟩ := h.exists_cons
  obtain ⟨rfl, rfl⟩ := List.cons.inj hcons
  have hsame (k : ColumnClause) {rest rest' : List Lexeme} (hrest : Alike rest rest') :
      Both (Captured ColumnClause.Blanked) (.ok (k, rest) : Except String (ColumnClause × List Lexeme))
        (.ok (k, rest') : Except String (ColumnClause × List Lexeme)) :=
    .ok ⟨.same k, hrest⟩
  rw [Script.clause, Script.clause]
  -- the keyword lists are to be compared as they stand, and not by what they take
  with_reducible refine rel_elim (h.takeKeywords ["NOT", "NULL"]) (fun _ _ hrest => hsame _ hrest) ?_
  with_reducible refine rel_elim (h.takeKeywords ["NULL"]) (fun _ _ hrest => hsame _ hrest) ?_
  with_reducible refine rel_elim (h.takeKeywords ["DEFAULT"]) (fun _ _ hrest => ?_) ?_
  · refine hrest.defaultExpression.map ?_
    rintro _ _ ⟨he, hrest⟩
    exact ⟨.default he, hrest⟩
  with_reducible refine rel_elim (h.takeKeywords ["PRIMARY", "KEY"]) (fun _ _ hrest => hsame _ hrest) ?_
  with_reducible refine rel_elim (h.takeKeywords ["UNIQUE"]) (fun _ _ hrest => hsame _ hrest) ?_
  rw [htoken]
  exact .ok ⟨.unsupported _ _, (hms.skipClause _ _).alike⟩

/-- Goes on behind a clause of a column. -/
def afterClause (strict : Bool) (c : ColumnDraft) (k : ColumnClause) (rest : List Lexeme) :
    Except String ColumnDraft :=
  match strict, k with
  | true, .unsupported head => .error s!"unsupported column clause {head.quotedText}"
  | _, _ => columnClauses strict (c.apply k) rest

theorem columnClauses_eq (strict : Bool) (c : ColumnDraft) (l : Lexeme) (ls : List Lexeme) :
    columnClauses strict c (l :: ls) =
      if isDone (l :: ls) then .ok c
      else clause l ls >>= fun p => afterClause strict c p.1 p.2 := by
  rw [columnClauses]
  split
  · rfl
  · split
    · rename_i e he
      rw [he]
      rfl
    · rename_i k rest hk
      have hstep : (clause l ls >>= fun p => afterClause strict c p.1 p.2) =
          afterClause strict c k rest := by
        rw [hk]
        rfl
      rw [hstep]
      cases strict <;> cases k <;> rfl

theorem Alike.columnClauses (h : Alike ls ls') (strict : Bool) {c c' : ColumnDraft}
    (hc : c.Blanked c') :
    Both ColumnDraft.Blanked (columnClauses strict c ls) (columnClauses strict c' ls') := by
  -- on the length, for a clause takes as many lexemes as it has
  induction hn : ls.length using Nat.strongRecOn generalizing ls ls' c c' with
  | _ n ih =>
    cases ls with
    | nil =>
      rw [alike_nil_iff.1 h, Script.columnClauses, Script.columnClauses]
      exact .ok hc
    | cons l ms =>
      obtain ⟨l', ms', rfl, -⟩ := h.exists_cons
      rw [columnClauses_eq, columnClauses_eq, h.isDone]
      split
      · exact .ok hc
      · refine h.clause.bind_of_ok ?_
        rintro ⟨k, rest⟩ ⟨k', rest'⟩ hk - ⟨hkk, hrest⟩
        have hmore := ih rest.length (hn ▸ length_clause_lt hk) hrest (hc.apply hkk) rfl
        -- strict reading stops at an unsupported clause, and nothing else does
        cases strict with
        | false => exact hmore
        | true =>
          cases hkk with
          | same =>
            cases k with
            | unsupported head => exact .error _ _
            | _ => exact hmore
          | default he => exact hmore
          | unsupported head head' => exact .error _ _

theorem Alike.columnDefinition (h : Alike ls ls') (strict inferId : Bool) (table : QualifiedName) :
    Both ColumnDraft.Blanked (columnDefinition strict inferId table ls)
      (columnDefinition strict inferId table ls') := by
  refine (both_inContext (h.name "column name") _ _).bind ?_
  rintro ⟨name, rest⟩ _ ⟨rfl, hrest⟩
  refine both_inContext ?_ _ _
  obtain ⟨htype, hclauses⟩ := hrest.spanType
  simp only [htype.isEmpty]
  split
  · exact .error _ _
  · refine hclauses.columnClauses strict ?_
    have hcolumn := ColumnDraft.Blanked.ofType name htype.verbatim
    split
    · exact hcolumn.markPrimaryKey
    · exact hcolumn

end Clauses

/-! ## Items -/

/-- The same item, with comments blanked in the type and the default of a column. -/
inductive TableItem.Blanked : TableItem → TableItem → Prop
  | column {c c' : ColumnDraft} : c.Blanked c' → Blanked (.column c) (.column c')
  | same (item : TableItem) : item.column? = none → Blanked item item

section Items

variable {ls ls' : List Lexeme}

theorem both_unsupported {α α' : Type} {r : α → α' → Prop} (strict : Bool) (what : String)
    (text text' : List Char) {skipped : α} {skipped' : α'} (h : r skipped skipped') :
    Both r (unsupported strict what text skipped) (unsupported strict what text' skipped') := by
  cases strict with
  | false => exact .ok h
  | true => exact .error _ _

theorem Alike.primaryKeyItem (h : Alike ls ls') :
    Both TableItem.Blanked (primaryKeyItem ls) (primaryKeyItem ls') := by
  refine both_inContext ?_ _ _
  refine (h.nameList _).bind ?_
  rintro ⟨columns, rest⟩ _ ⟨rfl, hrest⟩
  refine (hrest.finish _).bind fun _ _ _ => ?_
  exact .ok (.same _ rfl)

theorem Alike.uniqueItem (h : Alike ls ls') :
    Both TableItem.Blanked (uniqueItem ls) (uniqueItem ls') := by
  refine both_inContext ?_ _ _
  refine (h.nameList _).bind ?_
  rintro ⟨columns, rest⟩ _ ⟨rfl, hrest⟩
  refine (hrest.finish _).bind fun _ _ _ => ?_
  exact .ok (.same _ rfl)

theorem Alike.referenceActions (h : Alike ls ls') (acc : ReferenceActions) :
    Both (Captured Eq) (referenceActions acc ls) (referenceActions acc ls') := by
  induction hn : ls.length using Nat.strongRecOn generalizing ls ls' acc with
  | _ n ih =>
    have hmore {keyword : String} {behind behind' : List Lexeme} (set : Action → ReferenceActions)
        (htake : Script.takeKeywords ["ON", keyword] ls = some behind) (hbehind : Alike behind behind') :
        Both (Captured Eq) (Script.action behind >>= fun p => Script.referenceActions (set p.1) p.2)
          (Script.action behind' >>= fun p => Script.referenceActions (set p.1) p.2) := by
      refine hbehind.action.bind_of_ok ?_
      rintro ⟨a, rest⟩ _ ha - ⟨rfl, hrest⟩
      have hlt := length_action_lt ha
      have hlt' := length_takeKeywords_lt htake
      exact ih rest.length (by omega) hrest _ rfl
    rw [referenceActions_eq, referenceActions_eq acc ls']
    obtain ⟨hdelete, hdelete'⟩ | ⟨behind, behind', hdelete, hdelete', hbehind⟩ :=
      cases_of_rel (h.takeKeywords ["ON", "DELETE"])
    · obtain ⟨hupdate, hupdate'⟩ | ⟨behind, behind', hupdate, hupdate', hbehind⟩ :=
        cases_of_rel (h.takeKeywords ["ON", "UPDATE"])
      · simp only [hdelete, hdelete', hupdate, hupdate', isSome_eq_of_rel (h.takeKeywords ["ON"])]
        split
        · exact .error _ _
        · exact .ok ⟨rfl, h⟩
      · simp only [hdelete, hdelete', hupdate, hupdate']
        exact hmore (fun a => { acc with onUpdate := some a }) hupdate hbehind
    · simp only [hdelete, hdelete']
      exact hmore (fun a => { acc with onDelete := some a }) hdelete hbehind

theorem Alike.foreignKeyItem (h : Alike ls ls') (table : QualifiedName) (constraint : Option String) :
    Both TableItem.Blanked (foreignKeyItem table constraint ls) (foreignKeyItem table constraint ls') := by
  refine both_inContext ?_ _ _
  refine (h.nameList _).bind ?_
  rintro ⟨source, rest⟩ _ ⟨rfl, hrest⟩
  refine (hrest.expectKeywords _).bind fun _ _ hrest => ?_
  refine (hrest.qualifiedName _).bind ?_
  rintro ⟨target, rest⟩ _ ⟨rfl, hrest⟩
  refine (hrest.nameList _).bind ?_
  rintro ⟨targetColumns, rest⟩ _ ⟨rfl, hrest⟩
  simp only
  split
  · refine (hrest.referenceActions _).bind ?_
    rintro ⟨actions, rest⟩ _ ⟨rfl, hrest⟩
    refine (hrest.finish _).bind fun _ _ _ => ?_
    exact .ok (.same _ rfl)
  · exact .error _ _

theorem Alike.namedItem (h : Alike ls ls') (strict : Bool) (table : QualifiedName)
    (text text' : List Char) :
    Both TableItem.Blanked (namedItem strict table text ls) (namedItem strict table text' ls') := by
  refine (both_inContext (h.name _) _ _).bind ?_
  rintro ⟨name, rest⟩ _ ⟨rfl, hrest⟩
  dsimp only
  refine rel_elim (hrest.takeKeywords ["FOREIGN", "KEY"])
    (fun _ _ hrest => hrest.foreignKeyItem table _) ?_
  refine rel_elim (hrest.takeKeywords ["PRIMARY", "KEY"]) (fun _ _ hrest => hrest.primaryKeyItem) ?_
  refine rel_elim (hrest.takeKeywords ["UNIQUE"]) (fun _ _ hrest => hrest.uniqueItem) ?_
  simp only [isSome_eq_of_rel (hrest.takeKeywords ["CHECK"]),
    isSome_eq_of_rel (hrest.takeKeywords ["EXCLUDE"])]
  split
  · exact both_unsupported strict _ _ _ (.same _ rfl)
  · exact .error _ _

/-- An item is read alike from two texts that are read as alike lexemes. -/
theorem both_tableItem {text text' : List Char} (h : Both Alike (lex text) (lex text'))
    (options : Options) (table : QualifiedName) :
    Both TableItem.Blanked (tableItem options table text) (tableItem options table text') := by
  refine (h.mapError _ _).bind fun ls ls' hls => ?_
  refine rel_elim (hls.dispatch itemRules) ?_ ?_
  · rintro ⟨kind, rest⟩ _ ⟨rfl, hrest⟩
    cases kind with
    | primaryKey => exact hrest.primaryKeyItem
    | unique => exact hrest.uniqueItem
    | foreignKey => exact hrest.foreignKeyItem table none
    | named => exact hrest.namedItem _ _ _ _
    | unsupported => exact both_unsupported _ _ _ _ (.same _ rfl)
  · refine (hls.columnDefinition _ _ _).bind fun c c' hc => ?_
    exact .ok (.column hc)

end Items

end SchemaDdl.Script
