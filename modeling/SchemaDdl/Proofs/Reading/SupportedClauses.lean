import SchemaDdl.Proofs.Reading.UnsupportedClauses

/-!
# Column definitions whose clauses are supported

The clauses of a column definition can be given in any order. Each of them sets a flag that no other
one takes back, there is one default at most, and the type and the default end at the same token
whatever clause comes next.
-/

namespace SchemaDdl.Script

/-! ## What is cited -/

/-- The text is what is written from the first of the lexemes to the last. -/
def Cites (excerpt : String) (ls : List Lexeme) : Prop :=
  ∃ l ∈ ls.head?, written ls = l.gap ++ excerpt.toList

theorem cites_iff {excerpt : String} {ls : List Lexeme} (h : ls ≠ []) :
    Cites excerpt ls ↔ excerpt = String.ofList (verbatim ls) := by
  obtain ⟨l, ls, rfl⟩ := List.exists_cons_of_ne_nil h
  have hwritten : written (l :: ls) = l.gap ++ verbatim (l :: ls) := by
    rw [written_cons]
    rfl
  have hcites : Cites excerpt (l :: ls) ↔ verbatim (l :: ls) = excerpt.toList := by
    rw [Cites, hwritten]
    simp
  rw [hcites]
  constructor
  · intro heq
    rw [heq, String.ofList_toList]
  · rintro rfl
    rw [String.toList_ofList]

/-! ## What clauses come to -/

namespace WrittenClause

variable {ks : List WrittenClause}

theorem clause_ne_null (k : WrittenClause) : k.clause ≠ .null := by
  obtain ⟨clause, lexemes, written⟩ := k
  cases written <;> exact ColumnClause.noConfusion

/-- The expression of a default is cited behind its keyword. -/
theorem clause_eq_default_iff {k : WrittenClause} {e : String} :
    k.clause = .default e ↔ k.isDefault = true ∧ Cites e k.lexemes.tail := by
  obtain ⟨clause, lexemes, written⟩ := k
  cases written with
  | default _ he =>
    simp only [isDefault, List.tail_cons, cites_iff he.nonempty, ColumnClause.default.injEq, true_and]
    exact eq_comm
  | _ => simp [isDefault]

/-- What each clause keeps, all of them keep. -/
theorem foldl_apply_eq {α : Type} {f : ColumnDraft → α}
    (h : ∀ c, ∀ k ∈ ks, f (apply c k) = f c) (c : ColumnDraft) : f (ks.foldl apply c) = f c := by
  induction ks generalizing c with
  | nil => rfl
  | cons k ks ih =>
    rw [List.foldl_cons, ih fun c k hk => h c k (List.mem_cons_of_mem _ hk), h c k List.mem_cons_self]

/-- What each clause sets or keeps holds in the end if it holds at the start or a clause sets it. -/
theorem foldl_apply_iff {P : ColumnDraft → Prop} {sets : WrittenClause → Prop}
    (h : ∀ c k, P (apply c k) ↔ P c ∨ sets k) (ks : List WrittenClause) (c : ColumnDraft) :
    P (ks.foldl apply c) ↔ P c ∨ ∃ k ∈ ks, sets k := by
  induction ks generalizing c with
  | nil => simp
  | cons k ks ih => rw [List.foldl_cons, ih, h, List.exists_mem_cons_iff, or_assoc]

theorem isPrimaryKey_foldl_apply (ks : List WrittenClause) (c : ColumnDraft) :
    (ks.foldl apply c).isPrimaryKey = true ↔
      c.isPrimaryKey = true ∨ ∃ k ∈ ks, k.clause = .primaryKey := by
  refine foldl_apply_iff (P := fun c => c.isPrimaryKey = true) (fun c k => ?_) ks c
  rw [apply]
  cases k.clause <;> simp [ColumnDraft.apply, ColumnDraft.markPrimaryKey, ColumnDraft.markUnique]

theorem isUnique_foldl_apply (ks : List WrittenClause) (c : ColumnDraft) :
    (ks.foldl apply c).isUnique = true ↔
      c.isUnique = true ∨ ∃ k ∈ ks, k.clause = .primaryKey ∨ k.clause = .unique := by
  refine foldl_apply_iff (P := fun c => c.isUnique = true) (fun c k => ?_) ks c
  rw [apply]
  cases k.clause <;> simp [ColumnDraft.apply, ColumnDraft.markPrimaryKey, ColumnDraft.markUnique]

theorem nullable_foldl_apply (ks : List WrittenClause) (c : ColumnDraft) :
    (ks.foldl apply c).nullable = false ↔
      c.nullable = false ∨ ∃ k ∈ ks, k.clause = .primaryKey ∨ k.clause = .notNull := by
  refine foldl_apply_iff (P := fun c => c.nullable = false) (fun c k => ?_) ks c
  have hnull := k.clause_ne_null
  rw [apply]
  cases hk : k.clause with
  | null => exact absurd hk hnull
  | _ => simp [ColumnDraft.apply, ColumnDraft.markPrimaryKey, ColumnDraft.markUnique]

/-- With one default at most, there is no second one to replace it. -/
theorem defaultValue_foldl_apply (hone : ks.countP isDefault ≤ 1) {c : ColumnDraft}
    (hnone : c.defaultValue = none) (e : String) :
    (ks.foldl apply c).defaultValue = some e ↔ ∃ k ∈ ks, k.clause = .default e := by
  have hkept {k : WrittenClause} (hk : ¬k.isDefault = true) (c : ColumnDraft) :
      (apply c k).defaultValue = c.defaultValue := by
    rw [isDefault] at hk
    rw [apply]
    cases hclause : k.clause with
    | default e' => simp [hclause] at hk
    | _ => rfl
  have hnot {k : WrittenClause} (hk : ¬k.isDefault = true) : k.clause ≠ .default e :=
    fun he => hk (clause_eq_default_iff.1 he).1
  induction ks generalizing c with
  | nil => simp [hnone]
  | cons k ks ih =>
    rw [List.foldl_cons, List.exists_mem_cons_iff]
    by_cases hk : k.isDefault = true
    · rw [List.countP_cons_of_pos hk] at hone
      have hzero : ∀ k ∈ ks, ¬k.isDefault = true := List.countP_eq_zero.1 (by omega)
      have hnone : ¬∃ k ∈ ks, k.clause = .default e := by
        rintro ⟨k, hk, he⟩
        exact hnot (hzero k hk) he
      rw [foldl_apply_eq fun c k hk => hkept (hzero k hk) c, or_iff_left hnone, apply]
      rw [isDefault] at hk
      cases hclause : k.clause with
      | default e' => simp [ColumnDraft.apply]
      | _ => simp [hclause] at hk
    · rw [List.countP_cons_of_neg hk] at hone
      rw [or_iff_right (hnot hk)]
      exact ih hone ((hkept hk c).trans hnone)

end WrittenClause

/-! ## Columns by what is written -/

namespace WrittenColumn

open WrittenClause

/-- What a definition says of its column. -/
structure Declares (w : WrittenColumn) (inferId : Bool) (c : ColumnDraft) : Prop where
  name : w.name.token.name? = some c.name
  type : Cites c.type w.type
  default : ∀ e, c.defaultValue = some e ↔ ∃ k ∈ w.clauses, k.isDefault = true ∧ Cites e k.lexemes.tail
  primaryKey : c.isPrimaryKey = true ↔
    (∃ k ∈ w.clauses, k.clause = .primaryKey) ∨ inferId = true ∧ c.name = implicitKeyName
  unique : c.isUnique = true ↔ c.isPrimaryKey = true ∨ ∃ k ∈ w.clauses, k.clause = .unique
  notNull : c.nullable = false ↔ c.isPrimaryKey = true ∨ ∃ k ∈ w.clauses, k.clause = .notNull

/-- The same name and type, and the same clauses in any order. -/
structure Permutes (w' w : WrittenColumn) : Prop where
  name : w'.name = w.name
  type : w'.type = w.type
  clauses : (w'.clauses.map WrittenClause.clause).Perm (w.clauses.map WrittenClause.clause)

variable {w w' : WrittenColumn} {inferId : Bool} {c c' : ColumnDraft}

theorem start_eq (w : WrittenColumn) (inferId : Bool) :
    let name := w.name.token.name?.get w.isName
    let isId := inferId && name == implicitKeyName
    w.start inferId = { name, type := String.ofList (verbatim w.type), nullable := !isId
                        isPrimaryKey := isId, isUnique := isId } := by
  rw [start]
  simp only
  cases inferId && w.name.token.name?.get w.isName == implicitKeyName <;> rfl

/-- The clauses make the column that the definition declares. -/
theorem declares_draft (w : WrittenColumn) (inferId : Bool) : w.Declares inferId (w.draft inferId) := by
  have hstart := w.start_eq inferId
  have hname : (w.draft inferId).name = w.name.token.name?.get w.isName := by
    have hkept (c : ColumnDraft) (k : WrittenClause) : (k.apply c).name = c.name := by
      rw [apply]
      cases k.clause <;> rfl
    rw [draft, foldl_apply_eq fun c k _ => hkept c k, hstart]
  have htype : (w.draft inferId).type = String.ofList (verbatim w.type) := by
    have hkept (c : ColumnDraft) (k : WrittenClause) : (k.apply c).type = c.type := by
      rw [apply]
      cases k.clause <;> rfl
    rw [draft, foldl_apply_eq fun c k _ => hkept c k, hstart]
  have hprimary := isPrimaryKey_foldl_apply w.clauses (w.start inferId)
  constructor
  · rw [hname, Option.some_get]
  · rw [cites_iff w.isType.nonempty, htype]
  · intro e
    simp only [← clause_eq_default_iff]
    exact defaultValue_foldl_apply w.oneDefault (by rw [hstart]) e
  · rw [draft, hprimary, or_comm, ← draft, hname, hstart, Bool.and_eq_true, beq_iff_eq]
  · rw [draft, isUnique_foldl_apply, hprimary, hstart]
    simp only [and_or_left, exists_or, or_assoc]
  · rw [draft, nullable_foldl_apply, hprimary, hstart]
    simp only [and_or_left, exists_or, or_assoc, Bool.not_eq_false']

/-- There is one column of which all that is said. -/
theorem Declares.unique_column (h : w.Declares inferId c) (h' : w.Declares inferId c') : c = c' := by
  have hname : c.name = c'.name := Option.some.inj (h.name.symm.trans h'.name)
  have htype : c.type = c'.type :=
    ((cites_iff w.isType.nonempty).1 h.type).trans ((cites_iff w.isType.nonempty).1 h'.type).symm
  have hdefault : c.defaultValue = c'.defaultValue :=
    Option.ext fun e => (h.default e).trans (h'.default e).symm
  have hprimary : c.isPrimaryKey = c'.isPrimaryKey := by
    rw [Bool.eq_iff_iff, h.primaryKey, h'.primaryKey, hname]
  have hunique : c.isUnique = c'.isUnique := by
    rw [Bool.eq_iff_iff, h.unique, h'.unique, hprimary]
  have hnullable : c.nullable = c'.nullable := by
    rw [← Bool.not_inj_iff, Bool.eq_iff_iff, Bool.not_eq_true', Bool.not_eq_true', h.notNull, h'.notNull,
      hprimary]
  cases c
  cases c'
  cases hname
  cases htype
  cases hdefault
  cases hprimary
  cases hunique
  cases hnullable
  rfl

theorem Permutes.refl (w : WrittenColumn) : w.Permutes w :=
  ⟨rfl, rfl, .refl _⟩

theorem Permutes.exists_clause_iff (h : w'.Permutes w) (p : ColumnClause → Prop) :
    (∃ k ∈ w'.clauses, p k.clause) ↔ ∃ k ∈ w.clauses, p k.clause := by
  have hmem : (∃ k ∈ w'.clauses.map WrittenClause.clause, p k) ↔
      ∃ k ∈ w.clauses.map WrittenClause.clause, p k :=
    exists_congr fun k => and_congr_left fun _ => h.clauses.mem_iff
  simpa only [List.mem_map, exists_exists_and_eq_and] using hmem

theorem Permutes.declares (h : w'.Permutes w) (hc : w'.Declares inferId c) : w.Declares inferId c where
  name := h.name ▸ hc.name
  type := h.type ▸ hc.type
  default e := by
    have hdefault := hc.default e
    simp only [← WrittenClause.clause_eq_default_iff] at hdefault ⊢
    exact hdefault.trans (h.exists_clause_iff (· = .default e))
  primaryKey := hc.primaryKey.trans (or_congr_left (h.exists_clause_iff (· = .primaryKey)))
  unique := hc.unique.trans (or_congr_right (h.exists_clause_iff (· = .unique)))
  notNull := hc.notNull.trans (or_congr_right (h.exists_clause_iff (· = .notNull)))

/-! ## Reading -/

/-- Supported clauses are read one after the other, strictly or not. -/
theorem columnClauses_of_supported {ks : List WrittenClause} (hks : ∀ k ∈ ks, k.isUnsupported = false)
    (hone : ks.countP isDefault ≤ 1) (strict : Bool) (c : ColumnDraft) :
    columnClauses strict c (clauseLexemes ks) = .ok (ks.foldl apply c) := by
  induction ks generalizing c with
  | nil => exact Ddl.columnClauses_nil strict c
  | cons k ks ih =>
    have hmore := ih (fun k hk => hks k (List.mem_cons_of_mem _ hk))
      ((List.sublist_cons_self k ks).countP_le.trans hone) (apply c k)
    rw [columnClauses_supported (hks k List.mem_cons_self) hone, hmore, List.foldl_cons]

/-- A quoted name is no keyword. -/
theorem dispatch_of_quoted {n : String} (h : w.name.token = .quoted n) :
    dispatch itemRules w.lexemes = none := by
  have hrules : ∀ rule ∈ itemRules, rule.1 ≠ [] := by decide
  rw [dispatch, List.findSome?_eq_none_iff]
  intro rule hrule
  obtain ⟨k, ks, hks⟩ := List.exists_cons_of_ne_nil (hrules rule hrule)
  rw [hks, lexemes, takeKeywords, h]
  rfl

end WrittenColumn

/-- Supported clauses commute. A definition with such clauses and one default at most is read, strictly
or not, as the one column that it declares, and so is every definition with the same clauses in another
order. Its type and its default are cited from the text. -/
theorem tableItem_of_permutes {w : WrittenColumn} (hsupported : ∀ k ∈ w.clauses, k.isUnsupported = false)
    (hitem : (∃ n, w.name.token = .quoted n) ∨ dispatch itemRules w.lexemes = none) (inferId : Bool)
    (table : QualifiedName) :
    ∃ c, w.Declares inferId c ∧ ∀ (strict : Bool) (w' : WrittenColumn), w'.Permutes w →
      columnDefinition strict inferId table w'.lexemes = .ok c ∧
      ∀ text, lex text = .ok w'.lexemes →
        tableItem { strict, inferId } table text = .ok (.column c) ∧
        ∃ last, text = written w'.lexemes ++ last := by
  refine ⟨w.draft inferId, w.declares_draft inferId, fun strict w' hw' => ?_⟩
  have hsame : w'.draft inferId = w.draft inferId :=
    (hw'.declares (w'.declares_draft inferId)).unique_column (w.declares_draft inferId)
  have hsupported' : ∀ k ∈ w'.clauses, k.isUnsupported = false := by
    intro k hk
    obtain ⟨j, hj, heq⟩ := List.mem_map.1 (hw'.clauses.mem_iff.1 (List.mem_map_of_mem hk))
    rw [← hsupported j hj, WrittenClause.isUnsupported, WrittenClause.isUnsupported, heq]
  have hread : columnDefinition strict inferId table w'.lexemes = .ok (w.draft inferId) := by
    rw [← hsame]
    refine WrittenColumn.columnDefinition_of_clauses ?_ table
    exact WrittenColumn.columnClauses_of_supported hsupported' w'.oneDefault strict _
  have hcolumn : dispatch itemRules w'.lexemes = none := by
    refine (WrittenColumn.dispatch_eq_none_iff hw'.name hw'.type).2 ?_
    rcases hitem with ⟨n, hn⟩ | hitem
    · exact WrittenColumn.dispatch_of_quoted hn
    · exact hitem
  refine ⟨hread, fun text htext => ⟨WrittenColumn.tableItem_of_columnDefinition htext hcolumn hread, ?_⟩⟩
  obtain ⟨⟨ls, last⟩, hls, heq⟩ := exists_of_map_eq_ok htext
  cases heq
  exact ⟨last, (lexemes_eq_ok_iff.1 hls).1⟩

def defaultNull : WrittenClause where
  clause := .default "null"
  lexemes := [Ddl.keyword [' '] "DEFAULT", Ddl.keyword [' '] "null"]
  written := .default (e := [Ddl.keyword [' '] "null"]) rfl
    ⟨by simp, ⟨rfl, rfl⟩, rfl, fun l ls h => by cases h; trivial⟩

def uniqueClause : WrittenClause where
  clause := .unique
  lexemes := [Ddl.keyword [' '] "UNIQUE"]
  written := .unique rfl

/-- A default that is a keyword itself, in front of the other clauses and behind them, of a column that
is named like a constraint. -/
theorem tableItem_of_permutes_null :
    ∃ w w' : WrittenColumn, (∀ k ∈ w.clauses, k.isUnsupported = false) ∧
      (∃ n, w.name.token = .quoted n) ∧ w'.Permutes w ∧
      lex "\"check\" numeric(8) DEFAULT null NOT NULL UNIQUE".toList = .ok w.lexemes ∧
      lex "\"check\" numeric(8) UNIQUE NOT NULL DEFAULT null".toList = .ok w'.lexemes ∧
      ∃ c : ColumnDraft, c.nullable = false ∧ c.isUnique = true ∧ c.defaultValue = some "null" ∧
        tableItem { strict := true, inferId := true } ⟨defaultSchema, "t"⟩
          "\"check\" numeric(8) DEFAULT null NOT NULL UNIQUE".toList = .ok (.column c) ∧
        tableItem { strict := false, inferId := true } ⟨defaultSchema, "t"⟩
          "\"check\" numeric(8) UNIQUE NOT NULL DEFAULT null".toList = .ok (.column c) := by
  let w : WrittenColumn :=
    { name := Ddl.quotedName [] "check"
      isName := rfl
      type := [Ddl.keyword [' '] "numeric", ⟨[], ['('], .openParen⟩, ⟨[], ['8'], .number "8"⟩,
        ⟨[], [')'], .closeParen⟩]
      isType := ⟨by simp, ⟨rfl, rfl⟩, fun _ => rfl, fun _ => rfl, fun _ => rfl, fun _ => rfl, trivial⟩
      clauses := [defaultNull, notNullClause, uniqueClause]
      oneDefault := by decide }
  let w' : WrittenColumn :=
    { w with
      clauses := [uniqueClause, notNullClause, defaultNull]
      oneDefault := by decide }
  have hsupported : ∀ k ∈ w.clauses, k.isUnsupported = false := by decide
  have hquoted : ∃ n, w.name.token = .quoted n := ⟨"check", rfl⟩
  have hpermutes : w'.Permutes w := ⟨rfl, rfl, by decide⟩
  have hlex : lex "\"check\" numeric(8) DEFAULT null NOT NULL UNIQUE".toList = .ok w.lexemes :=
    toOption_eq_some_iff.1 (by decide +kernel)
  have hlex' : lex "\"check\" numeric(8) UNIQUE NOT NULL DEFAULT null".toList = .ok w'.lexemes :=
    toOption_eq_some_iff.1 (by decide +kernel)
  obtain ⟨c, hc, hread⟩ := tableItem_of_permutes hsupported (.inl hquoted) true ⟨defaultSchema, "t"⟩
  refine ⟨w, w', hsupported, hquoted, hpermutes, hlex, hlex', c, ?_, ?_, ?_, ?_, ?_⟩
  · exact hc.notNull.2 (.inr ⟨notNullClause, by simp [w], rfl⟩)
  · exact hc.unique.2 (.inr ⟨uniqueClause, by simp [w], rfl⟩)
  · exact (hc.default "null").2 ⟨defaultNull, by simp [w], rfl, _, rfl, rfl⟩
  · exact ((hread true w (.refl w)).2 _ hlex).1
  · exact ((hread false w' hpermutes).2 _ hlex').1

end SchemaDdl.Script
