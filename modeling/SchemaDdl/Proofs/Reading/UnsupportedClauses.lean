import Mathlib.Data.List.Chain
import SchemaDdl.Proofs.Reading.WrittenClauses
import SchemaDdl.Script.Resolve

/-!
# Column definitions without their unsupported clauses

Lenient reading steps over unsupported clauses. What it reads of a column definition is what it reads
without them, as long as no other clause stands behind a bare `SET` or `BY`.
-/

namespace SchemaDdl.Script

/-- A clause with the lexemes that it is written in. -/
structure WrittenClause where
  clause : ColumnClause
  lexemes : List Lexeme
  written : ClauseLexemes clause lexemes

namespace WrittenClause

def isDefault (k : WrittenClause) : Bool :=
  match k.clause with
  | .default _ => true
  | _ => false

def isUnsupported (k : WrittenClause) : Bool :=
  match k.clause with
  | .unsupported _ => true
  | _ => false

/-- Whether the clause is unsupported and ends in a bare `SET` or `BY`, so that the next keyword is
taken for a part of it. -/
def swallows (k : WrittenClause) : Bool :=
  k.isUnsupported && bindsNext (lastToken .comma k.lexemes)

def apply (c : ColumnDraft) (k : WrittenClause) : ColumnDraft :=
  c.apply k.clause

theorem unsupportedClause {k : WrittenClause} (h : k.isUnsupported = true) :
    UnsupportedClause k.lexemes := by
  obtain ⟨clause, lexemes, written⟩ := k
  cases written with
  | unsupported hls => exact hls
  | _ => cases h

theorem clause_ne_unsupported {k : WrittenClause} (h : k.isUnsupported = false) (head : Lexeme) :
    k.clause ≠ .unsupported head := by
  intro hk
  rw [isUnsupported, hk] at h
  cases h

theorem apply_of_isUnsupported {k : WrittenClause} (h : k.isUnsupported = true) (c : ColumnDraft) :
    apply c k = c := by
  obtain ⟨clause, lexemes, written⟩ := k
  cases clause <;> first | rfl | cases h

/-- `NOT NULL` cannot be lifted, because `NULL` is not written. -/
theorem nullable_apply {c : ColumnDraft} (k : WrittenClause) (h : c.nullable = false) :
    (apply c k).nullable = false := by
  obtain ⟨clause, lexemes, written⟩ := k
  cases written <;> first | rfl | exact h

theorem nullable_foldl {c : ColumnDraft} (ks : List WrittenClause) (h : c.nullable = false) :
    (ks.foldl apply c).nullable = false := by
  induction ks generalizing c with
  | nil => exact h
  | cons k ks ih => exact ih (nullable_apply k h)

theorem nullable_foldl_of_notNull {ks : List WrittenClause} (h : .notNull ∈ ks.map clause)
    (c : ColumnDraft) : (ks.foldl apply c).nullable = false := by
  induction ks generalizing c with
  | nil => cases h
  | cons k ks ih =>
    rw [List.map_cons, List.mem_cons] at h
    rw [List.foldl_cons]
    rcases h with h | h
    · refine nullable_foldl ks ?_
      rw [apply, ← h]
      rfl
    · exact ih h _

end WrittenClause

open WrittenClause

/-- The lexemes of clauses one after the other. -/
def clauseLexemes (ks : List WrittenClause) : List Lexeme :=
  ks.flatMap WrittenClause.lexemes

theorem exists_cons_clauseLexemes (k : WrittenClause) (ks : List WrittenClause) :
    ∃ l ls, k.lexemes = l :: ls ∧ clauseLexemes (k :: ks) = l :: (ls ++ clauseLexemes ks) ∧
      (∃ word ∈ writtenHeads, l.token.isKeyword word = true) ∧
      (k.isDefault = false → endsDefault l.token (ls ++ clauseLexemes ks) = true) := by
  obtain ⟨l, ls, hlexemes, hhead, hends⟩ := k.written.exists_head
  refine ⟨l, ls, hlexemes, ?_, hhead, fun hdefault => hends (fun e he => ?_) _⟩
  · rw [clauseLexemes, List.flatMap_cons, hlexemes]
    rfl
  · rw [isDefault, he] at hdefault
    cases hdefault

theorem head_clauseLexemes (ks : List WrittenClause) :
    ∀ l ∈ (clauseLexemes ks).head?, startsClause l = true ∧ l.token.isKeyword "NULL" = false := by
  cases ks with
  | nil =>
    intro l hl
    cases hl
  | cons k ks =>
    obtain ⟨l, ls, -, heq, ⟨word, hword, hl⟩, -⟩ := exists_cons_clauseLexemes k ks
    rw [heq]
    intro m hm
    cases hm
    exact startsClause_of_head hword hl

/-- Stepping over stops at once where a clause starts. -/
theorem skipClause_clauseLexemes {previous : Token} (h : bindsNext previous = false)
    (ks : List WrittenClause) : skipClause previous 0 (clauseLexemes ks) = clauseLexemes ks := by
  cases hks : clauseLexemes ks with
  | nil => rfl
  | cons l ls =>
    have hl : l.token.isAnyKeyword clauseKeywords = true :=
      (head_clauseLexemes ks l (by rw [hks]; rfl)).1
    rw [skipClause, h, hl]
    rfl

/-- Reading goes on behind a clause, unless it is strict and the clause is unsupported. -/
theorem columnClauses_of_clause {strict : Bool} {c : ColumnDraft} {l : Lexeme} {ls rest : List Lexeme}
    {k : ColumnClause} (hk : strict = true → ∀ head, k ≠ .unsupported head)
    (hclause : clause l ls = .ok (k, rest)) (hdone : isDone (l :: ls) = false) :
    columnClauses strict c (l :: ls) = columnClauses strict (c.apply k) rest := by
  have hbehind : afterClause strict c k rest = columnClauses strict (c.apply k) rest := by
    cases strict with
    | false => cases k <;> rfl
    | true =>
      cases k with
      | unsupported head => exact absurd rfl (hk rfl head)
      | _ => rfl
  rw [columnClauses_eq, hdone, hclause]
  exact hbehind

/-- An unsupported clause is gone behind its last token, whether it is stepped over together with the
clause before it or read as a clause of its own. -/
theorem columnClauses_unsupported {k : WrittenClause} (hk : k.isUnsupported = true) (previous : Token)
    (c : ColumnDraft) (ks : List WrittenClause) :
    columnClauses false c (skipClause previous 0 (clauseLexemes (k :: ks))) =
      columnClauses false c (skipClause (lastToken .comma k.lexemes) 0 (clauseLexemes ks)) := by
  obtain ⟨l, ls, hlexemes, heq, ⟨word, -, hl⟩, -⟩ := exists_cons_clauseLexemes k ks
  have hunsupported : UnsupportedClause (l :: ls) := hlexemes ▸ unsupportedClause hk
  rw [hlexemes, lastToken]
  cases hbinds : bindsNext previous with
  | true =>
    rw [heq, skipClause, hbinds, depthAfter_of_isKeyword hl]
    simp only [Bool.not_true, Bool.and_false, Bool.false_and, Bool.false_eq_true, if_false]
    rw [skipClause_append hunsupported.steppedOver]
  | false =>
    rw [skipClause_clauseLexemes hbinds, heq,
      columnClauses_of_clause (fun h => absurd h Bool.false_ne_true) (hunsupported.clause_eq _)
        (isDone_of_isKeyword hl _)]
    rfl

/-- A supported clause is applied, if nothing before it swallows its keyword. -/
theorem columnClauses_supported {k : WrittenClause} (hk : k.isUnsupported = false)
    {ks : List WrittenClause} (hdefault : (k :: ks).countP isDefault ≤ 1) (strict : Bool)
    (c : ColumnDraft) : columnClauses strict c (clauseLexemes (k :: ks)) =
      columnClauses strict (apply c k) (clauseLexemes ks) := by
  obtain ⟨l, ls, hlexemes, heq, ⟨word, -, hl⟩, -⟩ := exists_cons_clauseLexemes k ks
  have hwritten : ClauseLexemes k.clause (l :: ls) := hlexemes ▸ k.written
  have hclause : clause l (ls ++ clauseLexemes ks) = .ok (k.clause, clauseLexemes ks) := by
    refine hwritten.clause_eq (clause_ne_unsupported hk) (fun m hm => (head_clauseLexemes ks m hm).2) ?_
    intro e he m behind hbehind
    have hone : k.isDefault = true := by rw [isDefault, he]
    rw [List.countP_cons_of_pos hone] at hdefault
    have hzero : ks.countP isDefault = 0 := by omega
    cases ks with
    | nil => cases hbehind
    | cons k' ks =>
      obtain ⟨m', ms, -, heq', -, hends⟩ := exists_cons_clauseLexemes k' ks
      cases heq'.symm.trans hbehind
      exact hends (by simpa using List.countP_eq_zero.1 hzero k' List.mem_cons_self)
  rw [heq, columnClauses_of_clause (fun _ => clause_ne_unsupported hk) hclause (isDone_of_isKeyword hl _)]
  rfl

/-- Clauses are read one after the other, also from the midst of an unsupported clause before them.
`previous` is the last token of that one. -/
theorem columnClauses_skipClause {ks : List WrittenClause}
    (hseparated : ks.IsChain fun a b => a.swallows = true → b.isUnsupported = true)
    (hdefault : ks.countP isDefault ≤ 1) (previous : Token)
    (hprevious : bindsNext previous = true → ∀ k ∈ ks.head?, k.isUnsupported = true)
    (c : ColumnDraft) :
    columnClauses false c (skipClause previous 0 (clauseLexemes ks)) = .ok (ks.foldl apply c) := by
  induction ks generalizing previous c with
  | nil => exact Ddl.columnClauses_nil false c
  | cons k ks ih =>
    obtain ⟨hnext, hseparated'⟩ := List.isChain_cons.1 hseparated
    have hdefault' : ks.countP isDefault ≤ 1 :=
      (List.sublist_cons_self k ks).countP_le.trans hdefault
    rw [List.foldl_cons]
    cases hk : k.isUnsupported with
    | true =>
      rw [columnClauses_unsupported hk, apply_of_isUnsupported hk]
      refine ih hseparated' hdefault' _ (fun hbinds k' hk' => hnext k' hk' ?_) c
      rw [swallows, hk, hbinds]
      rfl
    | false =>
      have hbinds : bindsNext previous = false := by
        rw [Bool.eq_false_iff]
        intro hbinds
        rw [hprevious hbinds k rfl] at hk
        cases hk
      have hrest := ih hseparated' hdefault' .comma (fun h => absurd h Bool.false_ne_true) (apply c k)
      rw [skipClause_clauseLexemes rfl] at hrest
      rw [skipClause_clauseLexemes hbinds, columnClauses_supported hk hdefault]
      exact hrest

/-! ## Column definitions -/

/-- A column definition with clauses of the usual forms. -/
structure WrittenColumn where
  name : Lexeme
  isName : name.token.name?.isSome
  type : List Lexeme
  isType : TypeLexemes type
  clauses : List WrittenClause
  oneDefault : clauses.countP WrittenClause.isDefault ≤ 1

namespace WrittenColumn

def lexemes (w : WrittenColumn) : List Lexeme :=
  w.name :: (w.type ++ clauseLexemes w.clauses)

/-- The definition without its unsupported clauses. -/
def supported (w : WrittenColumn) : WrittenColumn :=
  { w with
    clauses := w.clauses.filter fun k => !k.isUnsupported
    oneDefault := (List.filter_sublist.countP_le).trans w.oneDefault }

/-- No supported clause stands right behind an unsupported one that ends in a bare `SET` or `BY`. -/
def Separated (w : WrittenColumn) : Prop :=
  w.clauses.IsChain fun a b => a.swallows = true → b.isUnsupported = true

/-- The column before its clauses. -/
def start (inferId : Bool) (w : WrittenColumn) : ColumnDraft :=
  let column : ColumnDraft :=
    { name := w.name.token.name?.get w.isName, type := String.ofList (verbatim w.type) }
  if inferId && column.name == implicitKeyName then column.markPrimaryKey else column

/-- The column that the clauses make, one after the other. -/
def draft (inferId : Bool) (w : WrittenColumn) : ColumnDraft :=
  w.clauses.foldl WrittenClause.apply (w.start inferId)

theorem separated_supported (w : WrittenColumn) : w.supported.Separated := by
  refine List.Pairwise.isChain (List.pairwise_of_forall_mem_list fun a ha b _ hswallows => ?_)
  have hsupported := (List.mem_filter.1 ha).2
  rw [WrittenClause.swallows, Bool.and_eq_true] at hswallows
  rw [hswallows.1] at hsupported
  cases hsupported

theorem draft_supported (inferId : Bool) (w : WrittenColumn) :
    w.supported.draft inferId = w.draft inferId := by
  have hstart : w.supported.start inferId = w.start inferId := rfl
  have hclauses : w.supported.clauses = w.clauses.filter fun k => !k.isUnsupported := rfl
  rw [draft, draft, hstart, hclauses, List.foldl_filter]
  refine List.foldl_ext _ _ _ fun c k _ => ?_
  cases hk : k.isUnsupported with
  | true => exact (apply_of_isUnsupported hk c).symm
  | false => rfl

/-- A written column definition is read as the column that its clauses make, if they are read. -/
theorem columnDefinition_of_clauses {w : WrittenColumn} {strict inferId : Bool}
    (hclauses : columnClauses strict (w.start inferId) (clauseLexemes w.clauses) = .ok (w.draft inferId))
    (table : QualifiedName) :
    columnDefinition strict inferId table w.lexemes = .ok (w.draft inferId) := by
  have hname : Script.name "column name" w.lexemes =
      .ok (w.name.token.name?.get w.isName, w.type ++ clauseLexemes w.clauses) := by
    rw [lexemes, Script.name]
    split
    · rename_i n hn
      simp [hn]
    · rename_i hn
      exact absurd w.isName (by simp [hn])
  have hspan : spanType 0 (w.type ++ clauseLexemes w.clauses) = (w.type, clauseLexemes w.clauses) :=
    spanType_append_of_atTop w.isType.noClause fun l hl =>
      ⟨w.isType.balanced.depth, (head_clauseLexemes w.clauses l hl).1⟩
  have hne : w.type.isEmpty = false := List.isEmpty_eq_false_iff.2 w.isType.nonempty
  rw [columnDefinition, hname]
  simp only [inContext, mapError_ok, bind, Except.bind, hspan, hne]
  rw [start] at hclauses
  simp only at hclauses ⊢
  rw [if_neg Bool.false_ne_true, hclauses]
  rfl

theorem columnDefinition_eq {w : WrittenColumn} (h : w.Separated) (inferId : Bool)
    (table : QualifiedName) :
    columnDefinition false inferId table w.lexemes = .ok (w.draft inferId) := by
  have hclauses := columnClauses_skipClause h w.oneDefault .comma (fun h => absurd h Bool.false_ne_true)
    (w.start inferId)
  rw [skipClause_clauseLexemes rfl] at hclauses
  exact columnDefinition_of_clauses hclauses table

theorem nullable_draft {w : WrittenColumn} (h : .notNull ∈ w.clauses.map WrittenClause.clause)
    (inferId : Bool) : (w.draft inferId).nullable = false :=
  nullable_foldl_of_notNull h _

end WrittenColumn

/-! ## Table items -/

theorem takeKeywords_append_eq {ks : List String} {ls : List Lexeme} (h : ks.length ≤ ls.length)
    (rest : List Lexeme) : takeKeywords ks (ls ++ rest) = (takeKeywords ks ls).map (· ++ rest) := by
  induction ks generalizing ls with
  | nil => rfl
  | cons k ks ih =>
    cases ls with
    | nil => cases h
    | cons l ls =>
      rw [List.cons_append, takeKeywords, takeKeywords]
      split
      · exact ih (Nat.le_of_succ_le_succ h)
      · rfl

/-- The first two lexemes tell whether an item is a column definition. -/
theorem dispatch_append_eq_none_iff {ls : List Lexeme} (h : 2 ≤ ls.length) (rest : List Lexeme) :
    dispatch itemRules (ls ++ rest) = none ↔ dispatch itemRules ls = none := by
  have hrules : ∀ rule ∈ itemRules, rule.1.length ≤ 2 := by decide
  rw [dispatch, dispatch, List.findSome?_eq_none_iff, List.findSome?_eq_none_iff]
  refine forall₂_congr fun rule hrule => ?_
  rw [takeKeywords_append_eq ((hrules rule hrule).trans h), Option.map_map, Option.map_eq_none_iff,
    Option.map_eq_none_iff]

namespace WrittenColumn

/-- The clauses do not matter for that, since the name and the type come first. -/
theorem dispatch_eq_none_iff {w w' : WrittenColumn} (hname : w'.name = w.name) (htype : w'.type = w.type) :
    dispatch itemRules w'.lexemes = none ↔ dispatch itemRules w.lexemes = none := by
  have hlength : 2 ≤ (w.name :: w.type).length :=
    Nat.succ_le_succ (List.length_pos_iff.2 w.isType.nonempty)
  have hsplit : w.lexemes = (w.name :: w.type) ++ clauseLexemes w.clauses := rfl
  have hsplit' : w'.lexemes = (w.name :: w.type) ++ clauseLexemes w'.clauses := by
    rw [lexemes, hname, htype]
    rfl
  rw [hsplit, hsplit', dispatch_append_eq_none_iff hlength, dispatch_append_eq_none_iff hlength]

theorem dispatch_supported {w : WrittenColumn} (h : dispatch itemRules w.lexemes = none) :
    dispatch itemRules w.supported.lexemes = none := by
  have hname : w.supported.name = w.name := rfl
  have htype : w.supported.type = w.type := rfl
  exact (dispatch_eq_none_iff hname htype).2 h

theorem tableItem_of_columnDefinition {strict inferId : Bool} {table : QualifiedName} {text : List Char}
    {ls : List Lexeme} {c : ColumnDraft} (htext : lex text = .ok ls) (hcolumn : dispatch itemRules ls = none)
    (h : columnDefinition strict inferId table ls = .ok c) :
    tableItem { strict, inferId } table text = .ok (.column c) := by
  rw [tableItem, htext, mapError_ok]
  simp only [bind, Except.bind, hcolumn, h]
  rfl

theorem tableItem_eq {w : WrittenColumn} (h : w.Separated) (inferId : Bool) (table : QualifiedName)
    (hcolumn : dispatch itemRules w.lexemes = none) {text : List Char} (htext : lex text = .ok w.lexemes) :
    tableItem { strict := false, inferId } table text = .ok (.column (w.draft inferId)) :=
  tableItem_of_columnDefinition htext hcolumn (columnDefinition_eq h inferId table)

end WrittenColumn

/-- In lenient reading unsupported clauses can be deleted from a column definition, unless a supported
one stands right behind a bare `SET` or `BY` at the end of them. So a `NOT NULL` anywhere in the
definition applies. -/
theorem columnDefinition_supported {w : WrittenColumn} (h : w.Separated) (inferId : Bool)
    (table : QualifiedName) :
    ∃ c, columnDefinition false inferId table w.lexemes = .ok c ∧
      columnDefinition false inferId table w.supported.lexemes = .ok c ∧
      (.notNull ∈ w.clauses.map WrittenClause.clause → c.nullable = false) ∧
      (dispatch itemRules w.lexemes = none → ∀ text text' : List Char,
        lex text = .ok w.lexemes → lex text' = .ok w.supported.lexemes →
          tableItem { strict := false, inferId } table text = .ok (.column c) ∧
          tableItem { strict := false, inferId } table text' = .ok (.column c)) := by
  have hsupported := w.separated_supported
  have hdraft := w.draft_supported inferId
  refine ⟨w.draft inferId, WrittenColumn.columnDefinition_eq h inferId table, ?_,
    fun hnull => WrittenColumn.nullable_draft hnull inferId, fun hcolumn text text' htext htext' => ⟨?_, ?_⟩⟩
  · rw [← hdraft]
    exact WrittenColumn.columnDefinition_eq hsupported inferId table
  · exact WrittenColumn.tableItem_eq h inferId table hcolumn htext
  · rw [← hdraft]
    exact WrittenColumn.tableItem_eq hsupported inferId table (WrittenColumn.dispatch_supported hcolumn)
      htext'

def collateSet : WrittenClause where
  clause := .unsupported (Ddl.keyword [' '] "COLLATE")
  lexemes := [Ddl.keyword [' '] "COLLATE", Ddl.keyword [' '] "set"]
  written := .unsupported (.collate rfl (.single ⟨rfl, rfl⟩))

def notNullClause : WrittenClause where
  clause := .notNull
  lexemes := [Ddl.keyword [' '] "NOT", Ddl.keyword [' '] "NULL"]
  written := .notNull rfl

/-- A `COLLATE set` in front of another unsupported clause does no harm. -/
theorem columnDefinition_supported_set :
    ∃ w : WrittenColumn, w.Separated ∧
      lex "a text COLLATE set CONSTRAINT \"by\" DEFAULT x REFERENCES s.t ON DELETE SET NULL NOT NULL".toList =
        .ok w.lexemes ∧
      lex "a text DEFAULT x NOT NULL".toList = .ok w.supported.lexemes ∧
      ∃ c : ColumnDraft, c.nullable = false ∧
        columnDefinition false true ⟨defaultSchema, "t"⟩ w.lexemes = .ok c ∧
        columnDefinition false true ⟨defaultSchema, "t"⟩ w.supported.lexemes = .ok c := by
  let constraint : WrittenClause :=
    ⟨_, [Ddl.keyword [' '] "CONSTRAINT", Ddl.quotedName [' '] "by"],
      .unsupported (.constraint rfl ⟨rfl, rfl⟩)⟩
  let default : WrittenClause :=
    ⟨_, [Ddl.keyword [' '] "DEFAULT", Ddl.keyword [' '] "x"],
      .default rfl ⟨by simp, ⟨rfl, rfl⟩, rfl, fun l ls h => by cases h; trivial⟩⟩
  let references : WrittenClause :=
    ⟨_, Ddl.keyword [' '] "REFERENCES" ::
        ([Ddl.keyword [' '] "s", ⟨[], ['.'], .dot⟩, Ddl.keyword [] "t"] ++ ([] ++
          ([Ddl.keyword [' '] "ON", Ddl.keyword [' '] "DELETE", Ddl.keyword [' '] "SET",
            Ddl.keyword [' '] "NULL"] ++ []))),
      .unsupported (.references rfl (.dotted ⟨rfl, rfl⟩ rfl (.single ⟨rfl, rfl⟩)) .absent
        (.given (a := .setNull) rfl) .absent)⟩
  let w : WrittenColumn :=
    { name := Ddl.keyword [] "a"
      isName := rfl
      type := [Ddl.keyword [' '] "text"]
      isType := ⟨by simp, ⟨rfl, rfl⟩, fun _ => rfl, trivial⟩
      clauses := [collateSet, constraint, default, references, notNullClause]
      oneDefault := by decide }
  have hseparated : w.Separated := by
    rw [WrittenColumn.Separated]
    decide
  obtain ⟨c, hread, hread', hnullable, -⟩ := columnDefinition_supported hseparated true ⟨defaultSchema, "t"⟩
  refine ⟨w, hseparated, ?_, ?_, c, hnullable (by decide), hread, hread'⟩
  · exact toOption_eq_some_iff.1 (by decide +kernel)
  · exact toOption_eq_some_iff.1 (by decide +kernel)

/-- Behind a bare `SET` that is a name, the `NOT` of a `NOT NULL` is stepped over and the `NULL` is read
as a clause of its own. -/
theorem not_null_lost_behind_set :
    (¬ ∀ w : WrittenColumn, ∃ c, columnDefinition false true ⟨defaultSchema, "t"⟩ w.lexemes = .ok c ∧
      columnDefinition false true ⟨defaultSchema, "t"⟩ w.supported.lexemes = .ok c) ∧
    (parse .positional {} "CREATE TABLE t (a int COLLATE set NOT NULL);").toOption.map
        (fun m => m.tables.map fun t => t.columns.map Column.nullable) = some [[true]] ∧
    (parse .positional {} "CREATE TABLE t (a int NOT NULL);").toOption.map
        (fun m => m.tables.map fun t => t.columns.map Column.nullable) = some [[false]] := by
  refine ⟨fun h => ?_, by decide +kernel, by decide +kernel⟩
  let w : WrittenColumn :=
    { name := Ddl.keyword [] "a"
      isName := rfl
      type := [Ddl.keyword [' '] "int"]
      isType := ⟨by simp, ⟨rfl, rfl⟩, fun _ => rfl, trivial⟩
      clauses := [collateSet, notNullClause]
      oneDefault := by decide }
  obtain ⟨c, hc, hc'⟩ := h w
  have hlost : (columnDefinition false true ⟨defaultSchema, "t"⟩ w.lexemes).toOption.map
      ColumnDraft.nullable = some true := by decide +kernel
  have hkept : (columnDefinition false true ⟨defaultSchema, "t"⟩ w.supported.lexemes).toOption.map
      ColumnDraft.nullable = some false := by decide +kernel
  rw [hc] at hlost
  rw [hc'] at hkept
  cases hlost.symm.trans hkept

end SchemaDdl.Script
