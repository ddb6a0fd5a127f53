import SchemaDdl.Script.Capture

/-!
# Column definitions

A column definition is a name, a type and any number of clauses. Neither the type nor a default
expression has an end of its own: the type runs up to the first clause keyword outside
parentheses, a default up to the next keyword that can follow an expression.
-/

namespace SchemaDdl.Script

/-- Keywords that end a column's type and open a clause. -/
def clauseKeywords : List String :=
  ["NOT", "NULL", "DEFAULT", "PRIMARY", "UNIQUE", "REFERENCES", "CHECK", "CONSTRAINT", "COLLATE",
    "GENERATED"]

inductive ColumnClause where
  | notNull
  | null
  | default (expression : String)
  | primaryKey
  | unique
  | unsupported (head : Lexeme)
  deriving DecidableEq, Repr

/-- What a clause does to the column. `NULL` cannot lift the ban that a primary key sets. -/
def ColumnDraft.apply (c : ColumnDraft) : ColumnClause → ColumnDraft
  | .notNull => { c with nullable := false }
  | .null => { c with nullable := !c.isPrimaryKey }
  | .default e => { c with defaultValue := some e }
  | .primaryKey => c.markPrimaryKey
  | .unique => c.markUnique
  | .unsupported _ => c

/-- Splits at the first clause keyword outside parentheses. -/
def spanType (depth : Nat) : List Lexeme → List Lexeme × List Lexeme
  | [] => ([], [])
  | l :: ls =>
    if depth == 0 && l.token.isAnyKeyword clauseKeywords then ([], l :: ls)
    else
      let (type, rest) := spanType (l.token.depthAfter depth) ls
      (l :: type, rest)

/-- Whether a default expression ends before `t`. `NOT` can stand inside an expression, unless
`NULL` follows it. -/
def endsDefault (t : Token) (next : List Lexeme) : Bool :=
  if t.isKeyword "NOT" then (takeKeywords ["NULL"] next).isSome
  else
    t.isAnyKeyword
      ["NULL", "PRIMARY", "UNIQUE", "REFERENCES", "CHECK", "CONSTRAINT", "COLLATE", "GENERATED"]

/-- Splits behind a default expression. Its first token is taken whatever it is, a semicolon
excepted. -/
def spanDefault (first : Bool) (depth : Nat) : List Lexeme → List Lexeme × List Lexeme
  | [] => ([], [])
  | l :: ls =>
    if depth == 0 && (l.token == .semicolon || (!first && endsDefault l.token ls)) then
      ([], l :: ls)
    else
      let (expression, rest) := spanDefault false (l.token.depthAfter depth) ls
      (l :: expression, rest)

def defaultExpression (ls : List Lexeme) : Except String (String × List Lexeme) :=
  let (expression, rest) := spanDefault true 0 ls
  if expression.isEmpty then .error "expected an expression after DEFAULT"
  else .ok (String.ofList (verbatim expression), rest)

/-- A keyword behind `SET` or `BY` belongs to the clause, as in `ON DELETE SET NULL` and
`GENERATED BY DEFAULT AS IDENTITY`. -/
def bindsNext (t : Token) : Bool :=
  t.isAnyKeyword ["SET", "BY"]

/-- What follows the rest of an unsupported clause, after the token `previous` of it. -/
def skipClause (previous : Token) (depth : Nat) : List Lexeme → List Lexeme
  | [] => []
  | l :: ls =>
    if depth == 0 && !bindsNext previous && l.token.isAnyKeyword clauseKeywords then l :: ls
    else skipClause l.token (l.token.depthAfter depth) ls

/-- The clause that starts with the lexeme `l`. -/
def clause (l : Lexeme) (ls : List Lexeme) : Except String (ColumnClause × List Lexeme) :=
  if let some rest := takeKeywords ["NOT", "NULL"] (l :: ls) then .ok (.notNull, rest)
  else if let some rest := takeKeywords ["NULL"] (l :: ls) then .ok (.null, rest)
  else if let some rest := takeKeywords ["DEFAULT"] (l :: ls) then
    (defaultExpression rest).map fun (e, rest) => (.default e, rest)
  else if let some rest := takeKeywords ["PRIMARY", "KEY"] (l :: ls) then .ok (.primaryKey, rest)
  else if let some rest := takeKeywords ["UNIQUE"] (l :: ls) then .ok (.unique, rest)
  else .ok (.unsupported l, skipClause l.token (l.token.depthAfter 0) ls)

theorem spanType_append (depth : Nat) (ls : List Lexeme) :
    (spanType depth ls).1 ++ (spanType depth ls).2 = ls := by
  induction ls generalizing depth with
  | nil => rfl
  | cons l ls ih =>
    rw [spanType]
    split
    · rfl
    · simp [ih]

theorem spanDefault_append (first : Bool) (depth : Nat) (ls : List Lexeme) :
    (spanDefault first depth ls).1 ++ (spanDefault first depth ls).2 = ls := by
  induction ls generalizing first depth with
  | nil => rfl
  | cons l ls ih =>
    rw [spanDefault]
    split
    · rfl
    · simp [ih]

theorem length_skipClause_le (previous : Token) (depth : Nat) (ls : List Lexeme) :
    (skipClause previous depth ls).length ≤ ls.length := by
  induction ls generalizing previous depth with
  | nil => simp [skipClause]
  | cons l ls ih =>
    rw [skipClause]
    split
    · exact Nat.le_refl _
    · exact Nat.le_succ_of_le (ih _ _)

theorem length_defaultExpression_le {ls rest : List Lexeme} {e : String}
    (h : defaultExpression ls = .ok (e, rest)) : rest.length ≤ ls.length := by
  simp only [defaultExpression] at h
  split at h
  · cases h
  · cases h
    have := congrArg List.length (spanDefault_append true 0 ls)
    simp only [List.length_append] at this
    omega

/-- A clause is its keywords, or a default with its expression, or it is skipped as unsupported. -/
theorem clause_cases {l : Lexeme} {ls rest : List Lexeme} {c : ColumnClause}
    (h : clause l ls = .ok (c, rest)) :
    (∃ k ks, takeKeywords (k :: ks) (l :: ls) = some rest ∧ ∀ e, c ≠ .default e) ∨
      (∃ e behind, takeKeywords ["DEFAULT"] (l :: ls) = some behind ∧
        defaultExpression behind = .ok (e, rest) ∧ c = .default e) ∨
      c = .unsupported l ∧ rest = skipClause l.token (l.token.depthAfter 0) ls := by
  unfold clause at h
  repeat' split at h
  all_goals first
    | (cases h; exact .inl ⟨_, _, by assumption, by rintro e ⟨⟩⟩)
    | skip
  · rename_i behind hbehind
    obtain ⟨⟨e, rest'⟩, he, heq⟩ := exists_of_map_eq_ok h
    cases heq
    exact .inr (.inl ⟨e, behind, hbehind, he, rfl⟩)
  · cases h
    exact .inr (.inr ⟨rfl, rfl⟩)

/-- Every clause takes at least one lexeme. -/
theorem length_clause_lt {l : Lexeme} {ls rest : List Lexeme} {c : ColumnClause}
    (h : clause l ls = .ok (c, rest)) : rest.length < (l :: ls).length := by
  obtain ⟨k, ks, hks, -⟩ | ⟨e, behind, hbehind, he, -⟩ | ⟨-, rfl⟩ := clause_cases h
  · exact length_takeKeywords_lt hks
  · exact Nat.lt_of_le_of_lt (length_defaultExpression_le he) (length_takeKeywords_lt hbehind)
  · exact Nat.lt_succ_of_le (length_skipClause_le _ _ _)

/-- Reads the clauses of a column. Strict reading refuses an unsupported one. -/
def columnClauses (strict : Bool) (c : ColumnDraft) (ls : List Lexeme) :
    Except String ColumnDraft :=
  match ls with
  | [] => .ok c
  | l :: ls =>
    if isDone (l :: ls) then .ok c
    else
      match h : clause l ls with
      | .error e => .error e
      | .ok (k, rest) =>
        have _hlt := length_clause_lt h
        match strict, k with
        | true, .unsupported head => .error s!"unsupported column clause {head.quotedText}"
        | _, _ => columnClauses strict (c.apply k) rest
termination_by ls.length
decreasing_by exact _hlt

/-- The name that makes a column a primary key without any clause. -/
def implicitKeyName : String := "id"

def columnDefinition (strict inferId : Bool) (table : QualifiedName) (ls : List Lexeme) :
    Except String ColumnDraft := do
  let (name, rest) ← inContext s!"column definition in {table.spelling}" (name "column name" ls)
  inContext s!"column \"{name}\" in {table.spelling}" do
    let (type, rest) := spanType 0 rest
    if type.isEmpty then
      throw "expected a data type"
    let column : ColumnDraft := { name, type := String.ofList (verbatim type) }
    let isId := inferId && name == implicitKeyName
    columnClauses strict (if isId then column.markPrimaryKey else column) rest

end SchemaDdl.Script
