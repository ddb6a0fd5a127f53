import SchemaDdl.Proofs.Cursor.Captures
import SchemaDdl.Proofs.Reading.UnsupportedClauses

/-!
# Columns from a cursor

The type of a column, a default expression and an unsupported clause have no end of their own: a loop
steps over their tokens, and the text between two positions is cut out of the source. The tokens that
are stepped over are those of the lexemes, and the text is theirs.
-/

namespace SchemaDdl.Script

open Attempt

namespace Cursor

/-- The text from the start of one token to the end of another that does not stand in front of it. -/
def text? (c : Cursor) (first last : Nat) : Option (List Char) := do
  let a ← c.tokens[first]?
  let b ← c.tokens[last]?
  if first ≤ last then slice? c.source a.start b.stop else none

/-- The text from the start of a token to the end of the one in front of the cursor. -/
def textFrom (c : Cursor) (first : Nat) : Attempt String String := do
  let last ← found (sub? c.position 1)
  return String.ofList (← found (c.text? first last))

/-- Steps over a token of a type. -/
def typePass (state : Nat × Cursor) : Attempt String (Turn (Nat × Cursor) Cursor) :=
  match state.2.peek with
  | none => return .done state.2
  | some t =>
    if state.1 == 0 && t.isAnyKeyword clauseKeywords then return .done state.2
    else return .again (t.depthAfter state.1, state.2.skip 1)

/-- Whether a default expression ends before `t`, with the token behind it. -/
def endsDefault (t : Token) (next : Option Token) : Bool :=
  if t.isKeyword "NOT" then next.any (Token.isKeyword "NULL")
  else
    t.isAnyKeyword
      ["NULL", "PRIMARY", "UNIQUE", "REFERENCES", "CHECK", "CONSTRAINT", "COLLATE", "GENERATED"]

/-- Steps over a token of a default expression that starts at `start`. -/
def defaultPass (start : Nat) (state : Nat × Cursor) :
    Attempt String (Turn (Nat × Cursor) Cursor) :=
  match state.2.peek with
  | none => return .done state.2
  | some t =>
    let first := state.2.position == start
    if state.1 == 0 &&
        (t == .semicolon || (!first && endsDefault t (state.2.peekNth 1))) then
      return .done state.2
    else return .again (t.depthAfter state.1, state.2.skip 1)

def defaultExpression (c : Cursor) : Attempt String (String × Cursor) := do
  let behind ← repeatedly (fun state => state.2.left) (defaultPass c.position) (0, c)
  if behind.position == c.position then throw "expected an expression after DEFAULT"
  return (← behind.textFrom c.position, behind)

/-- What a loop knows that steps over an unsupported clause: the last token and the depth. -/
structure Skipping where
  previous : Option Token
  depth : Nat
  cursor : Cursor

/-- Steps over a token of an unsupported clause. The first one belongs to it whatever it is. -/
def skipPass (state : Skipping) : Attempt String (Turn Skipping Cursor) :=
  match state.cursor.peek with
  | none => return .done state.cursor
  | some t =>
    if state.depth == 0 && state.previous.isSome && !state.previous.any bindsNext &&
        t.isAnyKeyword clauseKeywords then
      return .done state.cursor
    else return .again ⟨some t, t.depthAfter state.depth, state.cursor.skip 1⟩

def skipClause (c : Cursor) : Attempt String Cursor :=
  repeatedly (fun state => state.cursor.left) skipPass ⟨none, 0, c⟩

/-- Reads a clause of a column. -/
def clausePass (strict : Bool) (state : ColumnDraft × Cursor) :
    Attempt String (Turn (ColumnDraft × Cursor) ColumnDraft) :=
  let column := state.1
  let c := state.2
  if c.isDone then return .done column
  else if let some c := c.eatKeywords? ["NOT", "NULL"] then
    return .again ({ column with nullable := false }, c)
  else if let some c := c.eatKeywords? ["NULL"] then
    return .again ({ column with nullable := !column.isPrimaryKey }, c)
  else if let some c := c.eatKeywords? ["DEFAULT"] then do
    let (e, c) ← c.defaultExpression
    return .again ({ column with defaultValue := some e }, c)
  else if let some c := c.eatKeywords? ["PRIMARY", "KEY"] then
    return .again (column.markPrimaryKey, c)
  else if let some c := c.eatKeywords? ["UNIQUE"] then return .again (column.markUnique, c)
  else do
    let head ← c.describeNext
    if strict then throw s!"unsupported column clause {head}"
    return .again (column, ← c.skipClause)

def columnDefinition (c : Cursor) (strict inferId : Bool) (table : QualifiedName) :
    Attempt String ColumnDraft := do
  let (name, c) ← (c.ident "column name").inContext s!"column definition in {table.spelling}"
  Attempt.inContext s!"column \"{name}\" in {table.spelling}" do
    let behind ← repeatedly (fun state => state.2.left) typePass (0, c)
    if behind.position == c.position then throw "expected a data type"
    let type ← behind.textFrom c.position
    let column : ColumnDraft := { name, type }
    let isId := inferId && name == implicitKeyName
    repeatedly (fun state => state.2.left) (clausePass strict)
      (if isId then column.markPrimaryKey else column, behind)

end Cursor

/-! ## Texts and ends of clauses -/

theorem written_eq_gap_append (l : Lexeme) (ls : List Lexeme) :
    written (l :: ls) = l.gap ++ verbatim (l :: ls) :=
  written_regap (List.cons_ne_nil l ls)

theorem endsDefault_eq (token : Token) (ls : List Lexeme) :
    Cursor.endsDefault token (ls.head?.map Lexeme.token) = endsDefault token ls := by
  rw [Cursor.endsDefault, Script.endsDefault]
  cases ls with
  | nil => rfl
  | cons m ls => cases hm : m.token.isKeyword "NULL" <;> simp [takeKeywords, hm]

/-- What follows the rest of an unsupported clause, behind the last token of it that is read. -/
def skipFrom : Option Token × Nat × List Lexeme → List Lexeme
  | (_, _, []) => []
  | (none, depth, l :: ls) => skipClause l.token (l.token.depthAfter depth) ls
  | (some previous, depth, ls) => skipClause previous depth ls

theorem skipFrom_some (previous : Token) (depth : Nat) (ls : List Lexeme) :
    skipFrom (some previous, depth, ls) = Script.skipClause previous depth ls := by
  cases ls <;> rfl

theorem skipFrom_cons (previous : Option Token) (depth : Nat) (l : Lexeme) (ls : List Lexeme) :
    skipFrom (previous, depth, l :: ls) =
      if depth == 0 && previous.isSome && !previous.any bindsNext &&
          l.token.isAnyKeyword clauseKeywords then
        l :: ls
      else skipFrom (some l.token, l.token.depthAfter depth, ls) := by
  rw [skipFrom_some]
  cases previous with
  | none => simp [skipFrom]
  | some previous => simp [skipFrom_some, Script.skipClause]

namespace LexedText.Views

variable {t : LexedText} {c c' : Cursor} {l : Lexeme} {ls rest : List Lexeme}

/-! ## Texts between positions -/

theorem position_add {part : List Lexeme} (h : t.Views c (part ++ rest)) (h' : t.Views c' rest) :
    c'.position = c.position + part.length := by
  have hlength := h.length_tokens
  have hlength' := h'.length_tokens
  rw [h.tokens_eq, List.length_append] at hlength
  rw [h'.tokens_eq] at hlength'
  omega

/-- The tokens from one place to another are cut out as they are written. -/
theorem text?_eq {init : List Lexeme} {m : Lexeme} (h : t.Views c (init ++ m :: rest)) :
    c.text? c.position (c.position + init.length) = some (verbatim (init ++ [m])) := by
  obtain ⟨front, hlexemes, hposition⟩ := h.behind
  obtain ⟨l, ms, hpart⟩ := List.exists_cons_of_ne_nil
    (List.append_ne_nil_of_right_ne_nil init (List.cons_ne_nil m []))
  have hwhole : init ++ m :: rest = l :: (ms ++ rest) := by
    rw [List.append_cons, hpart, List.cons_append]
  have hverbatim : written init ++ (m.gap ++ m.text) = l.gap ++ verbatim (init ++ [m]) := by
    rw [hpart, ← written_eq_gap_append, ← hpart]
    simp
  have hfirst : c.tokens[c.position]? = some (l.spanBehind 0 front) :=
    h.getElem?_tokens (by rw [hlexemes, hwhole]) hposition
  have hlast : c.tokens[c.position + init.length]? = some (m.spanBehind 0 (front ++ init)) :=
    h.getElem?_tokens (by rw [hlexemes, List.append_assoc]) (by rw [List.length_append, hposition])
  have hslice : slice? c.source (byteLength (written front ++ l.gap))
      (byteLength (written (front ++ init) ++ m.gap ++ m.text)) = some (verbatim (init ++ [m])) := by
    refine slice?_eq_some_iff.2 ⟨written front ++ l.gap, written rest ++ t.last, ?_, rfl, ?_⟩
    · rw [h.source_eq, text, hlexemes, List.append_cons, hpart, written_append, written_append,
        written_eq_gap_append]
      simp
    · rw [List.append_assoc (written front), ← hverbatim]
      simp
  rw [Cursor.text?, hfirst, hlast]
  simpa [Lexeme.spanBehind] using hslice

theorem position_beq {part : List Lexeme} (h : t.Views c (part ++ rest)) (h' : t.Views c' rest) :
    (c'.position == c.position) = part.isEmpty := by
  rw [h.position_add h']
  cases part <;> simp

theorem textFrom_eq {part : List Lexeme} (h : t.Views c (part ++ rest)) (h' : t.Views c' rest)
    (hpart : part ≠ []) : c'.textFrom c.position = pure (String.ofList (verbatim part)) := by
  obtain ⟨init, m, rfl⟩ : ∃ init m, part = init ++ [m] :=
    ⟨_, _, (List.dropLast_concat_getLast hpart).symm⟩
  have hsub : sub? c'.position 1 = some (c.position + init.length) := by
    rw [h.position_add h', List.length_append, sub?,
      if_pos (by rw [List.length_singleton]; omega)]
    rfl
  have hsame (first last : Nat) : c'.text? first last = c.text? first last := by
    rw [Cursor.text?, Cursor.text?, h.source_eq, h'.source_eq, h.tokens_eq, h'.tokens_eq]
  rw [List.append_assoc] at h
  rw [Cursor.textFrom, hsub]
  dsimp only [found]
  rw [pure_bind, hsame, h.text?_eq]
  rfl

/-! ## Steps -/

theorem skip_one (h : t.Views c (l :: ls)) : t.Views (c.skip 1) ls :=
  h.skip (Nat.succ_le_succ (Nat.zero_le _))

theorem left_skip_lt (h : t.Views c (l :: ls)) : (c.skip 1).left < c.left := by
  rw [h.skip_one.left_eq, h.left_eq]
  exact Nat.lt_succ_self _

theorem typePass (h : t.Views c ls) (depth : Nat) :
    Advances (fun state => state.2.left) t.Captures t.Views
      (fun p : Nat × List Lexeme => .ok (spanType p.1 p.2).2) (depth, c) (depth, ls)
      (Cursor.typePass (depth, c)) := by
  rw [Cursor.typePass, h.peek_eq]
  cases ls with
  | nil => exact .done h rfl
  | cons l ls =>
    dsimp only [List.head?_cons, Option.map_some]
    cases hends : depth == 0 && l.token.isAnyKeyword clauseKeywords with
    | true => exact .done h (by rw [spanType, hends]; rfl)
    | false => exact .again (u := (_, ls)) ⟨rfl, h.skip_one⟩ h.left_skip_lt (by rw [spanType, hends]; rfl)

theorem typeLoop (h : t.Views c ls) :
    ∃ behind, repeatedly (fun state => state.2.left) Cursor.typePass (0, c) = pure behind ∧
      t.Views behind (spanType 0 ls).2 := by
  have hloop := h.loop (fun depth _ _ h => h.typePass depth) 0
  exact hloop.exists_pure

/-- What a loop that started at `start` knows: whether it is at the first token. -/
structure InDefault (t : LexedText) (start : Nat) (state : Nat × Cursor)
    (p : Bool × Nat × List Lexeme) : Prop where
  depth_eq : state.1 = p.2.1
  views : t.Views state.2 p.2.2
  start_le : start ≤ state.2.position
  first_eq : p.1 = (state.2.position == start)

theorem defaultPass {start : Nat} {state : Nat × Cursor} {p : Bool × Nat × List Lexeme}
    (h : InDefault t start state p) :
    Advances (fun state => state.2.left) (InDefault t start) t.Views
      (fun p : Bool × Nat × List Lexeme => .ok (spanDefault p.1 p.2.1 p.2.2).2) state p
      (Cursor.defaultPass start state) := by
  obtain ⟨first, depth, ls⟩ := p
  obtain ⟨depth, c⟩ := state
  obtain ⟨rfl, hviews, hstart, rfl⟩ := h
  dsimp only at hviews hstart
  rw [Cursor.defaultPass, hviews.peek_eq]
  cases ls with
  | nil => exact .done hviews rfl
  | cons l ls =>
    have hnext : c.peekNth 1 = ls.head?.map Lexeme.token := by
      rw [hviews.peekNth_eq, List.head?_eq_getElem?]
      rfl
    dsimp only [List.head?_cons, Option.map_some]
    rw [hnext, endsDefault_eq]
    split
    · rename_i hends
      exact .done hviews (by rw [spanDefault, hends]; rfl)
    · rename_i hends
      have hposition : (c.skip 1).position = c.position + 1 :=
        position_add (show t.Views c ([l] ++ ls) from hviews) hviews.skip_one
      refine .again (u := (false, _, ls)) ⟨rfl, hviews.skip_one, ?_, ?_⟩ hviews.left_skip_lt ?_
      · rw [hposition]
        exact Nat.le_succ_of_le hstart
      · rw [hposition, eq_comm, beq_eq_false_iff_ne]
        omega
      · rw [spanDefault, if_neg hends]

theorem defaultExpression (h : t.Views c ls) :
    Follows t.Captures c.defaultExpression (defaultExpression ls) := by
  have hloop : Follows t.Views
      (repeatedly (fun state => state.2.left) (Cursor.defaultPass c.position) (0, c))
      (.ok (spanDefault true 0 ls).2) :=
    .repeatedly (r := InDefault t c.position)
      (g := fun p : Bool × Nat × List Lexeme => .ok (spanDefault p.1 p.2.1 p.2.2).2)
      (t := (true, 0, ls)) (fun _ _ => defaultPass)
      ⟨rfl, h, Nat.le_refl _, (beq_self_eq_true _).symm⟩
  obtain ⟨behind, hbehind, hviews⟩ := hloop.exists_pure
  have hread : Script.defaultExpression ls = if (spanDefault true 0 ls).1.isEmpty then
      .error "expected an expression after DEFAULT"
    else .ok (String.ofList (verbatim (spanDefault true 0 ls).1), (spanDefault true 0 ls).2) := rfl
  rw [← spanDefault_append true 0 ls] at h
  rw [Cursor.defaultExpression, hbehind, pure_bind, hread, h.position_beq hviews]
  cases hexpression : (spanDefault true 0 ls).1 with
  | nil => exact .error _
  | cons l ms =>
    rw [hexpression] at h
    rw [h.textFrom_eq hviews (List.cons_ne_nil l ms)]
    exact .ok ⟨rfl, hviews⟩

/-! ## Clauses -/

structure InClause (t : LexedText) (state : Cursor.Skipping) (p : Option Token × Nat × List Lexeme) :
    Prop where
  previous_eq : state.previous = p.1
  depth_eq : state.depth = p.2.1
  views : t.Views state.cursor p.2.2

theorem skipPass {state : Cursor.Skipping} {p : Option Token × Nat × List Lexeme}
    (h : InClause t state p) :
    Advances (fun state : Cursor.Skipping => state.cursor.left) (InClause t) t.Views
      (fun p => .ok (skipFrom p)) state p (Cursor.skipPass state) := by
  obtain ⟨previous, depth, ls⟩ := p
  obtain ⟨rfl, rfl, hviews⟩ := h
  rw [Cursor.skipPass, hviews.peek_eq]
  cases ls with
  | nil => exact .done hviews rfl
  | cons l ls =>
    have hcons := skipFrom_cons state.previous state.depth l ls
    dsimp only [List.head?_cons, Option.map_some]
    split
    · rename_i hends
      exact .done hviews (by rw [hcons, if_pos hends])
    · rename_i hends
      exact .again (u := (some l.token, _, ls)) ⟨rfl, rfl, hviews.skip_one⟩ hviews.left_skip_lt
        (by rw [hcons, if_neg hends])

theorem skipClause (h : t.Views c (l :: ls)) :
    Follows t.Views c.skipClause (.ok (skipClause l.token (l.token.depthAfter 0) ls)) :=
  .repeatedly (r := InClause t) (g := fun p => .ok (skipFrom p)) (t := (none, 0, l :: ls))
    (fun _ _ => skipPass) ⟨rfl, rfl, h⟩

/-- Behind a clause that does not stop reading, the loop goes on. -/
theorem again_of_clause {strict : Bool} {column : ColumnDraft} {k : ColumnClause}
    (h : t.Views c (l :: ls)) (hdone : isDone (l :: ls) = false)
    (hclause : clause l ls = .ok (k, rest)) (hrest : t.Views c' rest)
    (hk : strict = true → ∀ head, k ≠ .unsupported head) :
    Advances (fun state => state.2.left) t.Captures Eq
      (fun p : ColumnDraft × List Lexeme => columnClauses strict p.1 p.2) (column, c) (column, l :: ls)
      (pure (.again (column.apply k, c'))) := by
  refine .again (u := (column.apply k, rest)) ⟨rfl, hrest⟩ ?_ ?_
  · dsimp only
    rw [hrest.left_eq, h.left_eq]
    exact length_clause_lt hclause
  · exact columnClauses_of_clause hk hclause hdone

theorem clausePass (h : t.Views c ls) (strict : Bool) (column : ColumnDraft) :
    Advances (fun state => state.2.left) t.Captures Eq
      (fun p : ColumnDraft × List Lexeme => columnClauses strict p.1 p.2) (column, c) (column, ls)
      (Cursor.clausePass strict (column, c)) := by
  rw [Cursor.clausePass]
  dsimp only
  rw [h.isDone_eq]
  cases hdone : isDone ls with
  | true =>
    refine .done rfl ?_
    cases ls with
    | nil => rw [columnClauses]
    | cons l ls => rw [columnClauses_eq, hdone]; rfl
  | false =>
    obtain ⟨l, ls, rfl⟩ : ∃ l ms, ls = l :: ms := List.exists_cons_of_ne_nil (by rintro rfl; cases hdone)
    rw [if_neg Bool.false_ne_true]
    have hread : columnClauses strict column (l :: ls) =
        clause l ls >>= fun p => afterClause strict column p.1 p.2 := by
      rw [columnClauses_eq, hdone, if_neg Bool.false_ne_true]
    -- a keyword sequence is tried when the ones in front of it are not there, here as among the lexemes
    refine rel_cases (h.eatKeywords? ["NOT", "NULL"]) (fun hnotNull => ?_) fun c' rest hls hrest =>
      h.again_of_clause hdone (by rw [clause, hls]) hrest (by simp)
    refine rel_cases (h.eatKeywords? ["NULL"]) (fun hnull => ?_) fun c' rest hls hrest =>
      h.again_of_clause hdone (by rw [clause, hnotNull, hls]) hrest (by simp)
    refine rel_cases (h.eatKeywords? ["DEFAULT"]) (fun hdefault => ?_) fun c' rest hls hrest => ?_
    swap
    · have hclause : clause l ls =
          (Script.defaultExpression rest).map fun p => (.default p.1, p.2) := by
        rw [clause, hnotNull, hnull, hls]
      refine .bind hrest.defaultExpression (by rw [hread, hclause, map_bind]) ?_
      rintro ⟨e, c''⟩ ⟨_, rest'⟩ ⟨rfl, hrest'⟩ he -
      exact h.again_of_clause (k := .default e) hdone (by rw [hclause, he]; rfl) hrest' (by simp)
    refine rel_cases (h.eatKeywords? ["PRIMARY", "KEY"]) (fun hprimary => ?_) fun c' rest hls hrest =>
      h.again_of_clause hdone (by rw [clause, hnotNull, hnull, hdefault, hls]) hrest (by simp)
    refine rel_cases (h.eatKeywords? ["UNIQUE"]) (fun hunique => ?_) fun c' rest hls hrest =>
      h.again_of_clause hdone (by rw [clause, hnotNull, hnull, hdefault, hprimary, hls]) hrest (by simp)
    have hclause : clause l ls =
        .ok (.unsupported l, Script.skipClause l.token (l.token.depthAfter 0) ls) := by
      rw [clause, hnotNull, hnull, hdefault, hprimary, hunique]
    dsimp only
    rw [h.describeNext_eq]
    cases strict with
    | true => exact .error (by rw [hread, hclause]; rfl)
    | false =>
      obtain ⟨behind, hskip, hbehind⟩ := h.skipClause.exists_pure
      rw [hskip]
      exact h.again_of_clause hdone hclause hbehind (fun hstrict => absurd hstrict Bool.false_ne_true)

theorem clauseLoop (h : t.Views c ls) (strict : Bool) (column : ColumnDraft) :
    Follows Eq (repeatedly (fun state => state.2.left) (Cursor.clausePass strict) (column, c))
      (columnClauses strict column ls) :=
  h.loop (fun column _ _ h => h.clausePass strict column) column

theorem columnDefinition (h : t.Views c ls) (strict inferId : Bool) (table : QualifiedName) :
    Follows Eq (c.columnDefinition strict inferId table)
      (columnDefinition strict inferId table ls) := by
  rw [Cursor.columnDefinition, Script.columnDefinition]
  refine (follows_inContext (h.ident "column name") _).bind fun x y hxy => ?_
  obtain ⟨name, c⟩ := x
  obtain ⟨name', ls⟩ := y
  obtain ⟨rfl, h⟩ := hxy
  refine follows_inContext ?_ _
  dsimp only at h ⊢
  obtain ⟨behind, hbehind, hviews⟩ := h.typeLoop
  rw [← spanType_append 0 ls] at h
  rw [hbehind, pure_bind, h.position_beq hviews]
  cases htype : (spanType 0 ls).1 with
  | nil => exact .error _
  | cons l ms =>
    rw [htype] at h
    rw [h.textFrom_eq hviews (List.cons_ne_nil l ms)]
    exact hviews.clauseLoop strict _

end LexedText.Views

end SchemaDdl.Script
