import SchemaDdl.Proofs.Cursor.Items
import SchemaDdl.Proofs.Cursor.Parens
import SchemaDdl.Proofs.Reading.Grammar

/-!
# Statements from a cursor

A statement is dispatched on its first keywords. The body of a table is found by the index of the
parenthesis that closes it, and is cut out of the text between the two parentheses.
-/

namespace SchemaDdl.Script

open Attempt

namespace Cursor

def createSchema (c : Cursor) : Attempt String Entry :=
  Attempt.inContext "CREATE SCHEMA" do
    let c := (c.eatKeywords? ["IF", "NOT", "EXISTS"]).getD c
    let (schema, c) ← c.ident "schema name"
    let c ← match c.eatKeywords? ["AUTHORIZATION"] with
      | some c => Prod.snd <$> c.ident "role name"
      | none => pure c
    c.finish "statement"
    return .schema schema

/-- Reads a value of an enum type and what stands behind it. -/
def enumPass (state : List String × Cursor) :
    Attempt String (Turn (List String × Cursor) (List String × Cursor)) := do
  let (value, c) ← state.2.string "quoted enum value"
  match c.eat? .closeParen with
  | some c => return .done (state.1 ++ [value], c)
  | none =>
    let c ← c.expect .comma "`,` or `)`"
    return .again (state.1 ++ [value], c)

def enumValues (c : Cursor) : Attempt String (List String × Cursor) :=
  match c.eat? .closeParen with
  | some c => return ([], c)
  | none => repeatedly (fun state => state.2.left) enumPass ([], c)

def createType (c : Cursor) (strict : Bool) : Attempt String (Option Entry) := do
  let context := "CREATE TYPE"
  let (key, c) ← (c.qualified "type name").inContext context
  let c ← (c.expectKeywords ["AS"]).inContext context
  match c.eatKeywords? ["ENUM"] with
  | none => Attempt.of (unsupported strict "type definition" c.source none)
  | some c =>
    let values ← Attempt.inContext context do
      let c ← c.expect .openParen "`(` before enum values"
      let (values, c) ← c.enumValues
      c.finish "statement"
      return values
    if values.isEmpty then
      throw s!"enum type {key.spelling} needs at least one value"
    return some (.type { key, values })

def createTable (c : Cursor) (options : Options) (isDefined : QualifiedName → Bool) :
    Attempt String Entry := do
  let context := "CREATE TABLE"
  let c := (c.eatKeywords? ["IF", "NOT", "EXISTS"]).getD c
  let (key, c) ← (c.qualified "table name").inContext context
  match c.peek, c.matchingParen with
  | some .openParen, some close =>
    let behind := c.skip (← found (sub? (close + 1) c.position))
    (behind.finish "statement after the column list").inContext context
    if isDefined key then
      throw s!"table {key.spelling} is already defined"
    let body ← found (behind.innerText? c.position close)
    let items ← (listItems body).mapM (tableItem options key)
    return .table (← Attempt.of (TableDraft.ofItems options.strict key items))
  | _, _ =>
    throw s!"could not read CREATE TABLE {key.spelling}: expected `CREATE TABLE <name> ( ... );`"

def commentText (c : Cursor) : Attempt String (Option String) := do
  let c ← c.expectKeywords ["IS"]
  match c.eatKeywords? ["NULL"] with
  | some c =>
    c.finish "statement"
    return none
  | none =>
    let (text, c) ← c.string "quoted comment text or NULL"
    c.finish "statement"
    return if text == "" then none else some text

def commentOnTable (c : Cursor) : Attempt String Entry :=
  Attempt.inContext "COMMENT ON TABLE" do
    let (key, c) ← c.qualified "table name"
    let text ← c.commentText
    return .comment ⟨.table key, text⟩

def commentOnColumn (c : Cursor) : Attempt String Entry :=
  Attempt.inContext "COMMENT ON COLUMN" do
    let (parts, c) ← c.names .dot "column name"
    match columnOfParts? parts with
    | none => throw "expected <table>.<column>"
    | some (key, column) =>
      let text ← c.commentText
      return .comment ⟨.column key column, text⟩

def readStatement (options : Options) (isDefined : QualifiedName → Bool) (text : List Char) :
    Attempt String (Option Entry) := do
  let c ← ofText text
  if c.tokens.all fun s => s.token == .semicolon then
    return none
  match dispatchTokens statementRules c.tokens with
  | none => Attempt.of (unsupported options.strict "statement" text none)
  | some (kind, consumed) =>
    let c := c.skip consumed
    match kind with
    | .createSchema => some <$> c.createSchema
    | .createType => c.createType options.strict
    | .createTable => some <$> c.createTable options isDefined
    | .commentOnTable => some <$> c.commentOnTable
    | .commentOnColumn => some <$> c.commentOnColumn

end Cursor

/-- The values so far, with the next one and those that follow it. -/
def enumFrom (p : List String × List Lexeme) : Except String (List String × List Lexeme) :=
  stringLiteral "quoted enum value" p.2 >>= fun x =>
    moreEnumValues x.2 >>= fun y => .ok (p.1 ++ x.1 :: y.1, y.2)

theorem enumFrom_eq (values : List String) (ls : List Lexeme) :
    enumFrom (values, ls) = stringLiteral "quoted enum value" ls >>= fun x =>
      match takeToken .closeParen x.2 with
      | some rest => .ok (values ++ [x.1], rest)
      | none => expectToken .comma "`,` or `)`" x.2 >>= fun rest => enumFrom (values ++ [x.1], rest) := by
  rw [enumFrom]
  refine congrArg (_ >>= ·) (funext fun x => ?_)
  obtain ⟨value, _ | ⟨l, ls⟩⟩ := x
  · rfl
  dsimp only
  rw [moreEnumValues_cons, takeToken, expectToken, takeToken]
  cases l.token == .closeParen with
  | true => rfl
  | false =>
    cases l.token == .comma with
    | false => rfl
    | true =>
      change (stringLiteral _ ls >>= _) >>= _ = enumFrom (values ++ [value], ls)
      rw [enumFrom]
      rcases stringLiteral "quoted enum value" ls with e | ⟨next, behind⟩
      · rfl
      · change (moreEnumValues behind >>= _) >>= _ = moreEnumValues behind >>= _
        cases moreEnumValues behind with
        | error e => rfl
        | ok q => exact congrArg (fun vs => Except.ok (vs, q.2)) (List.append_cons values value _)

namespace LexedText.Views

variable {t : LexedText} {c c' : Cursor} {l : Lexeme} {ls : List Lexeme}

/-! ## What a statement is read as -/

theorem skipKeywords (h : t.Views c ls) (ks : List String) :
    t.Views ((c.eatKeywords? ks).getD c) (skipKeywords ks ls) := by
  rw [Script.skipKeywords]
  exact rel_elim (h.eatKeywords? ks) (fun _ _ hrest => hrest) h

theorem createSchema (h : t.Views c ls) : Follows Eq c.createSchema (createSchema ls) := by
  refine follows_inContext ?_ _
  refine ((h.skipKeywords _).ident _).bind ?_
  rintro ⟨schema, c⟩ ⟨_, ls⟩ ⟨rfl, h⟩
  dsimp only at h ⊢
  have hend {c ls} (h : t.Views c ls) : Follows Eq
      (c.finish "statement" >>= fun _ => pure (Entry.schema schema))
      (Script.finish "statement" ls >>= fun _ => .ok (Entry.schema schema)) :=
    (h.finish _).bind fun _ _ _ => .ok rfl
  refine rel_elim (h.eatKeywords? ["AUTHORIZATION"]) (fun c ls h => ?_) (hend h)
  exact ((h.ident _).map fun _ _ hxy => hxy.views).bind fun _ _ h => hend h

theorem enumPass (h : t.Views c ls) (values : List String) :
    Advances (fun state => state.2.left) t.Captures t.Captures enumFrom (values, c) (values, ls)
      (Cursor.enumPass (values, c)) := by
  refine .bind (h.string _) (enumFrom_eq values ls) ?_
  rintro ⟨value, c'⟩ ⟨_, rest⟩ ⟨rfl, h'⟩ hstring hfrom
  obtain ⟨l, rfl, -⟩ := stringLiteral_eq_ok_iff.1 hstring
  dsimp only at h' hfrom ⊢
  refine rel_cases (h'.eat? .closeParen) (fun hclose => ?_) fun c'' behind hclose hbehind => ?_
  · rw [hclose] at hfrom
    refine .bind (h'.expect .comma _) hfrom fun c'' behind hbehind hcomma hg =>
      .again (u := (values ++ [value], behind)) ⟨rfl, hbehind⟩ ?_ hg
    obtain ⟨m, rfl, -⟩ := expectToken_eq_ok_iff.1 hcomma
    dsimp only
    rw [hbehind.left_eq, h.left_eq, List.length_cons, List.length_cons]
    omega
  · rw [hclose] at hfrom
    exact .done ⟨rfl, hbehind⟩ hfrom

theorem enumValues (h : t.Views c ls) : Follows t.Captures c.enumValues (enumValues ls) := by
  rw [Cursor.enumValues, Script.enumValues]
  refine rel_elim (h.eat? .closeParen) (fun c ls h => .ok ⟨rfl, h⟩) ?_
  exact h.loop (fun values _ _ h => h.enumPass values) []

theorem createType (h : t.Views c ls) (strict : Bool) :
    Follows Eq (c.createType strict) (createType strict t.text ls) := by
  refine (follows_inContext (h.qualified _) _).bind ?_
  rintro ⟨key, c⟩ ⟨_, ls⟩ ⟨rfl, h⟩
  refine (follows_inContext (h.expectKeywords _) _).bind fun c ls h => ?_
  refine rel_elim (h.eatKeywords? ["ENUM"]) (fun c ls h => ?_) ?_
  · have hvalues : Follows Eq
        (Attempt.inContext "CREATE TYPE" (c.expect .openParen "`(` before enum values" >>= fun c =>
          c.enumValues >>= fun x => x.2.finish "statement" >>= fun _ => pure x.1))
        (inContext "CREATE TYPE" (expectToken .openParen "`(` before enum values" ls >>= fun ls =>
          Script.enumValues ls >>= fun x => Script.finish "statement" x.2 >>= fun _ => .ok x.1)) := by
      refine follows_inContext ?_ _
      refine (h.expect _ _).bind fun c ls h => ?_
      refine h.enumValues.bind fun x y hxy => ?_
      exact (hxy.views.finish _).bind fun _ _ _ => .ok hxy.fst_eq
    refine hvalues.bind ?_
    rintro values _ rfl
    dsimp only
    cases values.isEmpty with
    | true => exact .error _
    | false => exact .ok rfl
  · dsimp only
    rw [h.source_eq]
    exact .of _

theorem createTable (h : t.Views c ls) (options : Options) (isDefined : QualifiedName → Bool) :
    Follows Eq (c.createTable options isDefined) (createTable options isDefined ls) := by
  refine (follows_inContext ((h.skipKeywords _).qualified _) _).bind ?_
  rintro ⟨key, c⟩ ⟨_, ls⟩ ⟨rfl, h⟩
  dsimp only at h ⊢
  rw [h.peek_eq]
  cases ls with
  | nil => exact .error _
  | cons l ls =>
    rw [takeToken]
    dsimp only [List.head?_cons, Option.map_some]
    by_cases hl : l.token = .openParen
    · rw [h.matchingParen_eq hl, hl, if_pos (beq_self_eq_true _)]
      dsimp only [Option.bind_some]
      cases henclosed : enclosed 0 ls with
      | none => exact .error _
      | some e =>
        obtain ⟨behind, hsub, hbehind, hbody⟩ := h.tableBody henclosed
        dsimp only [Option.map_some]
        rw [hsub, pure_bind, hbody]
        refine (follows_inContext (hbehind.finish _) _).bind fun _ _ _ => ?_
        cases isDefined key with
        | true => exact .error _
        | false =>
          refine (Follows.mapM (Cursor.tableItem_follows options key) (listItems e.body)).bind ?_
          rintro items _ rfl
          refine (Follows.of (TableDraft.ofItems options.strict key items)).bind ?_
          rintro table _ rfl
          exact .ok rfl
    · rw [if_neg (by simpa using hl)]
      split
      · rename_i hparen _
        exact absurd (Option.some.inj hparen) hl
      · exact .error _

theorem commentText (h : t.Views c ls) : Follows Eq c.commentText (commentText ls) := by
  refine (h.expectKeywords _).bind fun c ls h => ?_
  refine rel_elim (h.eatKeywords? ["NULL"]) (fun c ls h => ?_) ?_
  · exact (h.finish _).bind fun _ _ _ => .ok rfl
  · refine (h.string _).bind ?_
    rintro ⟨text, c⟩ ⟨_, ls⟩ ⟨rfl, h⟩
    exact (h.finish _).bind fun _ _ _ => .ok rfl

theorem commentOnTable (h : t.Views c ls) : Follows Eq c.commentOnTable (commentOnTable ls) := by
  refine follows_inContext ?_ _
  refine (h.qualified _).bind ?_
  rintro ⟨key, c⟩ ⟨_, ls⟩ ⟨rfl, h⟩
  refine Follows.bind h.commentText ?_
  rintro text _ rfl
  exact .ok rfl

theorem commentOnColumn (h : t.Views c ls) : Follows Eq c.commentOnColumn (commentOnColumn ls) := by
  have hread : (Script.names .dot "column name" ls >>= fun p =>
        match QualifiedName.columnOfParts? p.1.1 p.1.2 with
        | none => .error "expected <table>.<column>"
        | some (key, column) =>
          Script.commentText p.2 >>= fun text => .ok (Entry.comment ⟨.column key column, text⟩)) =
      (Script.names .dot "column name" ls).map (fun p => (p.1.1 :: p.1.2, p.2)) >>= fun p =>
        match columnOfParts? p.1 with
        | none => .error "expected <table>.<column>"
        | some (key, column) =>
          Script.commentText p.2 >>= fun text => .ok (Entry.comment ⟨.column key column, text⟩) := by
    simp only [map_bind, columnOfParts?_cons]
  refine follows_inContext (e := _ >>= _) ?_ _
  refine hread ▸ (h.names .dot _).bind ?_
  rintro ⟨parts, c⟩ ⟨_, ls⟩ ⟨rfl, h⟩
  dsimp only at h ⊢
  cases columnOfParts? parts with
  | none => exact .error _
  | some p =>
    refine Follows.bind h.commentText ?_
    rintro text _ rfl
    exact .ok rfl

end LexedText.Views

/-- A statement is read from a cursor without a fault, and as it is read from its lexemes. -/
theorem Cursor.readStatement_follows (options : Options) (isDefined : QualifiedName → Bool)
    (text : List Char) : Follows Eq (Cursor.readStatement options isDefined text)
      (Script.readStatement options isDefined text) := by
  refine (Cursor.ofText_follows text).bind ?_
  rintro c _ ⟨t, rfl, rfl, h⟩
  have hall : (c.tokens.all fun s => s.token == .semicolon) =
      t.lexemes.all fun l => l.token == .semicolon := by
    have htokens := congrArg (List.all · (· == Token.semicolon)) (map_token_spans 0 t.lexemes)
    rw [List.all_map, List.all_map] at htokens
    rw [h.tokens_eq]
    exact htokens
  rw [hall]
  cases t.lexemes.all fun l => l.token == .semicolon with
  | true => exact .ok rfl
  | false =>
    refine rel_elim (h.dispatch statementRules) ?_ ?_
    · rintro ⟨kind, consumed⟩ ⟨_, rest⟩ ⟨rfl, hrest⟩
      cases kind with
      | createSchema => exact hrest.createSchema.bind fun _ _ hxy => .ok (congrArg some hxy)
      | createType => exact hrest.createType options.strict
      | createTable =>
        exact (hrest.createTable options isDefined).bind fun _ _ hxy => .ok (congrArg some hxy)
      | commentOnTable => exact hrest.commentOnTable.bind fun _ _ hxy => .ok (congrArg some hxy)
      | commentOnColumn => exact hrest.commentOnColumn.bind fun _ _ hxy => .ok (congrArg some hxy)
    · exact .of _

end SchemaDdl.Script
