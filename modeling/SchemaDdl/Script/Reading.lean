import SchemaDdl.Script.TableItem

/-!
# Reading statements

Each statement is read on its own into an entry; the entries of a script make up its draft. All
failures inside one statement are reported at the line of its first character.
-/

namespace SchemaDdl.Script

inductive StatementKind where
  | createSchema
  | createType
  | createTable
  | commentOnTable
  | commentOnColumn
  deriving DecidableEq, Repr

def statementRules : List (List String × StatementKind) :=
  [(["CREATE", "SCHEMA"], .createSchema), (["CREATE", "TYPE"], .createType),
    (["CREATE", "TABLE"], .createTable), (["COMMENT", "ON", "TABLE"], .commentOnTable),
    (["COMMENT", "ON", "COLUMN"], .commentOnColumn)]

def createSchema (ls : List Lexeme) : Except String Entry :=
  inContext "CREATE SCHEMA" do
    let (schema, rest) ← name "schema name" (skipKeywords ["IF", "NOT", "EXISTS"] ls)
    let rest ← match takeKeywords ["AUTHORIZATION"] rest with
      | some rest => (name "role name" rest).map Prod.snd
      | none => pure rest
    finish "statement" rest
    return .schema schema

/-- The values of an enum type behind the first one, and the parenthesis that closes them. -/
def moreEnumValues : List Lexeme → Except String (List String × List Lexeme)
  | [] => expected "`,` or `)`" []
  | [l] =>
    if l.token == .closeParen then .ok ([], [])
    else if l.token == .comma then expected "quoted enum value" []
    else expected "`,` or `)`" [l]
  | l :: m :: ls =>
    if l.token == .closeParen then .ok ([], m :: ls)
    else if l.token == .comma then
      match m.token with
      | .string value => do
        let (values, rest) ← moreEnumValues ls
        return (value :: values, rest)
      | _ => expected "quoted enum value" (m :: ls)
    else expected "`,` or `)`" (l :: m :: ls)

/-- The values of an enum type and the parenthesis that closes them. -/
def enumValues (ls : List Lexeme) : Except String (List String × List Lexeme) := do
  if let some rest := takeToken .closeParen ls then
    return ([], rest)
  let (value, rest) ← stringLiteral "quoted enum value" ls
  let (values, rest) ← moreEnumValues rest
  return (value :: values, rest)

def createType (strict : Bool) (text : List Char) (ls : List Lexeme) :
    Except String (Option Entry) := do
  let context := "CREATE TYPE"
  let (key, rest) ← inContext context (qualifiedName "type name" ls)
  let rest ← inContext context (expectKeywords ["AS"] rest)
  match takeKeywords ["ENUM"] rest with
  | none => unsupported strict "type definition" text none
  | some rest =>
    let values ← inContext context do
      let rest ← expectToken .openParen "`(` before enum values" rest
      let (values, rest) ← enumValues rest
      finish "statement" rest
      return values
    if values.isEmpty then
      throw s!"enum type {key.spelling} needs at least one value"
    return some (.type { key, values })

/-- `isDefined` tells the tables that earlier statements define. -/
def createTable (options : Options) (isDefined : QualifiedName → Bool) (ls : List Lexeme) :
    Except String Entry := do
  let context := "CREATE TABLE"
  let (key, rest) ← inContext context
    (qualifiedName "table name" (skipKeywords ["IF", "NOT", "EXISTS"] ls))
  match (takeToken .openParen rest).bind (enclosed 0) with
  | none =>
    throw s!"could not read CREATE TABLE {key.spelling}: expected `CREATE TABLE <name> ( ... );`"
  | some body =>
    inContext context (finish "statement after the column list" body.rest)
    if isDefined key then
      throw s!"table {key.spelling} is already defined"
    let items ← (listItems body.body).mapM (tableItem options key)
    return .table (← TableDraft.ofItems options.strict key items)

/-- `IS` and a literal or `NULL`. An empty literal counts as none. -/
def commentText (ls : List Lexeme) : Except String (Option String) := do
  let rest ← expectKeywords ["IS"] ls
  match takeKeywords ["NULL"] rest with
  | some rest =>
    finish "statement" rest
    return none
  | none =>
    let (text, rest) ← stringLiteral "quoted comment text or NULL" rest
    finish "statement" rest
    return if text == "" then none else some text

def commentOnTable (ls : List Lexeme) : Except String Entry :=
  inContext "COMMENT ON TABLE" do
    let (key, rest) ← qualifiedName "table name" ls
    let text ← commentText rest
    return .comment ⟨.table key, text⟩

def commentOnColumn (ls : List Lexeme) : Except String Entry :=
  inContext "COMMENT ON COLUMN" do
    let ((first, more), rest) ← names .dot "column name" ls
    match QualifiedName.columnOfParts? first more with
    | none => throw "expected <table>.<column>"
    | some (key, column) =>
      let text ← commentText rest
      return .comment ⟨.column key column, text⟩

/-- What a statement declares. A statement that is skipped or empty declares nothing. -/
def readStatement (options : Options) (isDefined : QualifiedName → Bool) (text : List Char) :
    Except String (Option Entry) := do
  let ls ← (lex text).mapError LexError.message
  if ls.all fun l => l.token == .semicolon then
    return none
  match dispatch statementRules ls with
  | some (.createSchema, rest) => return some (← createSchema rest)
  | some (.createType, rest) => createType options.strict text rest
  | some (.createTable, rest) => return some (← createTable options isDefined rest)
  | some (.commentOnTable, rest) => return some (← commentOnTable rest)
  | some (.commentOnColumn, rest) => return some (← commentOnColumn rest)
  | none => unsupported options.strict "statement" text none

inductive ParseError where
  | malformed (line : Nat) (problem : String)
  | missingReference (constraint target : String)
  | missingCommentTarget (target : String)
  deriving DecidableEq, Repr

namespace ParseError

def message : ParseError → String
  | .malformed line problem => s!"line {line}: {problem}"
  | .missingReference constraint target =>
    s!"constraint \"{constraint}\" references missing object {target}"
  | .missingCommentTarget target => s!"comment targets missing object {target}"

def line? : ParseError → Option Nat
  | .malformed line _ => some line
  | _ => none

/-- Whether a foreign key or a comment has a missing target. -/
def isReference (e : ParseError) : Bool :=
  e.line?.isNone

end ParseError

namespace Draft

def readNext (options : Options) (d : Draft) (s : Statement) : Except ParseError Draft :=
  match readStatement options d.definesTable s.text with
  | .error problem => .error (.malformed s.line problem)
  | .ok entry => .ok (entry.elim d d.add)

def ofStatements (options : Options) (ss : List Statement) : Except ParseError Draft :=
  ss.foldlM (readNext options) {}

end Draft

end SchemaDdl.Script
