import SchemaDdl.Ddl.Quoted
import SchemaDdl.Model

/-!
# Data definition statements

The statements of a generated script and their text. Statements about one table stand on consecutive
lines; blank lines set the blocks apart.
-/

namespace SchemaDdl.Ddl

/-- A line in the body of a `CREATE TABLE` statement. -/
inductive Definition where
  | column (name type : String) (notNull : Bool) (defaultValue : Option String)
  | primaryKey (columns : List String)
  | unique (column : String)
  | foreignKey (name column : String) (target : QualifiedName) (targetColumn : String)
      (onDelete onUpdate : Option Action)
  deriving DecidableEq, Repr

inductive Statement where
  | createSchema (name : String)
  | createType (key : QualifiedName) (values : List String)
  | createTable (key : QualifiedName) (definitions : List Definition)
  | commentOnTable (key : QualifiedName) (text : String)
  | commentOnColumn (key : QualifiedName) (column text : String)
  deriving DecidableEq, Repr

def qualified (key : QualifiedName) : String :=
  identifier key.schema ++ "." ++ identifier key.name

def identifiers (names : List String) : String :=
  ", ".intercalate (names.map identifier)

def actionText (event : String) : Option Action → String
  | none => ""
  | some a => s!" ON {event} {a.spelling}"

def Definition.text : Definition → String
  | .column name type notNull defaultValue =>
    " ".intercalate <|
      [identifier name, type] ++ (if notNull then ["NOT NULL"] else []) ++
        defaultValue.toList.map ("DEFAULT " ++ ·)
  | .primaryKey columns => s!"PRIMARY KEY ({identifiers columns})"
  | .unique key => s!"UNIQUE ({identifier key})"
  | .foreignKey name source target targetColumn onDelete onUpdate =>
    s!"CONSTRAINT {identifier name} FOREIGN KEY ({identifier source}) " ++
      s!"REFERENCES {qualified target} ({identifier targetColumn})" ++
      actionText "DELETE" onDelete ++ actionText "UPDATE" onUpdate

def Statement.text : Statement → String
  | .createSchema name => s!"CREATE SCHEMA IF NOT EXISTS {identifier name};"
  | .createType key values =>
    let labels := ", ".intercalate (values.map literal)
    s!"CREATE TYPE {qualified key} AS ENUM ({labels});"
  | .createTable key definitions =>
    let body := ",\n  ".intercalate (definitions.map Definition.text)
    s!"CREATE TABLE {qualified key} (\n  {body}\n);"
  | .commentOnTable key text => s!"COMMENT ON TABLE {qualified key} IS {literal text};"
  | .commentOnColumn key column text =>
    s!"COMMENT ON COLUMN {qualified key}.{identifier column} IS {literal text};"

/-- A block of statements on consecutive lines. -/
abbrev Block := List Statement

def Block.text (b : Block) : String :=
  "\n".intercalate (b.map Statement.text)

def scriptText (blocks : List Block) : String :=
  "\n\n".intercalate (blocks.map Block.text)

end SchemaDdl.Ddl
