import SchemaDdl.Script.ColumnClause
import SchemaDdl.Script.Statement

/-!
# Items of a table body

An item of a `CREATE TABLE` body is a column definition, a key list or a foreign key. Key lists are
applied after all columns are known, so their place in the body does not matter.
-/

namespace SchemaDdl.Script

/-- How a script is read: `strict` refuses what is not supported instead of skipping it, and
`inferId` makes every column named `id` a primary key. -/
structure Options where
  strict : Bool := false
  inferId : Bool := true
  deriving DecidableEq, Repr

inductive TableItem where
  | column (draft : ColumnDraft)
  | primaryKey (columns : List String)
  | unique (columns : List String)
  | foreignKey (draft : ForeignKeyDraft)
  | skipped
  deriving DecidableEq, Repr

inductive ItemKind where
  | primaryKey
  | unique
  | foreignKey
  | named
  | unsupported
  deriving DecidableEq, Repr

/-- Items that no rule matches are column definitions. -/
def itemRules : List (List String × ItemKind) :=
  [(["PRIMARY", "KEY"], .primaryKey), (["UNIQUE"], .unique), (["FOREIGN", "KEY"], .foreignKey),
    (["CONSTRAINT"], .named), (["CHECK"], .unsupported), (["EXCLUDE"], .unsupported),
    (["LIKE"], .unsupported)]

/-- The first words of a text, to name what is not supported. -/
def head (text : List Char) : String :=
  " ".intercalate (((Text.words text).take 3).map String.ofList)

/-- Refuses what is not supported when reading is strict, and otherwise skips it. -/
def unsupported {α : Type} (strict : Bool) (what : String) (text : List Char) (skipped : α) :
    Except String α :=
  if strict then .error s!"unsupported {what} `{head text}`" else .ok skipped

def primaryKeyItem (ls : List Lexeme) : Except String TableItem :=
  inContext "PRIMARY KEY" do
    let (columns, rest) ← nameList "primary key columns" ls
    finish "PRIMARY KEY clause" rest
    return .primaryKey columns

def uniqueItem (ls : List Lexeme) : Except String TableItem :=
  inContext "UNIQUE" do
    let (columns, rest) ← nameList "unique columns" ls
    finish "UNIQUE clause" rest
    return .unique columns

structure ReferenceActions where
  onDelete : Option Action := none
  onUpdate : Option Action := none

theorem length_action_lt {ls rest : List Lexeme} {a : Action} (h : action ls = .ok (a, rest)) :
    rest.length < ls.length := by
  simp only [action] at h
  split at h
  · rename_i c hc
    obtain ⟨b, -, hb⟩ := List.exists_of_findSome?_eq_some hc
    obtain ⟨rest', hk, heq⟩ := Option.map_eq_some_iff.1 hb
    cases h
    cases heq
    cases a <;> exact length_takeKeywords_lt hk
  · cases h

/-- Reads `ON DELETE` and `ON UPDATE` actions. The last one of each wins. -/
def referenceActions (acc : ReferenceActions) (ls : List Lexeme) :
    Except String (ReferenceActions × List Lexeme) :=
  match hd : takeKeywords ["ON", "DELETE"] ls with
  | some behind =>
    match ha : action behind with
    | .ok (a, rest) =>
      have := length_takeKeywords_lt hd
      have := length_action_lt ha
      referenceActions { acc with onDelete := some a } rest
    | .error e => .error e
  | none =>
    match hu : takeKeywords ["ON", "UPDATE"] ls with
    | some behind =>
      match ha : action behind with
      | .ok (a, rest) =>
        have := length_takeKeywords_lt hu
        have := length_action_lt ha
        referenceActions { acc with onUpdate := some a } rest
      | .error e => .error e
    | none =>
      if (takeKeywords ["ON"] ls).isSome then .error "expected DELETE or UPDATE after ON"
      else .ok (acc, ls)
termination_by ls.length

theorem referenceActions_eq (acc : ReferenceActions) (ls : List Lexeme) :
    referenceActions acc ls =
      if let some behind := takeKeywords ["ON", "DELETE"] ls then
        action behind >>= fun p => referenceActions { acc with onDelete := some p.1 } p.2
      else if let some behind := takeKeywords ["ON", "UPDATE"] ls then
        action behind >>= fun p => referenceActions { acc with onUpdate := some p.1 } p.2
      else if (takeKeywords ["ON"] ls).isSome then .error "expected DELETE or UPDATE after ON"
      else .ok (acc, ls) := by
  rw [referenceActions]
  split
  · rename_i behind hbehind
    simp only [hbehind]
    split
    · rename_i a rest ha
      rw [ha]
      rfl
    · rename_i e ha
      rw [ha]
      rfl
  · rename_i hnone
    simp only [hnone]
    split
    · rename_i behind hbehind
      simp only [hbehind]
      split
      · rename_i a rest ha
        rw [ha]
        rfl
      · rename_i e ha
        rw [ha]
        rfl
    · rename_i hnone
      simp only [hnone]

/-- What follows `FOREIGN KEY`: `(column) REFERENCES table (column)` and the actions. Without a name
the constraint is named after the table and the column. -/
def foreignKeyItem (table : QualifiedName) (constraint : Option String) (ls : List Lexeme) :
    Except String TableItem :=
  let context := match constraint with
    | some name => s!"constraint \"{name}\""
    | none => s!"foreign key in {table.spelling}"
  inContext context do
    let (source, rest) ← nameList "foreign key column" ls
    let rest ← expectKeywords ["REFERENCES"] rest
    let (target, rest) ← qualifiedName "referenced table" rest
    let (targetColumns, rest) ← nameList "referenced column" rest
    match source, targetColumns with
    | [fromColumn], [targetColumn] =>
      let (actions, rest) ← referenceActions {} rest
      finish "foreign key clause" rest
      return .foreignKey
        { name := constraint.getD s!"{table.name}_{fromColumn}_fkey", fromColumn, target
          targetColumn, onDelete := actions.onDelete, onUpdate := actions.onUpdate }
    | _, _ => throw "composite foreign keys are not supported"

def namedItem (strict : Bool) (table : QualifiedName) (text : List Char) (ls : List Lexeme) :
    Except String TableItem := do
  let (name, rest) ← inContext "CONSTRAINT" (name "constraint name" ls)
  if let some rest := takeKeywords ["FOREIGN", "KEY"] rest then
    foreignKeyItem table (some name) rest
  else if let some rest := takeKeywords ["PRIMARY", "KEY"] rest then primaryKeyItem rest
  else if let some rest := takeKeywords ["UNIQUE"] rest then uniqueItem rest
  else if (takeKeywords ["CHECK"] rest).isSome || (takeKeywords ["EXCLUDE"] rest).isSome then
    unsupported strict "table constraint" text .skipped
  else
    throw s!"constraint \"{name}\" not recognized: expected FOREIGN KEY, PRIMARY KEY or UNIQUE"

def tableItem (options : Options) (table : QualifiedName) (text : List Char) :
    Except String TableItem := do
  let ls ← (lex text).mapError LexError.message
  match dispatch itemRules ls with
  | some (.primaryKey, rest) => primaryKeyItem rest
  | some (.unique, rest) => uniqueItem rest
  | some (.foreignKey, rest) => foreignKeyItem table none rest
  | some (.named, rest) => namedItem options.strict table text rest
  | some (.unsupported, _) => unsupported options.strict "table item" text .skipped
  | none =>
    let column ← columnDefinition options.strict options.inferId table ls
    return .column column

namespace TableItem

def column? : TableItem → Option ColumnDraft
  | .column c => some c
  | _ => none

def foreignKey? : TableItem → Option ForeignKeyDraft
  | .foreignKey fk => some fk
  | _ => none

def primaryKeyColumns : TableItem → List String
  | .primaryKey columns => columns
  | _ => []

def uniqueColumns : TableItem → List String
  | .unique columns => columns
  | _ => []

end TableItem

/-- Marks the columns of a key list. Each name means the first column so named; strict reading
refuses a name without a column. -/
def markColumns (strict : Bool) (table : QualifiedName) (keyword : String)
    (mark : ColumnDraft → ColumnDraft) :
    List String → List ColumnDraft → Except String (List ColumnDraft)
  | [], columns => .ok columns
  | name :: names, columns =>
    match updateFirst? (·.name == name) mark columns with
    | some columns => markColumns strict table keyword mark names columns
    | none =>
      if strict then .error s!"{keyword} names unknown column \"{name}\" in {table.spelling}"
      else markColumns strict table keyword mark names columns

/-- Puts the items of a body together. -/
def TableDraft.ofItems (strict : Bool) (key : QualifiedName) (items : List TableItem) :
    Except String TableDraft := do
  let columns := items.filterMap TableItem.column?
  let columns ← markColumns strict key "PRIMARY KEY" .markPrimaryKey
    (items.flatMap TableItem.primaryKeyColumns) columns
  let columns ← markColumns strict key "UNIQUE" .markUnique
    (items.flatMap TableItem.uniqueColumns) columns
  return { key, columns, foreignKeys := items.filterMap TableItem.foreignKey? }

end SchemaDdl.Script
