import SchemaDdl.Naming
import SchemaDdl.QualifiedName

/-!
# The relational model

A model is a list of schemas, of tables with their columns and foreign keys, and of enum types. The
parts refer to each other by id. Lookups by id or by name take the first match.
-/

namespace SchemaDdl

structure Schema where
  id : String
  name : String
  deriving DecidableEq, Repr

structure Column where
  id : String
  name : String
  type : String
  nullable : Bool := true
  defaultValue : Option String := none
  isPrimaryKey : Bool := false
  isUnique : Bool := false
  comment : Option String := none
  deriving DecidableEq, Repr

/-- What happens to a row when the row that it refers to is deleted or updated. -/
inductive Action where
  | noAction
  | restrict
  | cascade
  | setNull
  | setDefault
  deriving DecidableEq, Repr

namespace Action

def all : List Action := [.noAction, .restrict, .cascade, .setNull, .setDefault]

def keywords : Action → List String
  | .noAction => ["NO", "ACTION"]
  | .restrict => ["RESTRICT"]
  | .cascade => ["CASCADE"]
  | .setNull => ["SET", "NULL"]
  | .setDefault => ["SET", "DEFAULT"]

def spelling (a : Action) : String :=
  " ".intercalate a.keywords

def ofSpelling? (s : String) : Option Action :=
  all.find? fun a => a.spelling == s

theorem mem_all (a : Action) : a ∈ all := by
  cases a <;> simp [all]

end Action

/-- How many rows may stand at one end of a relationship. -/
inductive Cardinality where
  | one
  | many
  deriving DecidableEq, Repr

namespace Cardinality

def label : Cardinality → String
  | .one => "one"
  | .many => "many"

/-- The richer labels of older documents fold to `many`, and every unknown label to `one`. -/
def ofLabel (s : String) : Cardinality :=
  if s == "many" || s == "one_or_many" || s == "zero_or_many" then .many else .one

@[simp] theorem ofLabel_label (c : Cardinality) : ofLabel c.label = c := by
  cases c <;> decide

end Cardinality

structure ForeignKey where
  id : String
  name : String
  fromColumnId : String
  toTableId : String
  toColumnId : String
  onDelete : Option Action := none
  onUpdate : Option Action := none
  startCardinality : Option Cardinality := none
  endCardinality : Option Cardinality := none
  deriving DecidableEq, Repr

/-- Where a table is drawn on a diagram. -/
structure Position where
  x : Float
  y : Float
  deriving BEq, Repr

structure Table where
  id : String
  schemaId : String
  name : String
  comment : Option String := none
  columns : List Column := []
  foreignKeys : List ForeignKey := []
  position : Option Position := none
  deriving BEq, Repr

/-- An enumeration and its labels. -/
structure EnumType where
  id : String
  schemaId : String
  name : String
  values : List String
  deriving DecidableEq, Repr

structure Model where
  version : UInt32
  schemas : List Schema
  tables : List Table := []
  types : List EnumType := []
  deriving BEq, Repr

namespace Column

/-- Primary key or declared unique. -/
def isKey (c : Column) : Bool :=
  c.isPrimaryKey || c.isUnique

end Column

namespace Table

def column? (t : Table) (id : String) : Option Column :=
  t.columns.find? fun c => c.id == id

def columnNamed? (t : Table) (name : String) : Option Column :=
  t.columns.find? fun c => c.name == name

def hasPrimaryKey (t : Table) : Bool :=
  t.columns.any Column.isPrimaryKey

end Table

namespace ForeignKey

/-- The name that a foreign key falls back to when nothing of its own name is usable. -/
def fallbackName (id : String) : String :=
  "fk_" ++ String.ofList (id.toList.take 8)

/-- Foreign keys with sanitized names, free of clashes with each other and with `used`. -/
def withFreshNames (used : List String) : List ForeignKey → List ForeignKey
  | [] => []
  | fk :: fks =>
    let name := Naming.ensureUnique (Naming.sanitize fk.name (fallbackName fk.id)) used
    { fk with name } :: withFreshNames (name :: used) fks

end ForeignKey

namespace Model

/-- The version of the model format. -/
def currentVersion : UInt32 := 1

def schema? (m : Model) (id : String) : Option Schema :=
  m.schemas.find? fun s => s.id == id

def schemaNamed? (m : Model) (name : String) : Option Schema :=
  m.schemas.find? fun s => s.name == name

def table? (m : Model) (id : String) : Option Table :=
  m.tables.find? fun t => t.id == id

/-- The model in the current version, with every table's foreign-key names sanitized and told
apart. -/
def normalized (m : Model) : Model :=
  { m with
    version := currentVersion
    tables := m.tables.map fun t =>
      { t with foreignKeys := ForeignKey.withFreshNames [] t.foreignKeys } }

end Model

/-- A scheme for the ids of a model built from a script: the id of each part by its place, counted
from 0. -/
structure Ids where
  schema : Nat → String
  type : Nat → String
  table : Nat → String
  column : Nat → Nat → String
  foreignKey : Nat → Nat → String

namespace Ids

/-- Ids that spell the place, counted from 1: `s1`, `e1`, `t1`, `t1c1`, `t1f1`. -/
def positional : Ids where
  schema i := s!"s{i + 1}"
  type i := s!"e{i + 1}"
  table i := s!"t{i + 1}"
  column i j := s!"t{i + 1}c{j + 1}"
  foreignKey i j := s!"t{i + 1}f{j + 1}"

end Ids

/-- The model that holds only the default schema. -/
def Model.fresh (ids : Ids) : Model where
  version := currentVersion
  schemas := [⟨ids.schema 0, defaultSchema⟩]

end SchemaDdl
