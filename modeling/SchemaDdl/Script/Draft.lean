import SchemaDdl.Model
import SchemaDdl.QualifiedName

/-!
# Drafts

What the statements of a script declare, before ids are given out and before foreign keys and
comments find their targets.
-/

namespace SchemaDdl.Script

structure ColumnDraft where
  name : String
  type : String
  nullable : Bool := true
  defaultValue : Option String := none
  isPrimaryKey : Bool := false
  isUnique : Bool := false
  deriving DecidableEq, Repr

namespace ColumnDraft

def markPrimaryKey (c : ColumnDraft) : ColumnDraft :=
  { c with isPrimaryKey := true, isUnique := true, nullable := false }

def markUnique (c : ColumnDraft) : ColumnDraft :=
  { c with isUnique := true }

end ColumnDraft

structure ForeignKeyDraft where
  name : String
  fromColumn : String
  target : QualifiedName
  targetColumn : String
  onDelete : Option Action
  onUpdate : Option Action
  deriving DecidableEq, Repr

structure TableDraft where
  key : QualifiedName
  columns : List ColumnDraft
  foreignKeys : List ForeignKeyDraft
  deriving DecidableEq, Repr

structure TypeDraft where
  key : QualifiedName
  values : List String
  deriving DecidableEq, Repr

inductive CommentTarget where
  | table (key : QualifiedName)
  | column (key : QualifiedName) (name : String)
  deriving DecidableEq, Repr

def CommentTarget.spelling : CommentTarget → String
  | .table key => key.spelling
  | .column key name => key.spelling ++ "." ++ name

/-- A comment without text takes away the one before it. -/
structure CommentDraft where
  target : CommentTarget
  text : Option String
  deriving DecidableEq, Repr

/-- What one statement declares. -/
inductive Entry where
  | schema (name : String)
  | type (draft : TypeDraft)
  | table (draft : TableDraft)
  | comment (draft : CommentDraft)
  deriving DecidableEq, Repr

/-- What the statements so far declare, each list in the order of the script. -/
structure Draft where
  schemas : List String := [defaultSchema]
  types : List TypeDraft := []
  tables : List TableDraft := []
  comments : List CommentDraft := []
  deriving DecidableEq, Repr

namespace Draft

/-- A schema is listed once, at its first mention. -/
def withSchema (d : Draft) (name : String) : Draft :=
  if d.schemas.contains name then d else { d with schemas := d.schemas ++ [name] }

def add (d : Draft) : Entry → Draft
  | .schema name => d.withSchema name
  | .type t => let d := d.withSchema t.key.schema; { d with types := d.types ++ [t] }
  | .table t => let d := d.withSchema t.key.schema; { d with tables := d.tables ++ [t] }
  | .comment c => { d with comments := d.comments ++ [c] }

def definesTable (d : Draft) (key : QualifiedName) : Bool :=
  d.tables.any fun t => t.key == key

end Draft

/-- Changes the first element that satisfies `p`, if there is one. -/
def updateFirst? {α : Type} (p : α → Bool) (f : α → α) : List α → Option (List α)
  | [] => none
  | x :: xs => if p x then some (f x :: xs) else (updateFirst? p f xs).map (x :: ·)

theorem updateFirst?_eq_none_iff {α : Type} {p : α → Bool} {f : α → α} {xs : List α} :
    updateFirst? p f xs = none ↔ ∀ x ∈ xs, p x = false := by
  induction xs with
  | nil => simp [updateFirst?]
  | cons x xs ih => cases h : p x <;> simp [updateFirst?, h, ih]

theorem updateFirst?_append {α : Type} {p : α → Bool} {f : α → α} {xs ys : List α}
    (h : ∀ x ∈ xs, p x = false) :
    updateFirst? p f (xs ++ ys) = (updateFirst? p f ys).map (xs ++ ·) := by
  induction xs with
  | nil => cases h : updateFirst? p f ys <;> simp [h]
  | cons x xs ih =>
    have hx := h x List.mem_cons_self
    rw [List.cons_append, updateFirst?, hx, ih fun y hy => h y (List.mem_cons_of_mem x hy)]
    cases updateFirst? p f ys <;> rfl

end SchemaDdl.Script
