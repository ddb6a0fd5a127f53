import SchemaDdl.Script.Region
import SchemaDdl.Text.Blank

/-!
# Statements and list items

A script is cut into statements at the semicolons, and the body of a parenthesized list into items
at the commas, that are live and stand at parenthesis depth 0. A statement keeps the semicolon
that ends it and knows the line of its first character.
-/

namespace SchemaDdl.Script

structure Statement where
  line : Nat
  text : List Char
  deriving DecidableEq, Repr

/-- The consecutive stretches of a script, each but the last with the semicolon that ends it. -/
def stretches (script : List Char) : List (List Char) :=
  terminated (cut ';' 0 (pieces .plain script))
where
  terminated : List (List Char) → List (List Char)
    | [] => []
    | [s] => [s]
    | s :: rest => (s ++ [';']) :: terminated rest

def newlines (cs : List Char) : Nat :=
  cs.count '\n'

/-- A stretch that holds a statement, and not only blanks or a lone semicolon. -/
def statementAt (line : Nat) (stretch : List Char) : Option Statement :=
  let text := Text.trim stretch
  if text == [] || text == [';'] then none
  else some ⟨line + newlines (stretch.takeWhile Text.isBlank), text⟩

def numberedStatements : Nat → List (List Char) → List Statement
  | _, [] => []
  | line, s :: rest =>
    (statementAt line s).toList ++ numberedStatements (line + newlines s) rest

def statements (script : List Char) : List Statement :=
  numberedStatements 1 (stretches script)

/-- The items of a parenthesized list, trimmed, without the blank ones. -/
def listItems (body : List Char) : List (List Char) :=
  ((cut ',' 0 (pieces .plain body)).map Text.trim).filter (· ≠ [])

theorem flatten_terminated (ss : List (List Char)) :
    (stretches.terminated ss).flatten = [';'].intercalate ss := by
  fun_induction stretches.terminated ss with
  | case1 => rfl
  | case2 s => simp
  | case3 s rest h ih =>
    cases rest with
    | nil => exact absurd rfl h
    | cons t ts => simp [ih, List.intercalate]

theorem flatten_stretches (script : List Char) : (stretches script).flatten = script := by
  rw [stretches, flatten_terminated, intercalate_cut, flatMap_chars_pieces]

end SchemaDdl.Script
