import SchemaDdl.Json.Basic

/-!
# Paths into JSON values

A path is a list of object keys and array indexes. The last step of a path is where a value is put
or taken away; the steps before it must lead to something that is there.
-/

namespace SchemaDdl.Json

inductive Step where
  | key (name : String)
  | index (i : Nat)
  deriving DecidableEq, Repr

/-- Puts a member in place of the one with the same key, or behind the others. -/
def putMember (key : String) (value : Json) : List (String × Json) → List (String × Json)
  | [] => [(key, value)]
  | (k, v) :: members =>
    if k == key then (k, value) :: members else (k, v) :: putMember key value members

/-- Puts a value at one step. An index equal to the length appends. -/
def put? (value : Json) : Step → Json → Option Json
  | .key k, .object members => some (.object (putMember k value members))
  | .index i, .array items =>
    if i < items.length then some (.array (items.set i value))
    else if i == items.length then some (.array (items ++ [value]))
    else none
  | _, _ => none

/-- Takes away what is at one step. -/
def erase? : Step → Json → Option Json
  | .key k, .object members =>
    if members.any fun m => m.1 == k then some (.object (members.filter fun m => m.1 != k))
    else none
  | .index i, .array items => if i < items.length then some (.array (items.eraseIdx i)) else none
  | _, _ => none

def get? : Step → Json → Option Json
  | .key k, .object members => members.lookup k
  | .index i, .array items => items[i]?
  | _, _ => none

/-- Applies `edit` at the end of a path. The empty path has no last step. -/
def editAt? (edit : Step → Json → Option Json) : List Step → Json → Option Json
  | [], _ => none
  | [s], j => edit s j
  | s :: t :: path, j => do
    let inner ← get? s j
    let inner ← editAt? edit (t :: path) inner
    put? inner s j

end SchemaDdl.Json
