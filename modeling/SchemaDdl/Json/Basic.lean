import SchemaDdl.Decimal.Reading

/-!
# JSON values

The members of an object are kept in order, repeated keys included. A text can be grammatical JSON
and still hold a part without a value: a number that no double reaches, or a string with half a
surrogate pair. Such a part is `unreadable`. It does no harm where it is skipped.
-/

namespace SchemaDdl

inductive Json where
  | null
  | bool (value : Bool)
  | number (value : Decimal.Number)
  | string (value : String)
  | array (items : List Json)
  | object (members : List (String × Json))
  | unreadable
  deriving Repr

namespace Json

/-- The value of the first member with that key. -/
def member? (key : String) : Json → Option Json
  | .object members => members.lookup key
  | _ => none

def string? : Json → Option String
  | .string s => some s
  | _ => none

def bool? : Json → Option Bool
  | .bool b => some b
  | _ => none

def array? : Json → Option (List Json)
  | .array items => some items
  | _ => none

/-- Puts a member in its place among members sorted by key, instead of one with the same key. -/
def insertMember (key : String) (value : Json) : List (String × Json) → List (String × Json)
  | [] => [(key, value)]
  | (k, v) :: members =>
    if key == k then (key, value) :: members
    else if key < k then (key, value) :: (k, v) :: members
    else (k, v) :: insertMember key value members

/-- Members sorted by key. Of members with the same key the last one stays. -/
def sortMembers (members : List (String × Json)) : List (String × Json) :=
  members.foldl (fun sorted (k, v) => insertMember k v sorted) []

mutual

/-- Arrays and objects nested in each other, counted along the longest way down. -/
def depth : Json → Nat
  | .array items => depthItems items + 1
  | .object members => depthMembers members + 1
  | _ => 0

def depthItems : List Json → Nat
  | [] => 0
  | j :: js => max (depth j) (depthItems js)

def depthMembers : List (String × Json) → Nat
  | [] => 0
  | (_, j) :: ms => max (depth j) (depthMembers ms)

end

mutual

/-- The value with sorted members and without repeated keys. There is none if a part of it is
unreadable. -/
def canonical? : Json → Option Json
  | .array items => (canonicalItems? items).map .array
  | .object members => (canonicalMembers? members).map fun ms => .object (sortMembers ms)
  | .unreadable => none
  | j => some j

def canonicalItems? : List Json → Option (List Json)
  | [] => some []
  | j :: js => do
    let j ← canonical? j
    let js ← canonicalItems? js
    return j :: js

def canonicalMembers? : List (String × Json) → Option (List (String × Json))
  | [] => some []
  | (k, j) :: ms => do
    let j ← canonical? j
    let ms ← canonicalMembers? ms
    return (k, j) :: ms

end

end Json

end SchemaDdl
