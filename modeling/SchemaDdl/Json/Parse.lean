import SchemaDdl.Json.Token

/-!
# Parsing JSON

The parser reads one token at a time and keeps the arrays and objects that are still open, the
innermost first. Nesting has no limit.
-/

namespace SchemaDdl.Json

/-- An array or object that is still open, with what it holds so far, the last item first. An object
waits for the value of `key`. A key without a value makes its object unreadable. -/
inductive Frame where
  | array (items : List Json)
  | object (members : List (Option String × Json)) (key : Option String)

inductive State where
  /-- A value is due. -/
  | value (outer : List Frame)
  /-- A value or the end of an array is due. -/
  | firstItem (outer : List Frame)
  /-- A key or the end of an object is due. -/
  | firstKey (outer : List Frame)
  | nextKey (members : List (Option String × Json)) (outer : List Frame)
  | colon (members : List (Option String × Json)) (key : Option String) (outer : List Frame)
  /-- A comma or the end of the array is due. -/
  | nextItem (items : List Json) (outer : List Frame)
  | nextMember (members : List (Option String × Json)) (outer : List Frame)
  | finished (value : Json)

/-- Hands a complete value to the innermost open array or object. -/
def State.complete (value : Json) : List Frame → State
  | [] => .finished value
  | .array items :: outer => .nextItem (value :: items) outer
  | .object members key :: outer => .nextMember ((key, value) :: members) outer

def closedObject (members : List (Option String × Json)) : Json :=
  match members.reverse.mapM fun (k, v) => k.map fun k => (k, v) with
  | some members => .object members
  | none => .unreadable

/-- Starts the value whose first token is `t`. -/
def State.start (outer : List Frame) : Token → Option State
  | .scalar v => some (.complete v outer)
  | .string (some s) => some (.complete (.string s) outer)
  | .string none => some (.complete .unreadable outer)
  | .openArray => some (.firstItem outer)
  | .openObject => some (.firstKey outer)
  | _ => none

def State.next : State → Token → Option State
  | .value outer, t => State.start outer t
  | .firstItem outer, .closeArray => some (.complete (.array []) outer)
  | .firstItem outer, t => State.start (.array [] :: outer) t
  | .firstKey outer, .closeObject => some (.complete (.object []) outer)
  | .firstKey outer, .string k => some (.colon [] k outer)
  | .nextKey members outer, .string k => some (.colon members k outer)
  | .colon members k outer, .colon => some (.value (.object members k :: outer))
  | .nextItem items outer, .comma => some (.value (.array items :: outer))
  | .nextItem items outer, .closeArray => some (.complete (.array items.reverse) outer)
  | .nextMember members outer, .comma => some (.nextKey members outer)
  | .nextMember members outer, .closeObject => some (.complete (closedObject members) outer)
  | _, _ => none

/-- The value of a JSON text. There is none if the text is not grammatical. -/
def parse? (text : String) : Option Json := do
  let ts ← tokens? text.toList
  match ← ts.foldlM State.next (.value []) with
  | .finished v => some v
  | _ => none

/-- The deepest nesting that a value may have when all of it is kept. -/
def depthLimit : Nat := 127

/-- The value of a JSON text, all of which must be readable, without repeated keys. -/
def parseCanonical? (text : String) : Option Json := do
  let j ← parse? text
  if j.depth ≤ depthLimit then j.canonical? else none

end SchemaDdl.Json
