import SchemaDdl.Cardinality
import SchemaDdl.Check.Reference
import SchemaDdl.Document.Text
import SchemaDdl.Json.Path
import SchemaDdl.Script.Resolve

/-!
# Editing sessions

A session holds a model and the script that was last generated. A step that fails leaves both alone.
-/

namespace SchemaDdl

structure Session where
  model : Model
  lastScript : String := ""

namespace Session

inductive Step where
  | parse (script : String) (options : Script.Options)
  | reparse (options : Script.Options)
  | load (text : String)
  | reload
  | normalize
  | set (path : List Json.Step) (value : Json)
  | remove (path : List Json.Step)
  | generate
  | validate
  | endpoints

inductive Failure where
  | parse (e : Script.ParseError)
  | document (e : DocumentError)
  | path
  | undecodable

/-- The ends of one foreign key, with its table's name and its own. -/
structure EndpointRow where
  table : String
  foreignKey : String
  ends : Option (Cardinality × Cardinality)

inductive Answer where
  | model (m : Model)
  | script (text : String)
  | issues (issues : List Check.Issue)
  | endpoints (rows : List EndpointRow)
  | failure (f : Failure)

end Session

/-- The ends of every foreign key of every table, in order. -/
def Model.endpointRows (m : Model) : List Session.EndpointRow :=
  m.tables.flatMap fun t => t.foreignKeys.map fun fk => ⟨t.name, fk.name, m.endpoints t fk⟩

namespace Session

def fresh (ids : Ids) : Session where
  model := .fresh ids

/-- Changes the JSON form of a model and reads it back. -/
def edited (m : Model) (edit : Json → Option Json) : Except Failure Model :=
  match edit m.toJson with
  | none => .error .path
  | some j =>
    match Model.ofJson? j with
    | some m => .ok m
    | none => .error .undecodable

/-- A new model replaces the old one. A failure changes nothing. -/
def replaced (s : Session) : Except Failure Model → Session × Answer
  | .ok m => ({ s with model := m }, .model m)
  | .error f => (s, .failure f)

def step (ids : Ids) (s : Session) : Step → Session × Answer
  | .parse script options => s.replaced ((Script.parse ids options script).mapError .parse)
  | .reparse options => s.replaced ((Script.parse ids options s.lastScript).mapError .parse)
  | .load text => s.replaced ((Model.ofDocument text).mapError .document)
  | .reload => s.replaced ((Model.ofDocument s.model.toDocument).mapError .document)
  | .normalize => s.replaced (.ok s.model.normalized)
  | .set path value => s.replaced (edited s.model (Json.editAt? (Json.put? value) path))
  | .remove path => s.replaced (edited s.model (Json.editAt? Json.erase? path))
  | .generate =>
    let script := Ddl.generate s.model
    ({ s with lastScript := script }, .script script)
  | .validate => (s, .issues (Check.validate s.model))
  | .endpoints => (s, .endpoints s.model.endpointRows)

/-- The answers to a list of steps. -/
def run (ids : Ids) (s : Session) : List Step → List Answer
  | [] => []
  | t :: ts =>
    let (s, answer) := s.step ids t
    answer :: s.run ids ts

end Session

end SchemaDdl
