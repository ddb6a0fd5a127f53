import SchemaDdl.Model

/-!
# Places of ids

Every part of a model has a place, counted within its kind and, for columns and foreign keys, within
its table. An id can be shown by the place of its part.
-/

namespace SchemaDdl

namespace Model

/-- The ids of a table and its parts, each with the id that `ids` gives to its place. -/
def tablePlaces (ids : Ids) (i : Nat) (t : Table) : List (String × String) :=
  (t.id, ids.table i) :: t.columns.mapIdx (fun j c => (c.id, ids.column i j)) ++
    t.foreignKeys.mapIdx fun j fk => (fk.id, ids.foreignKey i j)

/-- The ids of all parts, each with the id that `ids` gives to its place. -/
def places (ids : Ids) (m : Model) : List (String × String) :=
  m.schemas.mapIdx (fun i s => (s.id, ids.schema i)) ++
    m.types.mapIdx (fun i t => (t.id, ids.type i)) ++
    (m.tables.mapIdx (tablePlaces ids)).flatten

/-- A text with every id of the model in it replaced by its place. An id that several parts share
stands for the first of them. -/
def showPlaces (ids : Ids) (m : Model) (text : String) : String :=
  (m.places ids).foldl (fun text (id, place) => text.replace id place) text

end Model

end SchemaDdl
