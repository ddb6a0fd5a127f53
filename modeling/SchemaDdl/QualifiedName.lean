/-!
# Qualified names

A table or a type is known by its schema and its name. A name without a schema belongs to the
default schema.
-/

namespace SchemaDdl

def defaultSchema : String := "public"

structure QualifiedName where
  schema : String
  name : String
  deriving DecidableEq, Repr

namespace QualifiedName

def spelling (q : QualifiedName) : String :=
  q.schema ++ "." ++ q.name

/-- The last part of a dotted name is the name and the part before it the schema. -/
def ofParts : String → List String → QualifiedName
  | name, [] => ⟨defaultSchema, name⟩
  | schema, [name] => ⟨schema, name⟩
  | _, part :: next :: rest => ofParts part (next :: rest)

/-- The last part of a dotted name is a column and the parts before it name the table. -/
def columnOfParts? : String → List String → Option (QualifiedName × String)
  | _, [] => none
  | first, part :: rest =>
    let parts := part :: rest
    some (ofParts first parts.dropLast, parts.getLast (List.cons_ne_nil part rest))

end QualifiedName

end SchemaDdl
