import SchemaDdl.Proofs.Document.Lookup

/-!
# Fields that are not repeated

A document may repeat what is no field of a model or of one of its parts. A document that repeats a
field is not decoded.
-/

namespace SchemaDdl

open Json

abbrev Schema.fieldNames : List String :=
  ["id", "name"]

abbrev Column.fieldNames : List String :=
  ["id", "name", "type", "nullable", "defaultValue", "isPrimaryKey", "isUnique", "comment"]

abbrev ForeignKey.fieldNames : List String :=
  ["id", "name", "fromColumnId", "toTableId", "toColumnId", "onDelete", "onUpdate",
    "startCardinality", "endCardinality"]

abbrev Position.fieldNames : List String :=
  ["x", "y"]

abbrev Table.fieldNames : List String :=
  ["id", "schemaId", "name", "comment", "columns", "foreignKeys", "position"]

abbrev EnumType.fieldNames : List String :=
  ["id", "schemaId", "name", "kind", "values"]

abbrev Model.fieldNames : List String :=
  ["version", "schemas", "tables", "types"]

/-- Neither a table nor any of its parts repeats a field. -/
structure Table.FieldsOnce (j : Json) : Prop where
  own : j.Unrepeated Table.fieldNames
  columns : j.MayHave "columns" (EachItem (Unrepeated Column.fieldNames))
  foreignKeys : j.MayHave "foreignKeys" (EachItem (Unrepeated ForeignKey.fieldNames))
  position : j.MayHave "position" (Unrepeated Position.fieldNames)

/-- Neither a model nor any of its parts repeats a field. Anything else may be repeated. -/
structure Model.FieldsOnce (j : Json) : Prop where
  own : j.Unrepeated Model.fieldNames
  schemas : j.MayHave "schemas" (EachItem (Unrepeated Schema.fieldNames))
  tables : j.MayHave "tables" (EachItem Table.FieldsOnce)
  types : j.MayHave "types" (EachItem (Unrepeated EnumType.fieldNames))

theorem Table.FieldsOnce.of_distinctKeys {j : Json} (h : j.DistinctKeys) : Table.FieldsOnce j where
  own := h.unrepeated _
  columns := h.mayHave fun _ hv => hv.eachItem fun _ hi => hi.unrepeated _
  foreignKeys := h.mayHave fun _ hv => hv.eachItem fun _ hi => hi.unrepeated _
  position := h.mayHave fun _ hv => hv.unrepeated _

theorem Model.FieldsOnce.of_distinctKeys {j : Json} (h : j.DistinctKeys) : Model.FieldsOnce j where
  own := h.unrepeated _
  schemas := h.mayHave fun _ hv => hv.eachItem fun _ hi => hi.unrepeated _
  tables := h.mayHave fun _ hv => hv.eachItem fun _ hi => .of_distinctKeys hi
  types := h.mayHave fun _ hv => hv.eachItem fun _ hi => hi.unrepeated _

/-! ## Decoding -/

section Fields

variable {α β : Type} {decode : Json → Option α} {names : List String} {fields : Fields} {j : Json}
  {name : String} {p : Json → Prop}

theorem unrepeated_of_bind {f : Fields → Option β} {b : β}
    (h : (fields? names j).bind f = some b) : j.Unrepeated names := by
  obtain ⟨fields, hfields, -⟩ := Option.bind_eq_some_iff.1 h
  exact unrepeated_of_fields? hfields

theorem eachItem_of_listOf {as : List α} (h : listOf decode j = some as)
    (hitem : ∀ i a, decode i = some a → p i) : EachItem p j := by
  rintro items rfl i hi
  obtain ⟨a, -, ha⟩ := exists_of_mapM_mem h hi
  exact hitem i a ha

variable (hfields : fields? names j = some fields) (hname : name ∈ names)

include hfields hname

theorem mayHave_of_required {a : α} (h : required decode fields name = some a)
    (hp : ∀ v, decode v = some a → p v) : j.MayHave name p := by
  intro v hv
  rw [required, lookup_of_fields? hfields hname hv] at h
  exact hp v h

theorem mayHave_of_defaulted {a default : α} (h : defaulted decode fields name default = some a)
    (hp : ∀ v, decode v = some a → p v) : j.MayHave name p := by
  intro v hv
  rw [defaulted, lookup_of_fields? hfields hname hv] at h
  exact hp v h

theorem mayHave_of_optionalField {a : Option α} (h : optionalField decode fields name = some a)
    (hnull : p .null) (hp : ∀ v b, decode v = some b → p v) : j.MayHave name p := by
  intro v hv
  by_cases hv' : v = .null
  · rwa [hv']
  · rw [optionalField_of_ne_null (lookup_of_fields? hfields hname hv) hv'] at h
    obtain ⟨b, hb, -⟩ := Option.map_eq_some_iff.1 h
    exact hp v b hb

end Fields

section Records

variable {j : Json}

theorem Schema.unrepeated {s : Schema} (h : Schema.ofJson? j = some s) :
    j.Unrepeated Schema.fieldNames :=
  unrepeated_of_bind h

theorem Column.unrepeated {c : Column} (h : Column.ofJson? j = some c) :
    j.Unrepeated Column.fieldNames :=
  unrepeated_of_bind h

theorem ForeignKey.unrepeated {fk : ForeignKey} (h : ForeignKey.ofJson? j = some fk) :
    j.Unrepeated ForeignKey.fieldNames :=
  unrepeated_of_bind h

theorem Position.unrepeated {p : Position} (h : Position.ofJson? j = some p) :
    j.Unrepeated Position.fieldNames :=
  unrepeated_of_bind h

theorem EnumType.unrepeated {t : EnumType} (h : EnumType.ofJson? j = some t) :
    j.Unrepeated EnumType.fieldNames :=
  unrepeated_of_bind h

theorem Table.fieldsOnce_of_ofJson? {t : Table} (h : Table.ofJson? j = some t) :
    Table.FieldsOnce j := by
  have hown : j.Unrepeated Table.fieldNames := unrepeated_of_bind h
  simp only [Table.ofJson?, Option.bind_eq_bind, Option.bind_eq_some_iff] at h
  obtain ⟨fields, hfields, _, -, _, -, _, -, _, -, columns, hcolumns, foreignKeys, hforeign, position,
    hposition, -⟩ := h
  constructor
  · exact hown
  · exact mayHave_of_defaulted hfields (by decide) hcolumns fun v hv =>
      eachItem_of_listOf hv fun i c hc => Column.unrepeated hc
  · exact mayHave_of_defaulted hfields (by decide) hforeign fun v hv =>
      eachItem_of_listOf hv fun i fk hfk => ForeignKey.unrepeated hfk
  · exact mayHave_of_optionalField hfields (by decide) hposition trivial fun v p hp =>
      Position.unrepeated hp

/-- A document that repeats a field is not decoded. -/
theorem Model.fieldsOnce_of_ofJson? {m : Model} (h : Model.ofJson? j = some m) :
    Model.FieldsOnce j := by
  have hown : j.Unrepeated Model.fieldNames := unrepeated_of_bind h
  simp only [Model.ofJson?, Option.bind_eq_bind, Option.bind_eq_some_iff] at h
  obtain ⟨fields, hfields, _, -, schemas, hschemas, tables, htables, types, htypes, -⟩ := h
  constructor
  · exact hown
  · exact mayHave_of_required hfields (by decide) hschemas fun v hv =>
      eachItem_of_listOf hv fun i s hs => Schema.unrepeated hs
  · exact mayHave_of_defaulted hfields (by decide) htables fun v hv =>
      eachItem_of_listOf hv fun i t ht => Table.fieldsOnce_of_ofJson? ht
  · exact mayHave_of_defaulted hfields (by decide) htypes fun v hv =>
      eachItem_of_listOf hv fun i t ht => EnumType.unrepeated ht

end Records

end SchemaDdl
