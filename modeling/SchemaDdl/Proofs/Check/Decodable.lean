import SchemaDdl.Proofs.Check.SoundShape
import SchemaDdl.Proofs.Document.FieldsOnce

/-!
# Decoding documents of sound shape

A document of sound shape is decoded as a model, unless its version is too large or one of its fields
is repeated. Its canonical form is of sound shape too, and is decoded as the same model.
-/

namespace SchemaDdl

open Json Check

/-! ## Shape of the canonical form -/

theorem Check.SoundPosition.exists_object {j : Json} (hj : SoundPosition j) :
    ∃ ms, j = .object ms := by
  obtain ⟨_, hx, -⟩ := hj.numbers "x" List.mem_cons_self
  cases j with
  | object ms => exact ⟨ms, rfl⟩
  | _ => cases hx

theorem isObject_iff {j : Json} : isObject j = true ↔ ∃ ms, j = .object ms := by
  cases j <;> simp [isObject]

section Reduced

variable {j c : Json} (h : j.Reduces c)

include h

theorem isObject_reduced : isObject c = isObject j := by
  cases j with
  | object js =>
    obtain ⟨cs, -, rfl⟩ := reduces_object_iff.1 h
    rfl
  | array items =>
    obtain ⟨cs, -, rfl⟩ := reduces_array_iff.1 h
    rfl
  | unreadable => cases h
  | _ => rw [← h.eq_of_isScalar (.inl rfl)]

theorem Check.SoundPosition.reduced (hj : SoundPosition j) (honce : j.Unrepeated Position.fieldNames) :
    SoundPosition c :=
  ⟨onlyScalars_isNumber.has_reduced h honce (List.Subset.refl _) hj.numbers⟩

theorem Check.SoundSchema.reduced (hj : SoundSchema j) (honce : j.Unrepeated Schema.fieldNames) :
    SoundSchema c where
  isObject := (isObject_reduced h).trans hj.isObject
  strings := onlyScalars_isString.has_reduced h honce (List.Subset.refl _) hj.strings

theorem Check.SoundColumn.reduced (hj : SoundColumn j) (honce : j.Unrepeated Column.fieldNames) :
    SoundColumn c where
  isObject := (isObject_reduced h).trans hj.isObject
  strings := onlyScalars_isString.has_reduced h honce (by decide) hj.strings
  flags := onlyScalars_isBool.mayHave_reduced h honce (by decide) hj.flags
  texts := onlyScalars_isString.nullOr.mayHave_reduced h honce (by decide) hj.texts

theorem Check.SoundForeignKey.reduced (hj : SoundForeignKey j)
    (honce : j.Unrepeated ForeignKey.fieldNames) : SoundForeignKey c where
  isObject := (isObject_reduced h).trans hj.isObject
  strings := onlyScalars_isString.has_reduced h honce (by decide) hj.strings
  actions := onlyScalars_isAction.nullOr.mayHave_reduced h honce (by decide) hj.actions
  labels := onlyScalars_isString.nullOr.mayHave_reduced h honce (by decide) hj.labels

theorem Check.SoundType.reduced (hj : SoundType j) (honce : j.Unrepeated EnumType.fieldNames) :
    SoundType c where
  isObject := (isObject_reduced h).trans hj.isObject
  strings := onlyScalars_isString.has_reduced h honce (by decide) hj.strings
  kind := hj.kind.reduced h honce (by decide) fun v w _ hvw hv =>
    (onlyScalars_eq rfl).reduced hvw hv
  values := hj.values.reduced h honce (by decide) fun v w _ hvw hv =>
    hv.reduced hvw (fun _ _ _ _ => trivial) fun _ _ hik _ hi =>
      onlyScalars_isString.reduced hik hi

theorem Check.SoundTable.reduced (hj : SoundTable j) (honce : Table.FieldsOnce j) :
    SoundTable c where
  isObject := (isObject_reduced h).trans hj.isObject
  strings := onlyScalars_isString.has_reduced h honce.own (by decide) hj.strings
  comment := hj.comment.reduced h honce.own (by decide) fun v w _ hvw hv =>
    onlyScalars_isString.nullOr.reduced hvw hv
  position := hj.position.reduced h honce.own (by decide) fun v w hv hvw hposition =>
    hposition.reduced hvw fun hsound => hsound.reduced hvw (honce.position v hv)
  columns := hj.columns.reduced h honce.own (by decide) fun v w hv hvw hitems =>
    hitems.reduced hvw (honce.columns v hv) fun i k hik hi hsound => hsound.reduced hik hi
  foreignKeys := hj.foreignKeys.reduced h honce.own (by decide) fun v w hv hvw hitems =>
    hitems.reduced hvw (honce.foreignKeys v hv) fun i k hik hi hsound => hsound.reduced hik hi

/-- The canonical form of a document of sound shape is of sound shape. -/
theorem Check.SoundModel.reduced (hj : SoundModel j) (honce : Model.FieldsOnce j) :
    SoundModel c where
  isObject := (isObject_reduced h).trans hj.isObject
  version := hj.version.reduced h honce.own (by decide) fun v w _ hvw hv =>
    onlyScalars_isVersion.reduced hvw hv
  schemas := hj.schemas.reduced h honce.own (by decide) fun v w hv hvw hitems =>
    hitems.reduced hvw (honce.schemas v hv) fun i k hik hi hsound => hsound.reduced hik hi
  types := hj.types.reduced h honce.own (by decide) fun v w hv hvw hitems =>
    hitems.reduced hvw (honce.types v hv) fun i k hik hi hsound => hsound.reduced hik hi
  tables := hj.tables.reduced h honce.own (by decide) fun v w hv hvw hitems =>
    hitems.reduced hvw (honce.tables v hv) fun i k hik hi hsound => hsound.reduced hik hi

end Reduced

/-! ## Decoding -/

section Decoding

variable {j c : Json} {names : List String} {fs gs : Fields} {name : String}

theorem agree_string (h : j.Reduces c) (hc : IsString c) : Agree (string? j) (string? c) := by
  obtain ⟨s, rfl⟩ := hc
  exact agree_of_scalar h rfl rfl

theorem agree_bool (h : j.Reduces c) (hc : IsBool c) : Agree (bool? j) (bool? c) := by
  obtain ⟨b, rfl⟩ := hc
  exact agree_of_scalar h rfl rfl

theorem agree_float (h : j.Reduces c) (hc : IsNumber c) : Agree (float? j) (float? c) := by
  obtain ⟨n, rfl⟩ := hc
  exact agree_of_scalar h rfl rfl

theorem agree_action (h : j.Reduces c) (hc : IsAction c) :
    Agree (Action.ofJson? j) (Action.ofJson? c) := by
  obtain ⟨a, rfl⟩ := hc
  exact agree_of_scalar h rfl a.ofJson?_toJson

theorem agree_cardinality (h : j.Reduces c) (hc : IsString c) :
    Agree (Cardinality.ofJson? j) (Cardinality.ofJson? c) := by
  obtain ⟨s, rfl⟩ := hc
  exact agree_of_scalar h rfl rfl

theorem agree_kind (h : j.Reduces c) (hc : c = .string "enum") :
    Agree (EnumType.kind? j) (EnumType.kind? c) := by
  obtain rfl := hc
  have henum : EnumType.kind? (.string "enum") = some () := by decide
  exact agree_of_scalar h rfl henum

section Members

variable (t : Taken names j c fs gs)

include t

theorem Json.Taken.string (hc : c.Has name IsString) (hname : name ∈ names) :
    Agree (required string? fs name) (required string? gs name) :=
  t.required_agree hname hc fun _ _ _ => agree_string

theorem Json.Taken.text (hc : c.MayHave name (NullOr IsString)) (hname : name ∈ names) :
    Agree (optionalField string? fs name) (optionalField string? gs name) :=
  t.optionalField_agree hname hc fun _ _ _ => agree_string

theorem Json.Taken.action (hc : c.MayHave name (NullOr IsAction)) (hname : name ∈ names) :
    Agree (optionalField Action.ofJson? fs name) (optionalField Action.ofJson? gs name) :=
  t.optionalField_agree hname hc fun _ _ _ => agree_action

theorem Json.Taken.label (hc : c.MayHave name (NullOr IsString)) (hname : name ∈ names) :
    Agree (optionalField Cardinality.ofJson? fs name)
      (optionalField Cardinality.ofJson? gs name) :=
  t.optionalField_agree hname hc fun _ _ _ => agree_cardinality

theorem Json.Taken.flag (hc : c.MayHave name IsBool) (hname : name ∈ names) (default : Bool) :
    Agree (defaulted bool? fs name default) (defaulted bool? gs name default) :=
  t.defaulted_agree hname hc default fun _ _ _ => agree_bool

end Members

/-! Records are decoded field by field, in the order in which the fields are decoded. -/

theorem Schema.agree (h : j.Reduces c) (hc : SoundSchema c)
    (honce : j.Unrepeated Schema.fieldNames) : Agree (Schema.ofJson? j) (Schema.ofJson? c) := by
  obtain ⟨ms, rfl⟩ := isObject_iff.1 hc.isObject
  obtain ⟨fs, gs, t⟩ := exists_taken h honce
  refine t.agree ?_
  refine (t.string (hc.strings "id" (by decide)) (by decide)).bind fun id => ?_
  refine (t.string (hc.strings "name" (by decide)) (by decide)).bind fun name => ?_
  exact .pure _

theorem Column.agree (h : j.Reduces c) (hc : SoundColumn c)
    (honce : j.Unrepeated Column.fieldNames) : Agree (Column.ofJson? j) (Column.ofJson? c) := by
  obtain ⟨ms, rfl⟩ := isObject_iff.1 hc.isObject
  obtain ⟨fs, gs, t⟩ := exists_taken h honce
  refine t.agree ?_
  refine (t.string (hc.strings "id" (by decide)) (by decide)).bind fun id => ?_
  refine (t.string (hc.strings "name" (by decide)) (by decide)).bind fun name => ?_
  refine (t.string (hc.strings "type" (by decide)) (by decide)).bind fun type => ?_
  refine (t.flag (hc.flags "nullable" (by decide)) (by decide) true).bind fun nullable => ?_
  refine (t.text (hc.texts "defaultValue" (by decide)) (by decide)).bind fun default => ?_
  refine (t.flag (hc.flags "isPrimaryKey" (by decide)) (by decide) false).bind fun primary => ?_
  refine (t.flag (hc.flags "isUnique" (by decide)) (by decide) false).bind fun unique => ?_
  refine (t.text (hc.texts "comment" (by decide)) (by decide)).bind fun comment => ?_
  exact .pure _

theorem ForeignKey.agree (h : j.Reduces c) (hc : SoundForeignKey c)
    (honce : j.Unrepeated ForeignKey.fieldNames) :
    Agree (ForeignKey.ofJson? j) (ForeignKey.ofJson? c) := by
  obtain ⟨ms, rfl⟩ := isObject_iff.1 hc.isObject
  obtain ⟨fs, gs, t⟩ := exists_taken h honce
  refine t.agree ?_
  refine (t.string (hc.strings "id" (by decide)) (by decide)).bind fun id => ?_
  refine (t.string (hc.strings "name" (by decide)) (by decide)).bind fun name => ?_
  refine (t.string (hc.strings "fromColumnId" (by decide)) (by decide)).bind fun source => ?_
  refine (t.string (hc.strings "toTableId" (by decide)) (by decide)).bind fun table => ?_
  refine (t.string (hc.strings "toColumnId" (by decide)) (by decide)).bind fun target => ?_
  refine (t.action (hc.actions "onDelete" (by decide)) (by decide)).bind fun onDelete => ?_
  refine (t.action (hc.actions "onUpdate" (by decide)) (by decide)).bind fun onUpdate => ?_
  refine (t.label (hc.labels "startCardinality" (by decide)) (by decide)).bind fun start => ?_
  refine (t.label (hc.labels "endCardinality" (by decide)) (by decide)).bind fun finish => ?_
  exact .pure _

theorem Position.agree (h : j.Reduces c) (hc : SoundPosition c)
    (honce : j.Unrepeated Position.fieldNames) :
    Agree (Position.ofJson? j) (Position.ofJson? c) := by
  obtain ⟨ms, rfl⟩ := hc.exists_object
  obtain ⟨fs, gs, t⟩ := exists_taken h honce
  have hnumber (name : String) (hname : name ∈ Position.fieldNames) :
      Agree (required float? fs name) (required float? gs name) :=
    t.required_agree hname (hc.numbers name hname) fun _ _ _ => agree_float
  refine t.agree ?_
  refine (hnumber "x" (by decide)).bind fun x => ?_
  refine (hnumber "y" (by decide)).bind fun y => ?_
  exact .pure _

theorem EnumType.agree (h : j.Reduces c) (hc : SoundType c)
    (honce : j.Unrepeated EnumType.fieldNames) :
    Agree (EnumType.ofJson? j) (EnumType.ofJson? c) := by
  obtain ⟨ms, rfl⟩ := isObject_iff.1 hc.isObject
  obtain ⟨fs, gs, t⟩ := exists_taken h honce
  have hkind := t.required_agree (by decide) hc.kind fun _ _ _ => agree_kind
  have hvalues := t.required_agree (by decide) hc.values fun v w _ hvw hw =>
    agree_listOf hvw (fun _ _ _ _ => trivial) hw fun _ _ hik hk _ => agree_string hik hk
  refine t.agree ?_
  refine hkind.bind fun _ => ?_
  refine (t.string (hc.strings "id" (by decide)) (by decide)).bind fun id => ?_
  refine (t.string (hc.strings "schemaId" (by decide)) (by decide)).bind fun schema => ?_
  refine (t.string (hc.strings "name" (by decide)) (by decide)).bind fun name => ?_
  refine hvalues.bind fun values => ?_
  exact .pure _

theorem Table.agree (h : j.Reduces c) (hc : SoundTable c) (honce : Table.FieldsOnce j) :
    Agree (Table.ofJson? j) (Table.ofJson? c) := by
  obtain ⟨ms, rfl⟩ := isObject_iff.1 hc.isObject
  obtain ⟨fs, gs, t⟩ := exists_taken h honce.own
  have hcolumns := t.defaulted_agree (by decide) hc.columns [] fun v w hv hvw hw =>
    agree_listOf hvw (honce.columns v hv) hw fun _ _ => Column.agree
  have hforeign := t.defaulted_agree (by decide) hc.foreignKeys [] fun v w hv hvw hw =>
    agree_listOf hvw (honce.foreignKeys v hv) hw fun _ _ => ForeignKey.agree
  have hposition := t.optionalField_agree (by decide) hc.position fun v w hv hvw hw =>
    Position.agree hvw hw (honce.position v hv)
  refine t.agree ?_
  refine (t.string (hc.strings "id" (by decide)) (by decide)).bind fun id => ?_
  refine (t.string (hc.strings "schemaId" (by decide)) (by decide)).bind fun schema => ?_
  refine (t.string (hc.strings "name" (by decide)) (by decide)).bind fun name => ?_
  refine (t.text hc.comment (by decide)).bind fun comment => ?_
  refine hcolumns.bind fun columns => ?_
  refine hforeign.bind fun foreignKeys => ?_
  refine hposition.bind fun position => ?_
  exact .pure _

/-- The largest version that a model can hold. -/
def Model.largestVersion : Int :=
  4294967295

theorem member?_writtenVersion (hj : j.Has "version" IsVersion) :
    j.member? "version" = some (.number (.int (writtenVersion j))) := by
  obtain ⟨_, hv, n, rfl⟩ := hj
  rw [writtenVersion, hv]

theorem writtenVersion_reduced (h : j.Reduces c) (honce : j.Unrepeated Model.fieldNames)
    (hj : j.Has "version" IsVersion) : writtenVersion c = writtenVersion j := by
  obtain ⟨v, hv, n, hn⟩ := hj
  have hj : j.Has "version" (· = .number (.int n)) := ⟨v, hv, hn⟩
  obtain ⟨w, hw, hwn⟩ := hj.reduced h honce (by decide) fun _ _ _ hvw hv =>
    (onlyScalars_eq rfl).reduced hvw hv
  rw [writtenVersion, writtenVersion, hv, hw, hn, hwn]

theorem agree_word {n : Nat} (hn : n ≤ Model.largestVersion) (h : j.Reduces c)
    (hc : c = .number (.int n)) : Agree (word? j) (word? c) := by
  obtain rfl := hc
  rw [Model.largestVersion] at hn
  exact agree_of_scalar h rfl (word?_natCast (by omega))

/-- A document without repeated fields is decoded as its canonical form is, if that is of sound
shape and in a version that a model can hold. -/
theorem Model.agree (h : j.Reduces c) (hc : SoundModel c) (honce : Model.FieldsOnce j)
    (hversion : writtenVersion c ≤ largestVersion) :
    Agree (Model.ofJson? j) (Model.ofJson? c) := by
  obtain ⟨ms, rfl⟩ := isObject_iff.1 hc.isObject
  obtain ⟨fs, gs, t⟩ := exists_taken h honce.own
  have hword : Agree (required word? fs "version") (required word? gs "version") := by
    obtain ⟨_, hv, n, rfl⟩ := hc.version
    rw [writtenVersion, hv] at hversion
    have hnumber : (Json.object ms).Has "version" (· = .number (.int n)) := ⟨_, hv, rfl⟩
    exact t.required_agree (by decide) hnumber fun _ _ _ => agree_word hversion
  have hschemas := t.required_agree (by decide) hc.schemas fun v w hv hvw hw =>
    agree_listOf hvw (honce.schemas v hv) hw fun _ _ => Schema.agree
  have htables := t.defaulted_agree (by decide) hc.tables [] fun v w hv hvw hw =>
    agree_listOf hvw (honce.tables v hv) hw fun _ _ => Table.agree
  have htypes := t.defaulted_agree (by decide) hc.types [] fun v w hv hvw hw =>
    agree_listOf hvw (honce.types v hv) hw fun _ _ => EnumType.agree
  refine t.agree ?_
  refine hword.bind fun version => ?_
  refine hschemas.bind fun schemas => ?_
  refine htables.bind fun tables => ?_
  refine htypes.bind fun types => ?_
  exact .pure _

/-- A version that is too large keeps any document from being a model. -/
theorem Model.ofJson?_eq_none (h : largestVersion < writtenVersion j) :
    Model.ofJson? j = none := by
  apply Option.eq_none_iff_forall_ne_some.2
  intro m hm
  simp only [Model.ofJson?, Option.bind_eq_bind, Option.bind_eq_some_iff] at hm
  obtain ⟨fields, hfields, version, hversion, -⟩ := hm
  rw [writtenVersion] at h
  split at h
  · rename_i i hi
    rw [required, lookup_of_fields? hfields (by decide) hi, Option.bind_eq_bind, Option.bind_some,
      word?] at hversion
    split at hversion
    · rename_i hrange
      simp only [Bool.and_eq_true, decide_eq_true_eq] at hrange
      rw [largestVersion] at h
      omega
    · cases hversion
  · simp [largestVersion] at h

theorem Model.writtenVersion_le {m : Model} (h : Model.ofJson? j = some m) :
    writtenVersion j ≤ largestVersion := by
  by_contra hlarge
  rw [Model.ofJson?_eq_none (Int.not_le.1 hlarge)] at h
  cases h

end Decoding

/-! ## Checking -/

namespace Check

theorem validateDocument_of_sound {j : Json} (hshape : shapeIssues j = []) : validateDocument j =
    match Model.ofJson? j with
    | some m => validate m
    | none => [.versionTooLarge (writtenVersion j)] := by
  rw [validateDocument, hshape]
  rfl

theorem exists_ofJson? {j : Json} (hkeys : j.DistinctKeys) (hsound : SoundModel j)
    (hversion : writtenVersion j ≤ Model.largestVersion) : ∃ m, Model.ofJson? j = some m := by
  obtain ⟨c, hc⟩ := hkeys.exists_reduces
  have honce := Model.FieldsOnce.of_distinctKeys hkeys
  have hsound' := hsound.reduced hc honce
  rw [← writtenVersion_reduced hc honce.own hsound.version] at hversion
  obtain ⟨m, hm, -⟩ := Model.agree hc hsound' honce hversion
  exact ⟨m, hm⟩

/-- A document of sound shape is checked as the model that it is decoded as. There is such a model
unless the version is too large, and then that is the only error. -/
theorem decodable_of_sound {j : Json} (hkeys : j.DistinctKeys) (hshape : shapeIssues j = []) :
    j.member? "version" = some (.number (.int (writtenVersion j))) ∧
      (writtenVersion j ≤ Model.largestVersion →
        ∃ m, Model.ofJson? j = some m ∧ validateDocument j = validate m) ∧
      (Model.ofJson? j = none ↔ Model.largestVersion < writtenVersion j) ∧
      (Model.ofJson? j = none → validateDocument j = [.versionTooLarge (writtenVersion j)] ∧
        AllErrors (validateDocument j)) := by
  have hsound := shapeIssues_eq_nil.1 hshape
  have hvalidate := validateDocument_of_sound hshape
  refine ⟨member?_writtenVersion hsound.version, fun hversion => ?_, ?_, fun hnone => ?_⟩
  · obtain ⟨m, hm⟩ := exists_ofJson? hkeys hsound hversion
    rw [hm] at hvalidate
    exact ⟨m, hm, hvalidate⟩
  · refine ⟨fun hnone => ?_, Model.ofJson?_eq_none⟩
    by_contra hfits
    obtain ⟨m, hm⟩ := exists_ofJson? hkeys hsound (Int.not_lt.1 hfits)
    rw [hm] at hnone
    cases hnone
  · rw [hnone] at hvalidate
    rw [hvalidate]
    exact ⟨rfl, List.forall_mem_singleton.2 rfl⟩

/-- Fields that may be missing are missing or null, others stand in another order, and there are
more than a model has. -/
def sparse (version : Int) : Json :=
  .object [
    ("tables", .array [.object [
      ("schemaId", .string "s"), ("name", .string "t"), ("id", .string "t"), ("comment", .null),
      ("position", .object [("y", .number (.int 2)), ("z", .array []), ("x", .number (.int 1))]),
      ("columns", .array [.object [
        ("id", .string "c"), ("name", .string "a"), ("type", .string "int"),
        ("isUnique", .bool true)]]),
      ("foreignKeys", .array [.object [
        ("id", .string "f"), ("name", .string "f"), ("fromColumnId", .string "c"),
        ("toTableId", .string "t"), ("toColumnId", .string "c"), ("onDelete", .string "SET NULL"),
        ("onUpdate", .null), ("endCardinality", .string "zero_or_many")]])]]),
    ("note", .array [.null, .number (.int (-1))]),
    ("version", .number (.int version)),
    ("schemas", .array [])]

theorem distinctKeys_sparse (version : Int) : (sparse version).DistinctKeys := by
  simp [sparse]

/-- A version that fits is an error of the model at most, one that does not fit is the only error. -/
theorem decodable_sparse :
    (sparse 4294967295).DistinctKeys ∧ shapeIssues (sparse 4294967295) = [] ∧
      (∃ m, Model.ofJson? (sparse 4294967295) = some m ∧
        validateDocument (sparse 4294967295) = validate m) ∧
      (sparse 4294967296).DistinctKeys ∧ shapeIssues (sparse 4294967296) = [] ∧
      validateDocument (sparse 4294967296) = [.versionTooLarge 4294967296] := by
  have hfits : shapeIssues (sparse 4294967295) = [] := by decide +kernel
  have hlarge : shapeIssues (sparse 4294967296) = [] := by decide +kernel
  have hmodel := decodable_of_sound (distinctKeys_sparse _) hfits
  have hnone := decodable_of_sound (distinctKeys_sparse _) hlarge
  refine ⟨distinctKeys_sparse _, hfits, hmodel.2.1 (by decide), distinctKeys_sparse _, hlarge, ?_⟩
  exact (hnone.2.2.2 (hnone.2.2.1.2 (by decide))).1

end Check

end SchemaDdl
