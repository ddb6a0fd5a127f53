import SchemaDdl.Check.Shape
import SchemaDdl.Proofs.Check.Faultless
import SchemaDdl.Proofs.Json.Members

/-!
# Sound shape

A document is of sound shape if and only if its fields are laid out as those of a model: which of
them are there, and what each of them holds. Everything that is wrong with a shape is an error.
-/

namespace SchemaDdl.Check

open Json

/-! ## Layout of a document -/

def IsAction (v : Json) : Prop :=
  ∃ a : Action, v = .string a.spelling

def IsNumber (v : Json) : Prop :=
  ∃ n, v = .number n

def IsVersion (v : Json) : Prop :=
  ∃ n : Nat, v = .number (.int n)

theorem onlyScalars_isAction : OnlyScalars IsAction := by
  rintro _ ⟨a, rfl⟩
  rfl

theorem onlyScalars_isNumber : OnlyScalars IsNumber := by
  rintro _ ⟨n, rfl⟩
  rfl

theorem onlyScalars_isVersion : OnlyScalars IsVersion := by
  rintro _ ⟨n, rfl⟩
  rfl

@[mk_iff] structure SoundPosition (j : Json) : Prop where
  numbers : ∀ key ∈ ["x", "y"], j.Has key IsNumber

@[mk_iff] structure SoundSchema (j : Json) : Prop where
  isObject : isObject j = true
  strings : ∀ key ∈ ["id", "name"], j.Has key IsString

@[mk_iff] structure SoundType (j : Json) : Prop where
  isObject : isObject j = true
  strings : ∀ key ∈ ["id", "schemaId", "name"], j.Has key IsString
  kind : j.Has "kind" (· = .string "enum")
  values : j.Has "values" (ArrayOf IsString)

@[mk_iff] structure SoundColumn (j : Json) : Prop where
  isObject : isObject j = true
  strings : ∀ key ∈ ["id", "name", "type"], j.Has key IsString
  flags : ∀ key ∈ ["nullable", "isPrimaryKey", "isUnique"], j.MayHave key IsBool
  texts : ∀ key ∈ ["defaultValue", "comment"], j.MayHave key (NullOr IsString)

@[mk_iff] structure SoundForeignKey (j : Json) : Prop where
  isObject : isObject j = true
  strings : ∀ key ∈ ["id", "name", "fromColumnId", "toTableId", "toColumnId"], j.Has key IsString
  actions : ∀ key ∈ ["onDelete", "onUpdate"], j.MayHave key (NullOr IsAction)
  labels : ∀ key ∈ ["startCardinality", "endCardinality"], j.MayHave key (NullOr IsString)

@[mk_iff] structure SoundTable (j : Json) : Prop where
  isObject : isObject j = true
  strings : ∀ key ∈ ["id", "schemaId", "name"], j.Has key IsString
  comment : j.MayHave "comment" (NullOr IsString)
  position : j.MayHave "position" (NullOr SoundPosition)
  columns : j.MayHave "columns" (ArrayOf SoundColumn)
  foreignKeys : j.MayHave "foreignKeys" (ArrayOf SoundForeignKey)

@[mk_iff] structure SoundModel (j : Json) : Prop where
  isObject : isObject j = true
  version : j.Has "version" IsVersion
  schemas : j.Has "schemas" (ArrayOf SoundSchema)
  types : j.MayHave "types" (ArrayOf SoundType)
  tables : j.MayHave "tables" (ArrayOf SoundTable)

/-! ## Fields -/

section Fields

variable {path : Path} {j : Json} {key : String} {keys : List String}

theorem stringField_eq_nil : stringField path j key = [] ↔ j.Has key IsString := by
  rw [stringField, Has]
  split <;> simp_all [IsString]

theorem stringFields_eq_nil : stringFields path j keys = [] ↔ ∀ key ∈ keys, j.Has key IsString := by
  rw [stringFields, List.flatMap_eq_nil_iff]
  simp only [stringField_eq_nil]

theorem optionalStringField_eq_nil :
    optionalStringField path j key = [] ↔ j.MayHave key (NullOr IsString) := by
  rw [optionalStringField, MayHave]
  split <;> simp_all [NullOr, IsString]

theorem optionalBoolField_eq_nil : optionalBoolField path j key = [] ↔ j.MayHave key IsBool := by
  rw [optionalBoolField, MayHave]
  split <;> simp_all [IsBool]

theorem ofSpelling?_eq_some_iff {s : String} {a : Action} :
    Action.ofSpelling? s = some a ↔ a.spelling = s := by
  constructor
  · intro h
    have hfound := List.find?_some h
    exact eq_of_beq hfound
  · rintro rfl
    cases a <;> decide

theorem isSome_ofSpelling? {v : Json} :
    (v.string?.bind Action.ofSpelling?).isSome = true ↔ IsAction v := by
  rw [Option.isSome_iff_exists, IsAction]
  apply exists_congr
  intro a
  rw [Option.bind_eq_some_iff]
  constructor
  · rintro ⟨s, hs, ha⟩
    rw [ofSpelling?_eq_some_iff.1 ha]
    cases v with
    | string s' => rw [← Option.some.inj hs]
    | _ => cases hs
  · rintro rfl
    exact ⟨a.spelling, rfl, ofSpelling?_eq_some_iff.2 rfl⟩

theorem actionField_eq_nil : actionField path j key = [] ↔ j.MayHave key (NullOr IsAction) := by
  rw [actionField, MayHave]
  split
  · simp_all
  · simp_all [NullOr]
  · rename_i v hnull hv
    rw [hv]
    split
    · rename_i haction
      simpa [NullOr] using .inr (isSome_ofSpelling?.1 haction)
    · rename_i haction
      rw [isSome_ofSpelling?] at haction
      simpa [NullOr, haction] using hnull

theorem flatMap_zipIdx_eq_nil {α β : Type} {f : α × Nat → List β} {p : α → Prop} {xs : List α}
    (h : ∀ a i, f (a, i) = [] ↔ p a) : xs.zipIdx.flatMap f = [] ↔ ∀ a ∈ xs, p a := by
  rw [List.flatMap_eq_nil_iff]
  constructor
  · intro hall a ha
    obtain ⟨i, hi⟩ := List.mem_iff_getElem?.1 ha
    exact (h a i).1 (hall _ (List.mem_zipIdx_iff_getElem?.2 hi))
  · rintro hall ⟨a, i⟩ hi
    exact (h a i).2 (hall a (List.fst_mem_of_mem_zipIdx hi))

/-- The items that are checked are all of an array that is there, or none. -/
theorem arrayField_eq_nil (path : Path) (j : Json) (key : String) (isRequired : Bool)
    (p : Json → Prop) :
    ((arrayField path j key isRequired).1 = [] ∧
        ∀ item ∈ (arrayField path j key isRequired).2, p item) ↔
      (isRequired = true → j.member? key ≠ none) ∧ j.MayHave key (ArrayOf p) := by
  rw [arrayField, MayHave]
  split
  · rename_i items hitems
    simp [hitems, ArrayOf]
  · rename_i v hv hmember
    simp_all [ArrayOf]
  · rename_i hmember
    cases isRequired <;> simp [hmember, given]

theorem requiredArray_eq_nil (path : Path) (j : Json) (key : String) (p : Json → Prop) :
    ((arrayField path j key true).1 = [] ∧ ∀ item ∈ (arrayField path j key true).2, p item) ↔
      j.Has key (ArrayOf p) := by
  rw [arrayField_eq_nil, has_iff]
  simp

section Parts

variable {isRequired : Bool} {kind : PartKind} {shape : Path → Json → List Issue}
  {Sound : Json → Prop}
  (hshape : ∀ path item, objectShape path item (shape path item) = [] ↔ Sound item)

include hshape

theorem partsShape_eq_nil : partsShape path j key isRequired kind shape = [] ↔
    (arrayField path j key isRequired).1 = [] ∧
      ∀ item ∈ (arrayField path j key isRequired).2, Sound item := by
  rw [partsShape, List.append_eq_nil_iff]
  apply and_congr_right'
  exact flatMap_zipIdx_eq_nil fun item i => hshape _ item

theorem requiredParts_eq_nil :
    partsShape path j key true kind shape = [] ↔ j.Has key (ArrayOf Sound) := by
  rw [partsShape_eq_nil hshape, requiredArray_eq_nil]

theorem optionalParts_eq_nil :
    partsShape path j key false kind shape = [] ↔ j.MayHave key (ArrayOf Sound) := by
  rw [partsShape_eq_nil hshape, arrayField_eq_nil]
  simp

end Parts

theorem valuesShape_eq_nil : valuesShape path j = [] ↔ j.Has "values" (ArrayOf IsString) := by
  rw [← requiredArray_eq_nil path, valuesShape, List.append_eq_nil_iff]
  apply and_congr_right'
  apply flatMap_zipIdx_eq_nil
  intro item i
  cases item <;> simp [given, string?, IsString]

theorem kind_eq_nil : given ((j.member? "kind").bind Json.string? != some "enum")
    (shapeAt path .notAnEnum) = [] ↔ j.Has "kind" (· = .string "enum") := by
  rw [given_eq_nil, bne_eq_false_iff_eq, Option.bind_eq_some_iff, Has]
  apply exists_congr
  intro v
  apply and_congr_right'
  cases v <;> simp [string?]

theorem isNumber_iff {v : Json} : isNumber v = true ↔ IsNumber v := by
  cases v <;> simp [isNumber, IsNumber]

theorem any_isNumber_iff : (j.member? key).any isNumber = true ↔ j.Has key IsNumber := by
  simp only [Option.any_eq_true, isNumber_iff, Has]

theorem positionShape_eq_nil :
    positionShape path j = [] ↔ j.MayHave "position" (NullOr SoundPosition) := by
  rw [positionShape, MayHave]
  split
  · simp_all
  · simp_all [NullOr]
  · rename_i v hnull hv
    rw [hv, given_eq_nil, Bool.not_eq_false', Bool.and_eq_true, any_isNumber_iff, any_isNumber_iff]
    simp_all [NullOr, soundPosition_iff]

theorem isVersion_iff {v : Json} : isVersion v = true ↔ IsVersion v := by
  rw [IsVersion]
  constructor
  · intro h
    unfold isVersion at h
    split at h
    · exact ⟨_, by rw [Int.toNat_of_nonneg (of_decide_eq_true h)]⟩
    · cases h
  · rintro ⟨n, rfl⟩
    exact decide_eq_true (Int.natCast_nonneg n)

theorem versionShape_eq_nil : versionShape j = [] ↔ j.Has "version" IsVersion := by
  rw [versionShape, Has]
  split
  · rename_i v hv
    rw [given_eq_nil, Bool.not_eq_false', isVersion_iff, hv]
    simp
  · simp_all

theorem objectShape_eq_nil {fields : List Issue} :
    objectShape path j fields = [] ↔ isObject j = true ∧ fields = [] := by
  rw [objectShape]
  cases isObject j <;> simp

end Fields

/-! ## Records -/

theorem schemaShape_eq_nil (path : Path) (j : Json) :
    objectShape path j (schemaShape path j) = [] ↔ SoundSchema j := by
  rw [objectShape_eq_nil, schemaShape, stringFields_eq_nil, soundSchema_iff]

theorem typeShape_eq_nil (path : Path) (j : Json) :
    objectShape path j (typeShape path j) = [] ↔ SoundType j := by
  rw [objectShape_eq_nil, typeShape, List.append_eq_nil_iff, List.append_eq_nil_iff,
    stringFields_eq_nil, kind_eq_nil, valuesShape_eq_nil, soundType_iff, and_assoc]

theorem columnShape_eq_nil (path : Path) (j : Json) :
    objectShape path j (columnShape path j) = [] ↔ SoundColumn j := by
  simp only [objectShape_eq_nil, columnShape, List.append_eq_nil_iff, List.flatMap_eq_nil_iff,
    stringFields_eq_nil, optionalBoolField_eq_nil, optionalStringField_eq_nil, soundColumn_iff,
    and_assoc]

theorem foreignKeyShape_eq_nil (path : Path) (j : Json) :
    objectShape path j (foreignKeyShape path j) = [] ↔ SoundForeignKey j := by
  simp only [objectShape_eq_nil, foreignKeyShape, List.append_eq_nil_iff, List.flatMap_eq_nil_iff,
    stringFields_eq_nil, actionField_eq_nil, optionalStringField_eq_nil, soundForeignKey_iff,
    and_assoc]

theorem tableShape_eq_nil (path : Path) (j : Json) :
    objectShape path j (tableShape path j) = [] ↔ SoundTable j := by
  simp only [objectShape_eq_nil, tableShape, List.append_eq_nil_iff, stringFields_eq_nil,
    optionalStringField_eq_nil, positionShape_eq_nil, optionalParts_eq_nil columnShape_eq_nil,
    optionalParts_eq_nil foreignKeyShape_eq_nil, soundTable_iff, and_assoc]

/-- A document is of sound shape if it is laid out as a model. -/
theorem shapeIssues_eq_nil {j : Json} : shapeIssues j = [] ↔ SoundModel j := by
  simp only [shapeIssues, objectShape_eq_nil, List.append_eq_nil_iff, versionShape_eq_nil,
    requiredParts_eq_nil schemaShape_eq_nil, optionalParts_eq_nil typeShape_eq_nil,
    optionalParts_eq_nil tableShape_eq_nil, soundModel_iff, and_assoc]

/-! ## Errors -/

def AllErrors (issues : List Issue) : Prop :=
  ∀ i ∈ issues, i.isError = true

section Errors

variable {path : Path} {j : Json} {key : String}

@[simp] theorem allErrors_nil : AllErrors [] :=
  List.forall_mem_nil _

@[simp] theorem allErrors_shapeAt (path : Path) (d : ShapeDefect) : AllErrors [shapeAt path d] :=
  List.forall_mem_singleton.2 rfl

@[simp] theorem allErrors_given (b : Bool) (path : Path) (d : ShapeDefect) :
    AllErrors (given b (shapeAt path d)) := by
  cases b
  · exact allErrors_nil
  · exact allErrors_shapeAt path d

@[simp] theorem allErrors_append {xs ys : List Issue} :
    AllErrors (xs ++ ys) ↔ AllErrors xs ∧ AllErrors ys :=
  List.forall_mem_append

theorem allErrors_flatMap {α : Type} {f : α → List Issue} {xs : List α}
    (h : ∀ a, AllErrors (f a)) : AllErrors (xs.flatMap f) := by
  intro i hi
  obtain ⟨a, -, ha⟩ := List.mem_flatMap.1 hi
  exact h a i ha

@[simp] theorem allErrors_stringFields (path : Path) (j : Json) (keys : List String) :
    AllErrors (stringFields path j keys) := by
  apply allErrors_flatMap
  intro key
  rw [stringField]
  split <;> simp

@[simp] theorem allErrors_optionalStringField (path : Path) (j : Json) (key : String) :
    AllErrors (optionalStringField path j key) := by
  rw [optionalStringField]
  split <;> simp

@[simp] theorem allErrors_optionalBoolField (path : Path) (j : Json) (key : String) :
    AllErrors (optionalBoolField path j key) := by
  rw [optionalBoolField]
  split <;> simp

@[simp] theorem allErrors_actionField (path : Path) (j : Json) (key : String) :
    AllErrors (actionField path j key) := by
  rw [actionField]
  split
  · simp
  · simp
  · split <;> simp

@[simp] theorem allErrors_positionShape (path : Path) (j : Json) :
    AllErrors (positionShape path j) := by
  rw [positionShape]
  split <;> simp

@[simp] theorem allErrors_versionShape (j : Json) : AllErrors (versionShape j) := by
  rw [versionShape]
  split <;> simp

@[simp] theorem allErrors_arrayField (path : Path) (j : Json) (key : String) (isRequired : Bool) :
    AllErrors (arrayField path j key isRequired).1 := by
  rw [arrayField]
  split <;> simp

@[simp] theorem allErrors_valuesShape (path : Path) (j : Json) : AllErrors (valuesShape path j) := by
  rw [valuesShape, allErrors_append]
  refine ⟨allErrors_arrayField path j _ _, allErrors_flatMap ?_⟩
  rintro ⟨item, i⟩
  exact allErrors_given _ path _

theorem allErrors_objectShape {fields : List Issue} (h : AllErrors fields) :
    AllErrors (objectShape path j fields) := by
  rw [objectShape]
  split
  · exact h
  · exact allErrors_shapeAt path _

theorem allErrors_partsShape {isRequired : Bool} {kind : PartKind}
    {shape : Path → Json → List Issue} (hshape : ∀ path item, AllErrors (shape path item)) :
    AllErrors (partsShape path j key isRequired kind shape) := by
  rw [partsShape, allErrors_append]
  refine ⟨allErrors_arrayField path j _ _, allErrors_flatMap ?_⟩
  rintro ⟨item, i⟩
  exact allErrors_objectShape (hshape _ item)

theorem allErrors_typeShape (path : Path) (j : Json) : AllErrors (typeShape path j) := by
  simp [typeShape]

theorem allErrors_columnShape (path : Path) (j : Json) : AllErrors (columnShape path j) := by
  simp [columnShape]

theorem allErrors_foreignKeyShape (path : Path) (j : Json) : AllErrors (foreignKeyShape path j) := by
  simp [foreignKeyShape]

theorem allErrors_tableShape (path : Path) (j : Json) : AllErrors (tableShape path j) := by
  simp [tableShape, allErrors_partsShape, allErrors_columnShape, allErrors_foreignKeyShape]

/-- Everything that is wrong with the shape of a document is an error. -/
theorem allErrors_shapeIssues (j : Json) : AllErrors (shapeIssues j) := by
  apply allErrors_objectShape
  have hschema (path : Path) (item : Json) : AllErrors (schemaShape path item) :=
    allErrors_stringFields path item _
  simp [allErrors_partsShape, hschema, allErrors_typeShape, allErrors_tableShape]

end Errors

end SchemaDdl.Check
