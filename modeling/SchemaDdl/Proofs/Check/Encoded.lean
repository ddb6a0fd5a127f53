import SchemaDdl.Proofs.Check.Decodable
import SchemaDdl.Proofs.Document.RoundTrip

/-!
# Checking the JSON form of a model

The JSON form of any model is of sound shape and nested a few levels deep. So it has a canonical
form, which is decoded as the model and is checked as the model is.
-/

namespace SchemaDdl

/-! ## Nesting -/

namespace Json

/-- A value all of which is readable, with no more than `n` arrays and objects inside each other. -/
inductive NestedWithin : Nat → Json → Prop where
  | null {n : Nat} : NestedWithin n .null
  | bool {n : Nat} (b : Bool) : NestedWithin n (.bool b)
  | number {n : Nat} (x : Decimal.Number) : NestedWithin n (.number x)
  | string {n : Nat} (s : String) : NestedWithin n (.string s)
  | array {n : Nat} {items : List Json} (h : ∀ j ∈ items, NestedWithin n j) :
    NestedWithin (n + 1) (.array items)
  | object {n : Nat} {members : List (String × Json)} (h : ∀ m ∈ members, NestedWithin n m.2) :
    NestedWithin (n + 1) (.object members)

attribute [simp] NestedWithin.null NestedWithin.bool NestedWithin.number NestedWithin.string

section Nesting

variable {n : Nat}

theorem depthItems_le {items : List Json} (h : ∀ j ∈ items, j.depth ≤ n) : depthItems items ≤ n := by
  induction items with
  | nil => exact Nat.zero_le n
  | cons j js ih =>
    obtain ⟨hj, hjs⟩ := List.forall_mem_cons.1 h
    exact Nat.max_le.2 ⟨hj, ih hjs⟩

theorem depthMembers_le {ms : List (String × Json)} (h : ∀ m ∈ ms, m.2.depth ≤ n) :
    depthMembers ms ≤ n := by
  induction ms with
  | nil => exact Nat.zero_le n
  | cons m ms ih =>
    obtain ⟨hm, hms⟩ := List.forall_mem_cons.1 h
    exact Nat.max_le.2 ⟨hm, ih hms⟩

theorem NestedWithin.depth_le {j : Json} (h : NestedWithin n j) : j.depth ≤ n := by
  induction h with
  | array _ ih => exact Nat.succ_le_succ (depthItems_le ih)
  | object _ ih => exact Nat.succ_le_succ (depthMembers_le ih)
  | _ => exact Nat.zero_le _

theorem NestedWithin.exists_reduces {j : Json} (h : NestedWithin n j) : ∃ c, j.Reduces c := by
  induction h with
  | array _ ih => exact exists_reduces_array ih
  | object _ ih => exact exists_reduces_object ih
  | _ => exact ⟨_, rfl⟩

theorem nestedWithin_map {α : Type} {encode : α → Json} (h : ∀ a, NestedWithin n (encode a))
    (as : List α) : NestedWithin (n + 1) (.array (as.map encode)) := by
  apply NestedWithin.array
  rw [List.forall_mem_map]
  exact fun a _ => h a

end Nesting

end Json

open Json Check

section Encoding

variable {n : Nat}

theorem Schema.nestedWithin (s : Schema) : NestedWithin (n + 1) s.toJson := by
  apply NestedWithin.object
  simp

theorem Column.nestedWithin (c : Column) : NestedWithin (n + 1) c.toJson := by
  apply NestedWithin.object
  simp only [List.forall_mem_append, forall_mem_optional]
  simp

theorem ForeignKey.nestedWithin (fk : ForeignKey) : NestedWithin (n + 1) fk.toJson := by
  apply NestedWithin.object
  simp only [List.forall_mem_append, forall_mem_optional]
  simp [Action.toJson, Cardinality.toJson]

theorem Position.nestedWithin (p : Position) : NestedWithin (n + 1) p.toJson := by
  apply NestedWithin.object
  simp

theorem EnumType.nestedWithin (t : EnumType) : NestedWithin (n + 2) t.toJson := by
  have hvalues : NestedWithin (n + 1) (.array (t.values.map .string)) :=
    nestedWithin_map .string t.values
  apply NestedWithin.object
  simp [hvalues]

theorem Table.nestedWithin (t : Table) : NestedWithin (n + 3) t.toJson := by
  have hcolumns : NestedWithin (n + 2) (.array (t.columns.map Column.toJson)) :=
    nestedWithin_map Column.nestedWithin t.columns
  have hforeign : NestedWithin (n + 2) (.array (t.foreignKeys.map ForeignKey.toJson)) :=
    nestedWithin_map ForeignKey.nestedWithin t.foreignKeys
  have hposition (p : Position) : NestedWithin (n + 2) p.toJson := p.nestedWithin
  apply NestedWithin.object
  simp only [List.forall_mem_append, forall_mem_optional]
  simp [hcolumns, hforeign, hposition]

theorem Model.nestedWithin (m : Model) : NestedWithin 5 m.toJson := by
  have hschemas : NestedWithin 4 (.array (m.schemas.map Schema.toJson)) :=
    nestedWithin_map Schema.nestedWithin m.schemas
  have htables : NestedWithin 4 (.array (m.tables.map Table.toJson)) :=
    nestedWithin_map Table.nestedWithin m.tables
  have htypes : NestedWithin 4 (.array (m.types.map EnumType.toJson)) :=
    nestedWithin_map EnumType.nestedWithin m.types
  apply NestedWithin.object
  simp [hschemas, htables, htypes]

end Encoding

/-! ## Shape -/

theorem Schema.sound (s : Schema) : SoundSchema s.toJson where
  isObject := rfl
  strings := by simp [toJson, List.lookup_cons]

theorem Column.sound (c : Column) : SoundColumn c.toJson where
  isObject := rfl
  strings := by simp [toJson, List.lookup_append, List.lookup_cons, lookup_optional]
  flags := by simp [toJson, List.lookup_append, List.lookup_cons, lookup_optional]
  texts := by simp [toJson, List.lookup_append, List.lookup_cons, lookup_optional, NullOr]

theorem Action.isAction (a : Action) : IsAction a.toJson :=
  ⟨a, rfl⟩

theorem Cardinality.isString (c : Cardinality) : IsString c.toJson :=
  ⟨c.label, rfl⟩

theorem ForeignKey.sound (fk : ForeignKey) : SoundForeignKey fk.toJson where
  isObject := rfl
  strings := by simp [toJson, List.lookup_append, List.lookup_cons, lookup_optional]
  actions := by
    simp [toJson, List.lookup_append, List.lookup_cons, lookup_optional, NullOr, Action.isAction]
  labels := by
    simp [toJson, List.lookup_append, List.lookup_cons, lookup_optional, NullOr,
      Cardinality.isString]

theorem Position.sound (p : Position) : SoundPosition p.toJson where
  numbers := by simp [toJson, List.lookup_cons, IsNumber]

theorem EnumType.sound (t : EnumType) : SoundType t.toJson where
  isObject := rfl
  strings := by simp [toJson, List.lookup_cons]
  kind := by simp [toJson, List.lookup_cons]
  values := by simp [toJson, List.lookup_cons, arrayOf_map isString_string]

theorem Table.sound (t : Table) : SoundTable t.toJson where
  isObject := rfl
  strings := by simp [toJson, List.lookup_append, List.lookup_cons, lookup_optional]
  comment := by simp [toJson, List.lookup_append, List.lookup_cons, lookup_optional, NullOr]
  position := by
    simp [toJson, List.lookup_append, List.lookup_cons, lookup_optional, NullOr, Position.sound]
  columns := by
    simp [toJson, List.lookup_append, List.lookup_cons, lookup_optional, arrayOf_map Column.sound]
  foreignKeys := by
    simp [toJson, List.lookup_append, List.lookup_cons, lookup_optional,
      arrayOf_map ForeignKey.sound]

/-- The JSON form of a model is laid out as a model. -/
theorem Model.sound (m : Model) : SoundModel m.toJson where
  isObject := rfl
  version := by simp [toJson, IsVersion]
  schemas := by simp [toJson, List.lookup_cons, arrayOf_map Schema.sound]
  types := by simp [toJson, List.lookup_cons, arrayOf_map EnumType.sound]
  tables := by simp [toJson, List.lookup_cons, arrayOf_map Table.sound]

/-! ## Checking -/

/-- The canonical form of what a model is encoded as is of sound shape, and is decoded as the
model. -/
theorem Model.exists_canonical (m : Model) :
    ∃ v, m.toJson.Reduces v ∧ SoundModel v ∧ Model.ofJson? v = some m := by
  obtain ⟨v, hv⟩ := m.nestedWithin.exists_reduces
  have hdecode := m.ofJson?_toJson
  have honce := Model.fieldsOnce_of_ofJson? hdecode
  have hsound := m.sound.reduced hv honce
  have hversion : writtenVersion v ≤ largestVersion := by
    rw [writtenVersion_reduced hv honce.own m.sound.version]
    exact writtenVersion_le hdecode
  obtain ⟨a, hleft, hright⟩ := Model.agree hv hsound honce hversion
  obtain rfl := Option.some.inj (hleft.symm.trans hdecode)
  exact ⟨v, hv, hsound, hright⟩

namespace Model

/-- A model is encoded as a value that is checked as the model is, whatever is wrong with it. -/
theorem validateDocument_encoded {m : Model}
    (hfinite : ∀ f ∈ m.coordinates, f.isFinite = true) :
    ∃ v, m.toJson.canonical? = some v ∧ shapeIssues v = [] ∧ Model.ofJson? v = some m ∧
      validateDocument v = validate m ∧
      ((∀ f ∈ m.coordinates, Decimal.ReadsBack f) →
        Json.parseCanonical? m.toDocument = some v) := by
  obtain ⟨v, hv, hsound, hdecode⟩ := m.exists_canonical
  have hshape := shapeIssues_eq_nil.2 hsound
  refine ⟨v, hv, hshape, hdecode, ?_, fun hback => ?_⟩
  · rw [validateDocument_of_sound hshape, hdecode]
  · have hdepth : m.toJson.depth ≤ depthLimit :=
      Nat.le_trans m.nestedWithin.depth_le (by decide)
    rw [toDocument, Json.parseCanonical?_pretty (Model.printable hfinite hback) hdepth]
    exact hv

/-- A model with errors of several kinds, and with a table that has a place. -/
def defective : Model :=
  { placed with
    version := 7
    schemas := [⟨"", "a"⟩, ⟨"s", "a"⟩]
    types := [⟨"e", "gone", " ", []⟩] }

theorem validateDocument_encoded_defective :
    hasErrors (validate defective) = true ∧ (∀ f ∈ defective.coordinates, f.isFinite = true) ∧
      ∃ v, defective.toJson.canonical? = some v ∧ shapeIssues v = [] ∧
        Model.ofJson? v = some defective ∧ validateDocument v = validate defective ∧
        Json.parseCanonical? defective.toDocument = some v := by
  have herrors : hasErrors (validate defective) = true := by decide +kernel
  have hfinite : ∀ f ∈ defective.coordinates, f.isFinite = true := by decide +kernel
  have hback : ∀ f ∈ defective.coordinates, Decimal.ReadsBack f := by decide +kernel
  obtain ⟨v, hv, hshape, hdecode, hvalidate, htext⟩ := validateDocument_encoded hfinite
  exact ⟨herrors, hfinite, v, hv, hshape, hdecode, hvalidate, htext hback⟩

end Model

end SchemaDdl
