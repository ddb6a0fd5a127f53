import SchemaDdl.Document.Text
import SchemaDdl.Proofs.Decimal.Finite
import SchemaDdl.Proofs.Document.Fields
import SchemaDdl.Proofs.Json.Lexing
import SchemaDdl.Proofs.Json.Numbers

/-!
# Coordinates in documents

The coordinates of the tables are the only numbers in a document beside its version. The document of
a model can be printed and read back if its coordinates can. Coordinates that come from a document
are finite.
-/

namespace SchemaDdl

open Json

/-- The coordinates of a table that has a place on the diagram. -/
def Table.coordinates (t : Table) : List Float :=
  t.position.toList.flatMap fun p => [p.x, p.y]

/-- The coordinates of the tables that have a place on the diagram. -/
def Model.coordinates (m : Model) : List Float :=
  m.tables.flatMap Table.coordinates

theorem Model.coordinates_normalized (m : Model) : m.normalized.coordinates = m.coordinates := by
  rw [coordinates, coordinates, normalized, List.flatMap_map]
  rfl

/-! ## Printing -/

section

variable {α : Type} {encode : α → Json}

theorem printable_map {as : List α} (h : ∀ a ∈ as, Printable (encode a)) :
    Printable (.array (as.map encode)) := by
  apply Printable.array
  rwa [List.forall_mem_map]

end

theorem Schema.printable (s : Schema) : s.toJson.Printable := by
  apply Printable.object
  simp [Printable.string]

theorem Column.printable (c : Column) : c.toJson.Printable := by
  apply Printable.object
  simp only [List.forall_mem_append, forall_mem_optional]
  simp [Printable.string, Printable.bool]

theorem ForeignKey.printable (fk : ForeignKey) : fk.toJson.Printable := by
  apply Printable.object
  simp only [List.forall_mem_append, forall_mem_optional]
  simp [Printable.string, Action.toJson, Cardinality.toJson]

theorem EnumType.printable (t : EnumType) : t.toJson.Printable := by
  have hvalues : Printable (.array (t.values.map .string)) := printable_map fun v _ => .string v
  apply Printable.object
  simp [Printable.string, hvalues]

theorem Table.printable {t : Table} (hfinite : ∀ f ∈ t.coordinates, f.isFinite = true)
    (hback : ∀ f ∈ t.coordinates, Decimal.ReadsBack f) : t.toJson.Printable := by
  have hcolumns : Printable (.array (t.columns.map Column.toJson)) :=
    printable_map fun c _ => c.printable
  have hforeign : Printable (.array (t.foreignKeys.map ForeignKey.toJson)) :=
    printable_map fun fk _ => fk.printable
  have hposition (p : Position) (hp : t.position = some p) : p.toJson.Printable := by
    have hcoordinates : t.coordinates = [p.x, p.y] := by rw [coordinates, hp]; rfl
    have hnumber {f : Float} (hf : f ∈ t.coordinates) : Printable (.number (.float f)) :=
      .number (Decimal.ofChars?_float (hfinite f hf) (hback f hf))
    rw [hcoordinates] at hnumber
    apply Printable.object
    simp [hnumber]
  apply Printable.object
  simp only [List.forall_mem_append, forall_mem_optional]
  simpa [Printable.string, hcolumns, hforeign] using hposition

theorem Model.printable {m : Model} (hfinite : ∀ f ∈ m.coordinates, f.isFinite = true)
    (hback : ∀ f ∈ m.coordinates, Decimal.ReadsBack f) : m.toJson.Printable := by
  have hmem {t : Table} (ht : t ∈ m.tables) {f : Float} (hf : f ∈ t.coordinates) :
      f ∈ m.coordinates := List.mem_flatMap.2 ⟨t, ht, hf⟩
  have hversion : Printable (.number (.int m.version.toNat)) := by
    have hlt := m.version.toNat_lt
    exact .number (Decimal.ofChars?_int (by omega) (by omega))
  have hschemas : Printable (.array (m.schemas.map Schema.toJson)) :=
    printable_map fun s _ => s.printable
  have htables : Printable (.array (m.tables.map Table.toJson)) :=
    printable_map fun t ht => Table.printable (fun f hf => hfinite f (hmem ht hf))
      fun f hf => hback f (hmem ht hf)
  have htypes : Printable (.array (m.types.map EnumType.toJson)) :=
    printable_map fun t _ => t.printable
  apply Printable.object
  simp [hversion, hschemas, htables, htypes]

theorem Model.printable_of_coordinates {m : Model} (h : m.coordinates = []) : m.toJson.Printable := by
  apply Model.printable <;> simp [h]

/-! ## Decoding -/

theorem mem_of_lookup {fields : Fields} {name : String} {j : Json}
    (h : fields.lookup name = some j) : (name, j) ∈ fields := by
  obtain ⟨before, behind, rfl, -⟩ := List.lookup_eq_some_iff.1 h
  simp

section

variable {α : Type} {decode : Json → Option α} {fields : Fields} {name : String}

theorem exists_of_required {a : α} (h : required decode fields name = some a) :
    ∃ j, (name, j) ∈ fields ∧ decode j = some a := by
  rw [required, Option.bind_eq_bind, Option.bind_eq_some_iff] at h
  obtain ⟨j, hj, ha⟩ := h
  exact ⟨j, mem_of_lookup hj, ha⟩

theorem exists_of_optionalField {a : α} (h : optionalField decode fields name = some (some a)) :
    ∃ j, (name, j) ∈ fields ∧ decode j = some a := by
  rw [optionalField] at h
  split at h
  · cases h
  · cases h
  · rename_i j _ hj
    obtain ⟨b, hb, heq⟩ := Option.map_eq_some_iff.1 h
    obtain rfl := Option.some.inj heq
    exact ⟨j, mem_of_lookup hj, hb⟩

theorem exists_of_listOf {j : Json} {as : List α} (h : listOf decode j = some as) {a : α}
    (ha : a ∈ as) : ∃ items i, j = .array items ∧ i ∈ items ∧ decode i = some a := by
  rw [listOf, Option.bind_eq_bind, Option.bind_eq_some_iff] at h
  obtain ⟨items, hitems, hdecode⟩ := h
  cases j with
  | array is =>
    obtain rfl := Option.some.inj hitems
    obtain ⟨i, hi, hia⟩ := exists_of_mem_mapM hdecode ha
    exact ⟨is, i, rfl, hi, hia⟩
  | _ => cases hitems

theorem exists_of_defaulted {a b : α} (h : defaulted decode fields name b = some a) (hne : a ≠ b) :
    ∃ j, (name, j) ∈ fields ∧ decode j = some a := by
  rw [defaulted] at h
  split at h
  · exact absurd (Option.some.inj h).symm hne
  · rename_i j hj
    exact ⟨j, mem_of_lookup hj, h⟩

end

theorem mem_of_soleMember? {members : List (String × Json)} {key : String} {found : Fields}
    (h : soleMember? members key = some found) {m : String × Json} (hm : m ∈ found) :
    m ∈ members := by
  rw [soleMember?] at h
  split at h
  · obtain rfl := Option.some.inj h
    cases hm
  · rename_i n hn
    obtain rfl := Option.some.inj h
    rw [← hn] at hm
    exact (List.mem_filter.1 hm).1
  · cases h

theorem everyNumber_of_fields? {p : Decimal.Number → Prop} {names : List String} {j : Json}
    {fields : Fields} (hj : EveryNumber p j) (h : fields? names j = some fields) :
    ∀ m ∈ fields, EveryNumber p m.2 := by
  intro m hm
  cases hj with
  | array hitems =>
    rw [fields?] at h
    split at h
    · obtain rfl := Option.some.inj h
      exact hitems m.2 (List.of_mem_zip hm).2
    · cases h
  | @object members hmembers =>
    rw [fields?] at h
    obtain ⟨groups, hgroups, rfl⟩ := Option.map_eq_some_iff.1 h
    obtain ⟨group, hgroup, hmgroup⟩ := List.mem_flatten.1 hm
    obtain ⟨name, -, hname⟩ := exists_of_mem_mapM hgroups hgroup
    exact hmembers m (mem_of_soleMember? hname hmgroup)
  | _ => cases h

/-- A value whose numbers are finite. -/
def FiniteNumbers (j : Json) : Prop :=
  EveryNumber (fun n => n.toFloat.isFinite = true) j

theorem isFinite_of_float? {j : Json} {f : Float} (hj : FiniteNumbers j) (h : float? j = some f) :
    f.isFinite = true := by
  cases hj with
  | number hn =>
    obtain rfl := Option.some.inj h
    exact hn
  | _ => cases h

theorem Position.isFinite {j : Json} {p : Position} (hj : FiniteNumbers j)
    (h : Position.ofJson? j = some p) : p.x.isFinite = true ∧ p.y.isFinite = true := by
  simp only [Position.ofJson?, Option.bind_eq_bind, Option.bind_eq_some_iff, Option.pure_def,
    Option.some.injEq] at h
  obtain ⟨fields, hfields, x, hx, y, hy, rfl⟩ := h
  have hfinite := everyNumber_of_fields? hj hfields
  obtain ⟨i, hi, hx⟩ := exists_of_required hx
  obtain ⟨k, hk, hy⟩ := exists_of_required hy
  exact ⟨isFinite_of_float? (hfinite _ hi) hx, isFinite_of_float? (hfinite _ hk) hy⟩

theorem Table.isFinite {j : Json} {t : Table} (hj : FiniteNumbers j)
    (h : Table.ofJson? j = some t) : ∀ f ∈ t.coordinates, f.isFinite = true := by
  simp only [Table.ofJson?, Option.bind_eq_bind, Option.bind_eq_some_iff, Option.pure_def,
    Option.some.injEq] at h
  obtain ⟨fields, hfields, _, _, _, _, _, _, _, _, _, _, _, _, position, hposition, rfl⟩ := h
  intro f hf
  cases position with
  | none => cases hf
  | some p =>
    obtain ⟨i, hi, hp⟩ := exists_of_optionalField hposition
    obtain ⟨hx, hy⟩ := Position.isFinite (everyNumber_of_fields? hj hfields _ hi) hp
    have hmem : f ∈ [p.x, p.y] := by simpa [coordinates] using hf
    simp only [List.mem_cons, List.not_mem_nil, or_false] at hmem
    rcases hmem with rfl | rfl
    · exact hx
    · exact hy

theorem Model.isFinite {j : Json} {m : Model} (hj : FiniteNumbers j)
    (h : Model.ofJson? j = some m) : ∀ f ∈ m.coordinates, f.isFinite = true := by
  simp only [Model.ofJson?, Option.bind_eq_bind, Option.bind_eq_some_iff, Option.pure_def,
    Option.some.injEq] at h
  obtain ⟨fields, hfields, _, _, _, _, tables, htables, _, _, rfl⟩ := h
  intro f hf
  obtain ⟨t, ht, hf⟩ := List.mem_flatMap.1 hf
  obtain ⟨i, hi, hlist⟩ := exists_of_defaulted htables (List.ne_nil_of_mem ht)
  obtain ⟨items, k, rfl, hk, hdecode⟩ := exists_of_listOf hlist ht
  cases everyNumber_of_fields? hj hfields _ hi with
  | array hitems => exact Table.isFinite (hitems k hk) hdecode f hf

/-- The coordinates that a text gives are finite. -/
theorem Model.isFinite_of_decode? {text : String} {m : Model} (h : decode? text = some m) :
    ∀ f ∈ m.coordinates, f.isFinite = true := by
  rw [decode?, Option.bind_eq_bind, Option.bind_eq_some_iff] at h
  obtain ⟨j, hj, hm⟩ := h
  exact Model.isFinite (everyNumber_of_parse? (fun _ _ => Decimal.isFinite_of_ofText?) hj) hm

end SchemaDdl
