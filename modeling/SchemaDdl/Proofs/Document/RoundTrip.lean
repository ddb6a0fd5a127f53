import SchemaDdl.Check.Structure
import SchemaDdl.Proofs.Document.Coordinates
import SchemaDdl.Proofs.Document.Fields
import SchemaDdl.Proofs.Json.RoundTrip
import SchemaDdl.Proofs.Text.Names

/-!
# Documents read back

The document of a model is read back as the model with normalized foreign-key names, provided that
the coordinates of its tables are finite and read back as they are. Normalizing changes nothing the
second time, so that a model that comes from a document is read back as it is.
-/

namespace SchemaDdl

/-! ## Normalized names -/

namespace ForeignKey

theorem map_name_withFreshNames (used : List String) (fks : List ForeignKey) :
    (withFreshNames used fks).map ForeignKey.name =
      Naming.inTurn Naming.ensureUnique used (fks.map Check.sanitizedName) := by
  induction fks generalizing used with
  | nil => rfl
  | cons fk fks ih =>
    rw [withFreshNames, List.map_cons, List.map_cons, Naming.inTurn, ih]
    rfl

theorem name_mem_inTurn {used : List String} {fks : List ForeignKey} {fk : ForeignKey}
    (h : fk ∈ withFreshNames used fks) :
    fk.name ∈ Naming.inTurn Naming.ensureUnique used (fks.map Check.sanitizedName) := by
  rw [← map_name_withFreshNames]
  exact List.mem_map_of_mem h

theorem clean_of_mem_withFreshNames {used : List String} {fks : List ForeignKey} {fk : ForeignKey}
    (h : fk ∈ withFreshNames used fks) : Naming.Clean fk.name := by
  refine Naming.clean_of_mem_inTurn (fun base hbase => ?_) (name_mem_inTurn h)
  obtain ⟨fk', -, rfl⟩ := List.mem_map.1 hbase
  exact Naming.clean_sanitize _ _

theorem notMem_of_mem_withFreshNames {used : List String} {fks : List ForeignKey} {fk : ForeignKey}
    (h : fk ∈ withFreshNames used fks) : fk.name ∉ used :=
  (Naming.apart_inTurn Naming.ensureUnique_notMem used _).free fk.name (name_mem_inTurn h)

theorem nodup_withFreshNames (used : List String) (fks : List ForeignKey) :
    ((withFreshNames used fks).map ForeignKey.name).Nodup := by
  rw [map_name_withFreshNames]
  exact (Naming.apart_inTurn Naming.ensureUnique_notMem used _).distinct

/-- Names that sanitizing keeps apart need no numbers. -/
theorem withFreshNames_eq_map {used : List String} {fks : List ForeignKey}
    (hfree : ∀ fk ∈ fks, Check.sanitizedName fk ∉ used)
    (hnodup : (fks.map Check.sanitizedName).Nodup) :
    withFreshNames used fks = fks.map fun fk => { fk with name := Check.sanitizedName fk } := by
  induction fks generalizing used with
  | nil => rfl
  | cons fk fks ih =>
    rw [List.map_cons, List.nodup_cons] at hnodup
    have hname : Naming.ensureUnique (Naming.sanitize fk.name (fallbackName fk.id)) used =
        Check.sanitizedName fk :=
      Naming.ensureUnique_of_free (hfree fk List.mem_cons_self)
    rw [withFreshNames, hname, List.map_cons, ih _ hnodup.2]
    intro fk' h
    rw [List.mem_cons, not_or]
    refine ⟨fun heq => hnodup.1 ?_, hfree fk' (List.mem_cons_of_mem fk h)⟩
    exact heq ▸ List.mem_map_of_mem h

/-- Names that are clean, free and told apart stay when they are made fresh. -/
theorem withFreshNames_eq_self {used : List String} {fks : List ForeignKey}
    (hclean : ∀ fk ∈ fks, Naming.Clean fk.name) (hfree : ∀ fk ∈ fks, fk.name ∉ used)
    (hnodup : (fks.map ForeignKey.name).Nodup) : withFreshNames used fks = fks := by
  have hname (fk : ForeignKey) (hfk : fk ∈ fks) : Check.sanitizedName fk = fk.name :=
    (hclean fk hfk).sanitize_eq _
  rw [withFreshNames_eq_map]
  · refine (List.map_congr_left fun fk hfk => ?_).trans (List.map_id fks)
    rw [hname fk hfk]
    rfl
  · intro fk hfk
    rw [hname fk hfk]
    exact hfree fk hfk
  · rwa [List.map_congr_left hname]

theorem withFreshNames_idem (used : List String) (fks : List ForeignKey) :
    withFreshNames used (withFreshNames used fks) = withFreshNames used fks :=
  withFreshNames_eq_self (fun _ h => clean_of_mem_withFreshNames h)
    (fun _ h => notMem_of_mem_withFreshNames h) (nodup_withFreshNames used fks)

end ForeignKey

namespace Model

theorem normalized_idem (m : Model) : m.normalized.normalized = m.normalized := by
  simp [normalized, ForeignKey.withFreshNames_idem]

/-! ## Documents -/

theorem decode?_toDocument {m : Model} (h : m.toJson.Printable) : decode? m.toDocument = some m := by
  rw [decode?, toDocument, Json.parse?_pretty h, Option.bind_eq_bind, Option.bind_some,
    ofJson?_toJson]

theorem decode?_toFile {m : Model} (h : m.toJson.Printable) : decode? m.toFile = some m := by
  rw [decode?, toFile, toDocument, Json.parse?_pretty_newLine h, Option.bind_eq_bind,
    Option.bind_some, ofJson?_toJson]

theorem ofDocument_eq_ok_iff {text : String} {m : Model} :
    ofDocument text = .ok m ↔
      ∃ d, decode? text = some d ∧ d.version = currentVersion ∧ d.normalized = m := by
  rw [ofDocument]
  cases decode? text with
  | none => simp
  | some d =>
    by_cases hversion : d.version = currentVersion <;> simp [hversion]

/-- A document is read back as the normalized model. A model that comes from any text has finite
coordinates, and its document and the text of its file are read back as that model. -/
theorem ofDocument_toDocument :
    (∀ m : Model, m.version = currentVersion → (∀ f ∈ m.coordinates, f.isFinite = true) →
      (∀ f ∈ m.coordinates, Decimal.ReadsBack f) → ofDocument m.toDocument = .ok m.normalized) ∧
    ∀ (text : String) (m : Model), ofDocument text = .ok m →
      (∀ f ∈ m.coordinates, Decimal.ReadsBack f) →
      ofDocument m.toDocument = .ok m ∧
        (ofDocument m.toDocument).map toDocument = .ok m.toDocument ∧
        ofDocument m.toFile = .ok m := by
  constructor
  · intro m hversion hfinite hback
    rw [ofDocument_eq_ok_iff]
    exact ⟨m, decode?_toDocument (printable hfinite hback), hversion, rfl⟩
  · intro text m h hback
    obtain ⟨d, hdecode, -, rfl⟩ := ofDocument_eq_ok_iff.1 h
    have hfinite : ∀ f ∈ d.normalized.coordinates, f.isFinite = true := by
      rw [coordinates_normalized]
      exact isFinite_of_decode? hdecode
    have hprintable := printable hfinite hback
    have hdocument : ofDocument d.normalized.toDocument = .ok d.normalized :=
      ofDocument_eq_ok_iff.2 ⟨_, decode?_toDocument hprintable, rfl, d.normalized_idem⟩
    have hfile : ofDocument d.normalized.toFile = .ok d.normalized :=
      ofDocument_eq_ok_iff.2 ⟨_, decode?_toFile hprintable, rfl, d.normalized_idem⟩
    exact ⟨hdocument, by rw [hdocument]; rfl, hfile⟩

/-- A table with a place, optional fields set and left out, and a name with characters that are
escaped. -/
def placed : Model where
  version := currentVersion
  schemas := [⟨"s", "public"⟩]
  tables := [{
    id := "t"
    schemaId := "s"
    name := "a \"b\" \\ \n \x01 𝄞"
    columns := [{ id := "c", name := "a", type := "int", defaultValue := some "1" }]
    foreignKeys := [
      { id := "f", name := "Self Ref", fromColumnId := "c", toTableId := "t", toColumnId := "c",
        onDelete := some .cascade, endCardinality := some .many }]
    position := some ⟨1.5, -0.25⟩ }]
  types := [⟨"e", "s", "mood", ["sad", "happy"]⟩]

theorem ofDocument_toDocument_placed :
    (∀ f ∈ placed.coordinates, f.isFinite = true) ∧
      (∀ f ∈ placed.coordinates, Decimal.ReadsBack f) ∧
      ofDocument placed.toDocument = .ok placed.normalized ∧
      ofDocument placed.normalized.toDocument = .ok placed.normalized ∧
      ofDocument placed.normalized.toFile = .ok placed.normalized := by
  have hfinite : ∀ f ∈ placed.coordinates, f.isFinite = true := by decide +kernel
  have hback : ∀ f ∈ placed.coordinates, Decimal.ReadsBack f := by decide +kernel
  have hfirst := ofDocument_toDocument.1 placed rfl hfinite hback
  have hagain := ofDocument_toDocument.2 placed.toDocument placed.normalized hfirst (by
    rw [coordinates_normalized]
    exact hback)
  exact ⟨hfinite, hback, hfirst, hagain.1, hagain.2.2⟩

end Model

end SchemaDdl
