import SchemaDdl.Proofs.Check.Decodable
import SchemaDdl.Proofs.Document.RoundTrip

/-!
# Documents checked without errors

A document is checked as an untyped value, in which the last of several members with one key counts,
and is loaded field by field. So a document without errors is loaded, as the model that was checked,
if and only if none of its fields is repeated.
-/

namespace SchemaDdl

open Json Check

/-! ## Documents without errors -/

section Checked

variable {c : Json} (h : hasErrors (validateDocument c) = false)

include h

theorem shapeIssues_eq_nil_of_checked : shapeIssues c = [] := by
  by_contra hne
  obtain ⟨i, hi⟩ := List.exists_mem_of_ne_nil _ hne
  rw [validateDocument, if_pos (by simpa using hne), hasErrors, List.any_eq_false] at h
  exact h i hi (allErrors_shapeIssues c i hi)

/-- A document without errors is a model without errors. -/
theorem exists_model_of_checked :
    ∃ d, Model.ofJson? c = some d ∧ hasErrors (validate d) = false := by
  rw [validateDocument_of_sound (shapeIssues_eq_nil_of_checked h)] at h
  cases hd : Model.ofJson? c with
  | none =>
    rw [hd] at h
    cases h
  | some d =>
    rw [hd] at h
    exact ⟨d, rfl, h⟩

end Checked

namespace Model

/-- If its canonical form is decoded, then a document is decoded as the same, unless it repeats a
field. -/
theorem ofJson?_eq_some_iff_of_reduces {j c : Json} {d m : Model} (hreduces : j.Reduces c)
    (hsound : SoundModel c) (hd : Model.ofJson? c = some d) :
    Model.ofJson? j = some m ↔ Model.FieldsOnce j ∧ d = m := by
  have hdecode (honce : Model.FieldsOnce j) : Model.ofJson? j = some d := by
    obtain ⟨a, hja, hca⟩ := Model.agree hreduces hsound honce (writtenVersion_le hd)
    rwa [← Option.some.inj (hca.symm.trans hd)]
  constructor
  · intro hm
    have honce := Model.fieldsOnce_of_ofJson? hm
    exact ⟨honce, Option.some.inj ((hdecode honce).symm.trans hm)⟩
  · rintro ⟨honce, rfl⟩
    exact hdecode honce

theorem ofDocument_eq_ok_iff_of_reduces {text : String} {j c : Json} {d m : Model}
    (hj : Json.parse? text = some j) (hreduces : j.Reduces c) (hsound : SoundModel c)
    (hd : Model.ofJson? c = some d) (hversion : d.version = currentVersion) :
    ofDocument text = .ok m ↔ Model.FieldsOnce j ∧ d.normalized = m := by
  rw [ofDocument_eq_ok_iff, decode?, hj, Option.bind_eq_bind, Option.bind_some]
  simp only [ofJson?_eq_some_iff_of_reduces hreduces hsound hd]
  constructor
  · rintro ⟨_, ⟨honce, rfl⟩, -, hm⟩
    exact ⟨honce, hm⟩
  · rintro ⟨honce, hm⟩
    exact ⟨d, ⟨honce, rfl⟩, hversion, hm⟩

/-- A text that is checked without errors is loaded as the model that was checked, if and only if no
field is repeated. -/
theorem loads_of_checked {text : String} {c : Json} (hc : Json.parseCanonical? text = some c)
    (hcheck : hasErrors (validateDocument c) = false) :
    ∃ j d, Json.parse? text = some j ∧ Model.ofJson? c = some d ∧
      hasErrors (validate d) = false ∧
      (∀ m, ofDocument text = .ok m ↔ Model.FieldsOnce j ∧ d.normalized = m) ∧
      (j.DistinctKeys → ofDocument text = .ok d.normalized) := by
  rw [Json.parseCanonical?, Option.bind_eq_bind, Option.bind_eq_some_iff] at hc
  obtain ⟨j, hj, hcanonical⟩ := hc
  have hreduces : j.Reduces c := by
    split at hcanonical
    · exact hcanonical
    · cases hcanonical
  obtain ⟨d, hd, hfaultless⟩ := exists_model_of_checked hcheck
  have hsound := shapeIssues_eq_nil.1 (shapeIssues_eq_nil_of_checked hcheck)
  have hversion := version_eq_currentVersion hfaultless
  have hloads (m : Model) := ofDocument_eq_ok_iff_of_reduces (m := m) hj hreduces hsound hd hversion
  refine ⟨j, d, hj, hd, hfaultless, hloads, fun hkeys => ?_⟩
  exact (hloads _).2 ⟨.of_distinctKeys hkeys, rfl⟩

/-- A document in which one member stands twice. -/
def repeating (key : String) : Json :=
  .object [
    ("version", .number (.int 1)), (key, .number (.int 1)), ("schemas", .array []),
    (key, .number (.int 1))]

theorem printable_repeating (key : String) : (repeating key).Printable := by
  have hone : (Json.number (.int 1)).Printable :=
    .number (Decimal.ofChars?_int (by decide) (by decide))
  have hnone : (Json.array []).Printable := .array (List.forall_mem_nil _)
  apply Json.Printable.object
  simp [hone, hnone]

theorem parseCanonical?_repeating (key : String) :
    Json.parseCanonical? (repeating key).pretty = (repeating key).canonical? := by
  have hdepth : (repeating key).depth = 2 := rfl
  exact Json.parseCanonical?_pretty (printable_repeating key) (hdepth ▸ by decide)

theorem fieldsOnce_repeating_note : Model.FieldsOnce (repeating "note") where
  own := by decide
  schemas := by
    intro v hv items h
    have hnone : Json.array [] = .array items := (Option.some.inj hv).trans h
    cases hnone
    exact List.forall_mem_nil _
  tables := nofun
  types := nofun

/-- What is no field may be repeated. -/
theorem loads_of_checked_note : ∃ c d,
    Json.parseCanonical? (repeating "note").pretty = some c ∧
      hasErrors (validateDocument c) = false ∧ ofDocument (repeating "note").pretty = .ok d := by
  have hc : Json.parseCanonical? (repeating "note").pretty = some
      (.object [("note", .number (.int 1)), ("schemas", .array []), ("version", .number (.int 1))]) :=
    parseCanonical?_repeating "note"
  have hcheck : hasErrors (validateDocument (.object
      [("note", .number (.int 1)), ("schemas", .array []), ("version", .number (.int 1))])) = false := by
    decide +kernel
  obtain ⟨j, d, hj, -, -, hloads, -⟩ := loads_of_checked hc hcheck
  have hsame := hj.symm.trans (Json.parse?_pretty (printable_repeating "note"))
  refine ⟨_, d.normalized, hc, hcheck, (hloads _).2 ⟨?_, rfl⟩⟩
  rw [Option.some.inj hsame]
  exact fieldsOnce_repeating_note

/-- A document that repeats a field is not loaded, though there are no errors in it. -/
theorem not_loaded_of_repeated_field : ∃ c,
    Json.parseCanonical? (repeating "version").pretty = some c ∧
      hasErrors (validateDocument c) = false ∧
      ofDocument (repeating "version").pretty = .error .invalid := by
  refine ⟨.object [("schemas", .array []), ("version", .number (.int 1))],
    parseCanonical?_repeating "version", by decide +kernel, ?_⟩
  rw [ofDocument, decode?, Json.parse?_pretty (printable_repeating "version")]
  rfl

end Model

end SchemaDdl
