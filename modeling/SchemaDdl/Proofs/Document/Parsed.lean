import SchemaDdl.Proofs.Document.RoundTrip
import SchemaDdl.Proofs.Outline.Similar

/-!
# Documents of parsed models

A model that is read from a script has no table with a place on a diagram, and the names of its
foreign keys are fresh already. So its document is read back as the very same model.
-/

namespace SchemaDdl

open Script

/-- A table that is the same after it has been saved and loaded. -/
structure Table.Kept (t : Table) : Prop where
  clean : ∀ fk ∈ t.foreignKeys, Naming.Clean fk.name
  distinct : (t.foreignKeys.map ForeignKey.name).Nodup
  unplaced : t.position = none

namespace Model

variable {m : Model}

theorem normalized_eq_self (hversion : m.version = currentVersion) (h : ∀ t ∈ m.tables, t.Kept) :
    m.normalized = m := by
  have htables : (m.tables.map fun t =>
      { t with foreignKeys := ForeignKey.withFreshNames [] t.foreignKeys }) = m.tables := by
    refine (List.map_congr_left fun t ht => ?_).trans (List.map_id _)
    obtain ⟨hclean, hdistinct, -⟩ := h t ht
    rw [ForeignKey.withFreshNames_eq_self hclean (fun _ _ => List.not_mem_nil) hdistinct]
    rfl
  rw [normalized, htables, ← hversion]

theorem ofDocument_of_kept (hversion : m.version = currentVersion) (h : ∀ t ∈ m.tables, t.Kept) :
    ofDocument m.toDocument = .ok m := by
  have hcoordinates : m.coordinates = [] := by
    apply List.flatMap_eq_nil_iff.2
    intro t ht
    simp [Table.coordinates, (h t ht).unplaced]
  apply ofDocument_eq_ok_iff.2
  exact ⟨m, decode?_toDocument (printable_of_coordinates hcoordinates), hversion,
    normalized_eq_self hversion h⟩

end Model

section Resolve

variable {ids : Ids}

/-- Foreign keys stand under the names that are given out to them. -/
theorem map_name_mapIdx (ids : Ids) {names : List String} {ends : List Ends} {fks : List ForeignKeyDraft}
    (hnames : names.length = fks.length) (hends : ends.length = fks.length) (i : Nat) :
    (((names.zip ends).zip fks).mapIdx fun j x =>
      foreignKey (ids.foreignKey i j) x.1.1 x.1.2 x.2).map ForeignKey.name = names := by
  have hfirst : (names.zip ends).length ≤ fks.length := by simp [hnames, hends]
  calc
    _ = ((names.zip ends).zip fks).map (Prod.fst ∘ Prod.fst) :=
      map_mapIdx_eq_map _ ForeignKey.name _ fun _ _ _ => rfl
    _ = (names.zip ends).map Prod.fst := by rw [← List.map_map, List.map_fst_zip hfirst]
    _ = names := List.map_fst_zip (by simp [hnames, hends])

theorem kept_of_resolveForeignKeys {placed : List Placed} {i : Nat} {p : Placed} {t : Table}
    (hplace : p.table.position = none) (h : resolveForeignKeys ids placed i p = .ok t) : t.Kept := by
  obtain ⟨ends, hends, rfl⟩ := resolveForeignKeys_eq_ok_iff.1 h
  have hlength : ends.length = p.draft.foreignKeys.length := by
    simpa using (congrArg List.length (mapM_eq_ok_iff.1 hends)).symm
  have hnames := map_name_mapIdx ids
    (length_constraintNames p.draft.key.name [] p.draft.foreignKeys) hlength i
  constructor
  · intro fk hfk
    have hmem := List.mem_map_of_mem (f := ForeignKey.name) hfk
    rw [hnames] at hmem
    exact clean_of_mem_constraintNames hmem
  · rw [hnames]
    exact nodup_constraintNames ..
  · exact hplace

/-- A comment touches neither foreign keys nor places. -/
theorem kept_of_applyComment {tables tables' : KeyedTables} {comment : CommentDraft}
    (htables : ∀ p ∈ tables, p.2.Kept) (h : applyComment tables comment = .ok tables') :
    ∀ p ∈ tables', p.2.Kept := by
  have hsome := toOption_eq_some_iff.2 h
  obtain ⟨target, text⟩ := comment
  intro p hp
  cases target with
  | table key =>
    rw [applyComment_table] at hsome
    rcases mem_of_updateFirst? hsome hp with hp | ⟨q, hq, rfl⟩
    · exact htables p hp
    · obtain ⟨hclean, hdistinct, hplace⟩ := htables q hq
      exact ⟨hclean, hdistinct, hplace⟩
  | column key name =>
    rw [applyComment_column] at hsome
    obtain ⟨columns, -, rfl⟩ := Option.map_eq_some_iff.1 hsome
    obtain ⟨q, hq, rfl⟩ := List.mem_map.1 hp
    obtain ⟨hclean, hdistinct, hplace⟩ := htables q hq
    constructor <;> (simp only; split <;> assumption)

theorem kept_of_resolve {d : Draft} {m : Model} (h : d.resolve ids = .ok m) :
    m.version = Model.currentVersion ∧ ∀ t ∈ m.tables, t.Kept := by
  obtain ⟨ts, hts, keyed, hkeyed, rfl⟩ := resolve_eq_ok_iff.1 h
  have hresolved (t : Table) (ht : t ∈ ts) : t.Kept := by
    obtain ⟨⟨p, i⟩, hp, hpt⟩ := exists_of_mem_of_mapM hts ht
    obtain ⟨j, u, -, rfl⟩ := exists_place (List.fst_mem_of_mem_zipIdx hp)
    exact kept_of_resolveForeignKeys rfl hpt
  have hcommented : ∀ p ∈ keyed, p.2.Kept := by
    refine foldlM_induction hkeyed (P := fun tables => ∀ p ∈ tables, p.2.Kept) ?_ ?_
    · exact fun p hp => hresolved p.2 (List.of_mem_zip hp).2
    · exact fun tables comment _ tables' htables hstep => kept_of_applyComment htables hstep
  refine ⟨rfl, fun t ht => ?_⟩
  obtain ⟨p, hp, rfl⟩ := List.mem_map.1 ht
  exact hcommented p hp

end Resolve

section Parse

variable {ids ids' : Ids} {options : Options} {script : String} {m : Model}

/-- The document of a model that is read from a script is read back as that model. -/
theorem ofDocument_of_parse (h : parse ids options script = .ok m) :
    Model.ofDocument m.toDocument = .ok m := by
  obtain ⟨d, -, hresolve⟩ := bind_eq_ok_iff.1 h
  obtain ⟨hversion, hkept⟩ := kept_of_resolve hresolve
  exact Model.ofDocument_of_kept hversion hkept

/-- The script that is generated does not hang on the ids that are given out. -/
theorem exists_parse_ids (hids : ids.Distinct) (hids' : ids'.Distinct)
    (h : parse ids options script = .ok m) :
    ∃ m', parse ids' options script = .ok m' ∧ Ddl.generate m' = Ddl.generate m := by
  obtain ⟨d, hd, hresolve⟩ := bind_eq_ok_iff.1 h
  have hsound := Draft.ofStatements_sound hd
  have hself : d.Similar d := ⟨.rfl, rfl, .rfl, rfl⟩
  obtain ⟨m', hm', hsame⟩ := hself.exists_resolve hids hids' hsound hsound hresolve
  exact ⟨m', bind_eq_ok_iff.2 ⟨d, hd, hm'⟩, hsame⟩

end Parse

end SchemaDdl
