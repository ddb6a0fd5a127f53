import SchemaDdl.Proofs.Check.WellFormed
import SchemaDdl.Proofs.Document.ConstraintNames

/-!
# Checks of normalized models

Normalizing sets the version and renames foreign keys, and leaves a model alone that needs neither.
So a check of a normalized model finds what it finds in the model itself, under the new names, but
for the version and for constraint names that collide.
-/

namespace SchemaDdl

/-! ## Models without constraint names -/

def ForeignKey.nameless (fk : ForeignKey) : ForeignKey :=
  { fk with name := "" }

/-- A model apart from the names of its foreign keys. -/
def Model.nameless (m : Model) : Model :=
  { m with tables := m.tables.map fun t =>
      { t with foreignKeys := t.foreignKeys.map ForeignKey.nameless } }

theorem ForeignKey.map_nameless_withFreshNames (used : List String) (fks : List ForeignKey) :
    (withFreshNames used fks).map nameless = fks.map nameless := by
  induction fks generalizing used with
  | nil => rfl
  | cons fk fks ih =>
    rw [withFreshNames, List.map_cons, List.map_cons, ih]
    rfl

theorem Model.nameless_normalized (m : Model) :
    m.normalized.nameless = { m.nameless with version := currentVersion } := by
  simp [nameless, normalized, ForeignKey.map_nameless_withFreshNames]

/-- A name that sanitizing leaves alone under one fallback is left alone under all. -/
theorem Naming.clean_of_sanitize_eq {name fallback : String} (h : sanitize name fallback = name) :
    Clean name :=
  h ▸ clean_sanitize name fallback

theorem Table.normalized_eq_self {t : Table} (hdistinct : t.constraintNames.Nodup)
    (hfixed : ∀ n ∈ t.constraintNames, ∃ fallback, Naming.sanitize n fallback = n) :
    t.normalized = t := by
  have hclean (fk : ForeignKey) (hfk : fk ∈ t.foreignKeys) : Naming.Clean fk.name := by
    obtain ⟨fallback, hname⟩ := hfixed fk.name (List.mem_map_of_mem hfk)
    exact Naming.clean_of_sanitize_eq hname
  rw [normalized, ForeignKey.withFreshNames_eq_self hclean (fun _ _ => List.not_mem_nil) hdistinct]

/-! ## Issues and where they are found -/

namespace Check

section Earlier

variable {α β γ : Type}

theorem map_flatMapEarlier (g : β → γ) (f : List α → α → List β) (earlier xs : List α) :
    (flatMapEarlier f earlier xs).map g = flatMapEarlier (fun e x => (f e x).map g) earlier xs := by
  induction xs generalizing earlier with
  | nil => rfl
  | cons x xs ih => rw [flatMapEarlier, flatMapEarlier, List.map_append, ih]

theorem filter_flatMapEarlier (p : β → Bool) (f : List α → α → List β) (earlier xs : List α) :
    (flatMapEarlier f earlier xs).filter p =
      flatMapEarlier (fun e x => (f e x).filter p) earlier xs := by
  induction xs generalizing earlier with
  | nil => rfl
  | cons x xs ih => rw [flatMapEarlier, flatMapEarlier, List.filter_append, ih]

theorem flatMapEarlier_eq_flatMap (f : α → List β) (earlier xs : List α) :
    flatMapEarlier (fun _ x => f x) earlier xs = xs.flatMap f := by
  induction xs generalizing earlier with
  | nil => rfl
  | cons x xs ih => rw [flatMapEarlier, ih, List.flatMap_cons]

/-- A walk over changed items is a walk over the items if each step comes to the same. -/
theorem flatMapEarlier_map {f : List γ → γ → List β} {f' : List α → α → List β} {g : α → γ}
    (h : ∀ e x, f (e.map g) (g x) = f' e x) (earlier xs : List α) :
    flatMapEarlier f (earlier.map g) (xs.map g) = flatMapEarlier f' earlier xs := by
  induction xs generalizing earlier with
  | nil => rfl
  | cons x xs ih =>
    have hnext : earlier.map g ++ [g x] = (earlier ++ [x]).map g := by
      rw [List.map_append, List.map_singleton]
    rw [List.map_cons, flatMapEarlier, flatMapEarlier, h, hnext, ih]

end Earlier

/-- The part of a model that an issue is about, by its number among its like. -/
inductive Place where
  | model
  | schema (i : Nat)
  | type (i : Nat)
  | table (i : Nat)
  | column (i j : Nat)
  | foreignKey (i j : Nat)
  deriving DecidableEq

/-- An issue and where it is found. -/
abbrev Finding := Place × Issue

def foundAt (place : Place) (is : List Issue) : List Finding :=
  is.map (place, ·)

def columnFindings (i : Nat) (part : Part) (earlier : List Column) (c : Column) : List Finding :=
  foundAt (.column i earlier.length) (columnIssues part earlier c)

def foreignKeyFindings (i : Nat) (part : Part) (earlier : List ForeignKey) (fk : ForeignKey) :
    List Finding :=
  foundAt (.foreignKey i earlier.length) (foreignKeyIssues part earlier fk)

def tableFindings (m : Model) (earlier : List Table) (t : Table) : List Finding :=
  let i := earlier.length
  let part : Part := ⟨.table, some t.name, i⟩
  foundAt (.table i) (defectsAt [part] (tableDefects m earlier t)) ++
    flatMapEarlier (columnFindings i part) [] t.columns ++
    flatMapEarlier (foreignKeyFindings i part) [] t.foreignKeys

def structureFindings (m : Model) : List Finding :=
  foundAt .model (defectsAt [] (given (m.version != Model.currentVersion)
      (.unsupportedVersion m.version Model.currentVersion))) ++
    flatMapEarlier (fun e s => foundAt (.schema e.length) (schemaIssues e s)) [] m.schemas ++
    flatMapEarlier (fun e t => foundAt (.type e.length) (typeIssues m e t)) [] m.types ++
    flatMapEarlier (tableFindings m) [] m.tables

def referenceFindings (m : Model) (t : Table) (i : Nat) (earlier : List ForeignKey)
    (fk : ForeignKey) : List Finding :=
  foundAt (.foreignKey i earlier.length) (referenceIssues m t fk)

def keyFindings (m : Model) (earlier : List Table) (t : Table) : List Finding :=
  foundAt (.table earlier.length)
      (given t.columns.isEmpty (.noColumns t.name) ++ given (!t.hasPrimaryKey) (.noPrimaryKey t.name)) ++
    flatMapEarlier (referenceFindings m t earlier.length) [] t.foreignKeys

/-- The issues of a model, each with the part that it is about. -/
def findings (m : Model) : List Finding :=
  structureFindings m ++ flatMapEarlier (keyFindings m) [] m.tables

theorem map_snd_foundAt (place : Place) (is : List Issue) : (foundAt place is).map Prod.snd = is := by
  rw [foundAt, List.map_map]
  exact List.map_id is

theorem map_snd_findings (m : Model) : (findings m).map Prod.snd = validate m := by
  simp only [findings, structureFindings, tableFindings, columnFindings, foreignKeyFindings,
    keyFindings, referenceFindings, List.map_append, map_flatMapEarlier, map_snd_foundAt,
    flatMapEarlier_eq_flatMap]
  rfl

/-! ## Issues without constraint names -/

def Part.nameless (p : Part) : Part :=
  match p.kind with
  | .foreignKey => { p with name := none }
  | _ => p

/-- An issue apart from the name of the foreign key that it is about. -/
def Issue.nameless : Issue → Issue
  | .defect path d => .defect (path.map Part.nameless) d
  | .missingSource _ table => .missingSource "" table
  | .missingTable _ id => .missingTable "" id
  | .missingTarget _ table => .missingTarget "" table
  | .typeMismatch _ source sourceType target targetType =>
    .typeMismatch "" source sourceType target targetType
  | i => i

def Finding.nameless (f : Finding) : Finding :=
  (f.1, f.2.nameless)

/-- Whether the defect is neither in the version nor in a constraint name. -/
def Defect.outlasts : Defect → Bool
  | .unsupportedVersion _ _ => false
  | .nameCollision _ => false
  | _ => true

def Issue.outlasts : Issue → Bool
  | .defect _ d => d.outlasts
  | _ => true

def Finding.outlasts (f : Finding) : Bool :=
  f.2.outlasts

/-- The findings that have to do neither with the version nor with constraint names. -/
def lasting (fs : List Finding) : List Finding :=
  (fs.filter Finding.outlasts).map Finding.nameless

theorem lasting_append (fs gs : List Finding) : lasting (fs ++ gs) = lasting fs ++ lasting gs := by
  rw [lasting, List.filter_append, List.map_append]
  rfl

theorem lasting_flatMapEarlier {α : Type} (f : List α → α → List Finding) (earlier xs : List α) :
    lasting (flatMapEarlier f earlier xs) = flatMapEarlier (fun e x => lasting (f e x)) earlier xs := by
  rw [lasting, filter_flatMapEarlier, map_flatMapEarlier]
  rfl

/-! ## The same findings -/

/-- Renaming foreign keys does not matter to a walk over them whose steps do not look at names. -/
theorem lasting_withFreshNames {f : List ForeignKey → ForeignKey → List Finding}
    (h : ∀ earlier fk, lasting (f (earlier.map ForeignKey.nameless) fk.nameless) = lasting (f earlier fk))
    (fks : List ForeignKey) :
    lasting (flatMapEarlier f [] (ForeignKey.withFreshNames [] fks)) =
      lasting (flatMapEarlier f [] fks) := by
  have hnameless (xs : List ForeignKey) : lasting (flatMapEarlier f [] xs) =
      flatMapEarlier (fun e x => lasting (f e x)) [] (xs.map ForeignKey.nameless) := by
    rw [lasting_flatMapEarlier]
    exact (flatMapEarlier_map h [] xs).symm
  rw [hnameless, hnameless, ForeignKey.map_nameless_withFreshNames]

theorem lasting_normalized (m : Model) {f f' : List Table → Table → List Finding}
    (h : ∀ earlier t, lasting (f (earlier.map Table.normalized) t.normalized) = lasting (f' earlier t)) :
    lasting (flatMapEarlier f [] m.normalized.tables) = lasting (flatMapEarlier f' [] m.tables) := by
  rw [lasting_flatMapEarlier, lasting_flatMapEarlier]
  exact flatMapEarlier_map h [] m.tables

theorem lasting_foreignKeyFindings (i : Nat) (part : Part) (fks : List ForeignKey) :
    lasting (flatMapEarlier (foreignKeyFindings i part) [] (ForeignKey.withFreshNames [] fks)) =
      lasting (flatMapEarlier (foreignKeyFindings i part) [] fks) := by
  refine lasting_withFreshNames (fun earlier fk => ?_) fks
  have hid : fk.nameless.id = fk.id := rfl
  rw [foreignKeyFindings, foreignKeyFindings, foreignKeyIssues, foreignKeyIssues, foreignKeyDefects,
    foreignKeyDefects, List.length_map, hid]
  -- Whether names collide does not matter, with the names or without them: a collision does not last.
  cases fk.id == "" <;> cases earlier.any (fun e => sanitizedName e == sanitizedName fk) <;>
    cases (earlier.map ForeignKey.nameless).any (fun e =>
      sanitizedName e == sanitizedName fk.nameless) <;> rfl

theorem tableDefects_normalized (m : Model) (earlier : List Table) (t : Table) :
    tableDefects m.normalized (earlier.map Table.normalized) t.normalized =
      tableDefects m earlier t := by
  rw [tableDefects, tableDefects, List.any_map, List.any_map]
  rfl

theorem lasting_tableFindings (m : Model) (earlier : List Table) (t : Table) :
    lasting (tableFindings m.normalized (earlier.map Table.normalized) t.normalized) =
      lasting (tableFindings m earlier t) := by
  have hname : t.normalized.name = t.name := rfl
  have hcolumns : t.normalized.columns = t.columns := rfl
  have hkeys : t.normalized.foreignKeys = ForeignKey.withFreshNames [] t.foreignKeys := rfl
  simp only [tableFindings, tableDefects_normalized, List.length_map, hname, hcolumns, hkeys,
    lasting_append, lasting_foreignKeyFindings]

theorem lasting_structureFindings (m : Model) :
    lasting (structureFindings m.normalized) = lasting (structureFindings m) := by
  have hversion (version : UInt32) (b : Bool) : lasting (foundAt .model (defectsAt [] (given b
      (.unsupportedVersion version Model.currentVersion)))) = [] := by
    cases b <;> rfl
  have hschemas : m.normalized.schemas = m.schemas := rfl
  have htypes : m.normalized.types = m.types := rfl
  have htype : typeIssues m.normalized = typeIssues m := by
    funext earlier t
    rw [typeIssues, typeIssues, typeDefects, typeDefects, hasSchema, hasSchema, hschemas]
  have htables : lasting (flatMapEarlier (tableFindings m.normalized) [] m.normalized.tables) =
      lasting (flatMapEarlier (tableFindings m) [] m.tables) :=
    lasting_normalized m (lasting_tableFindings m)
  simp only [structureFindings, lasting_append, hversion, hschemas, htypes, htype, htables]

/-- A foreign key means the same in a normalized model. -/
theorem referenceIssues_normalized (m : Model) (t : Table) (fk : ForeignKey) :
    referenceIssues m.normalized t.normalized fk = referenceIssues m t fk := by
  have htable : m.normalized.referencedTable? fk.toTableId =
      (m.referencedTable? fk.toTableId).map Table.normalized :=
    keepsReferences_normalized.referencedTable? m fk.toTableId
  rw [referenceIssues, referenceIssues, htable]
  cases m.referencedTable? fk.toTableId <;> rfl

theorem map_given {α β : Type} (f : α → β) (b : Bool) (a : α) :
    (given b a).map f = given b (f a) := by
  cases b <;> rfl

/-- The name of a foreign key does not matter to what is wrong with its ends. -/
theorem map_nameless_referenceIssues (m : Model) (t : Table) (fk : ForeignKey) :
    (referenceIssues m t fk.nameless).map Issue.nameless =
      (referenceIssues m t fk).map Issue.nameless := by
  have hsource : fk.nameless.fromColumnId = fk.fromColumnId := rfl
  have htable : fk.nameless.toTableId = fk.toTableId := rfl
  have htarget : fk.nameless.toColumnId = fk.toColumnId := rfl
  have htype (c : Column) (u : Table) (d : Column) :
      (typeIssue m fk.nameless t c u d).map Issue.nameless =
        (typeIssue m fk t c u d).map Issue.nameless := by
    rw [typeIssue, typeIssue, map_given, map_given, Issue.nameless, Issue.nameless]
  rw [referenceIssues, referenceIssues, hsource, htable, htarget, List.map_append, List.map_append,
    map_given, map_given]
  refine congrArg₂ (· ++ ·) rfl ?_
  cases m.referencedTable? fk.toTableId with
  | none => rfl
  | some u =>
    simp only
    cases u.column? fk.toColumnId with
    | none => rfl
    | some d => simp only [List.map_flatMap, htype]

theorem all_given {α : Type} (p : α → Bool) (b : Bool) (a : α) :
    (given b a).all p = (!b || p a) := by
  cases b <;> simp [given]

theorem all_outlasts_referenceIssues (m : Model) (t : Table) (fk : ForeignKey) :
    (referenceIssues m t fk).all Issue.outlasts = true := by
  have htype (c : Column) (u : Table) (d : Column) :
      (typeIssue m fk t c u d).all Issue.outlasts = true := by
    rw [typeIssue, all_given]
    exact Bool.or_true _
  rw [referenceIssues, List.all_append, all_given]
  refine Bool.and_eq_true_iff.2 ⟨Bool.or_true _, ?_⟩
  split
  · rfl
  · split
    · rfl
    · simp only [List.all_flatMap, htype, List.all_eq_true, implies_true]

theorem lasting_referenceFindings (m : Model) (t : Table) (i : Nat) (fks : List ForeignKey) :
    lasting (flatMapEarlier (referenceFindings m t i) [] (ForeignKey.withFreshNames [] fks)) =
      lasting (flatMapEarlier (referenceFindings m t i) [] fks) := by
  have hlasting (earlier : List ForeignKey) (fk : ForeignKey) :
      lasting (referenceFindings m t i earlier fk) =
        foundAt (.foreignKey i earlier.length) ((referenceIssues m t fk).map Issue.nameless) := by
    have hall : (referenceFindings m t i earlier fk).filter Finding.outlasts =
        referenceFindings m t i earlier fk := by
      refine List.filter_eq_self.2 fun f hf => ?_
      obtain ⟨issue, hissue, rfl⟩ := List.mem_map.1 hf
      exact List.all_eq_true.1 (all_outlasts_referenceIssues m t fk) issue hissue
    rw [lasting, hall, referenceFindings, foundAt, foundAt, List.map_map, List.map_map]
    rfl
  refine lasting_withFreshNames (fun earlier fk => ?_) fks
  rw [hlasting, hlasting, map_nameless_referenceIssues, List.length_map]

theorem lasting_keyFindings (m : Model) (earlier : List Table) (t : Table) :
    lasting (keyFindings m.normalized (earlier.map Table.normalized) t.normalized) =
      lasting (keyFindings m earlier t) := by
  have hreferences : referenceFindings m.normalized t.normalized = referenceFindings m t := by
    funext i e fk
    rw [referenceFindings, referenceFindings, referenceIssues_normalized]
  have hkeys : t.normalized.foreignKeys = ForeignKey.withFreshNames [] t.foreignKeys := rfl
  rw [keyFindings, keyFindings, lasting_append, lasting_append, hreferences, hkeys,
    lasting_referenceFindings, List.length_map]
  rfl

theorem lasting_findings (m : Model) : lasting (findings m.normalized) = lasting (findings m) := by
  have hkeys : lasting (flatMapEarlier (keyFindings m.normalized) [] m.normalized.tables) =
      lasting (flatMapEarlier (keyFindings m) [] m.tables) :=
    lasting_normalized m (lasting_keyFindings m)
  rw [findings, findings, lasting_append, lasting_append, lasting_structureFindings, hkeys]

/-! ## Only what lasts is found -/

theorem all_outlasts_defectsAt (path : Path) (ds : List Defect) :
    (defectsAt path ds).all Issue.outlasts = ds.all Defect.outlasts := by
  rw [defectsAt, List.all_map]
  rfl

theorem all_outlasts_schemaDefects (earlier : List Schema) (s : Schema) :
    (schemaDefects earlier s).all Defect.outlasts = true := by
  rw [schemaDefects, List.all_append]
  split <;> simp [all_given, Defect.outlasts]

theorem all_outlasts_typeDefects (m : Model) (t : EnumType) :
    (typeDefects m t).all Defect.outlasts = true := by
  simp [typeDefects, all_given, Defect.outlasts]

theorem all_outlasts_tableDefects (m : Model) (earlier : List Table) (t : Table) :
    (tableDefects m earlier t).all Defect.outlasts = true := by
  rw [tableDefects, List.all_append, List.all_append]
  split <;> split <;> simp [all_given, Defect.outlasts]

theorem all_outlasts_columnDefects (earlier : List Column) (c : Column) :
    (columnDefects earlier c).all Defect.outlasts = true := by
  rw [columnDefects, List.all_append, List.all_append, List.all_append]
  split <;> simp [all_given, Defect.outlasts]

/-- Sanitizing tells the foreign keys of a normalized table apart. -/
theorem all_outlasts_foreignKeyDefects {fks front back : List ForeignKey} {fk : ForeignKey}
    (hsplit : ForeignKey.withFreshNames [] fks = front ++ fk :: back) :
    (foreignKeyDefects front fk).all Defect.outlasts = true := by
  have hnames : ((ForeignKey.withFreshNames [] fks).map sanitizedName).Nodup := by
    have hfixed : (ForeignKey.withFreshNames [] fks).map sanitizedName =
        (ForeignKey.withFreshNames [] fks).map ForeignKey.name := by
      refine List.map_congr_left fun k hk => ?_
      exact (ForeignKey.clean_of_mem_withFreshNames hk).sanitize_eq _
    rw [hfixed]
    exact ForeignKey.nodup_withFreshNames [] fks
  rw [foreignKeyDefects, any_earlier_eq_false hnames hsplit, List.all_append, all_given, all_given]
  simp [Defect.outlasts]

theorem outlasts_of_mem_structureIssues {m : Model} {i : Issue}
    (h : i ∈ structureIssues m.normalized) : i.outlasts = true := by
  have hdefects {path : Path} {ds : List Defect} (hds : ds.all Defect.outlasts = true)
      (hi : i ∈ defectsAt path ds) : i.outlasts = true := by
    rw [← all_outlasts_defectsAt path] at hds
    exact List.all_eq_true.1 hds i hi
  rw [structureIssues, List.mem_append, List.mem_append, List.mem_append] at h
  rcases h with ((h | h) | h) | h
  · have hversion : m.normalized.version = Model.currentVersion := rfl
    rw [hversion, bne_self_eq_false] at h
    cases h
  · obtain ⟨front, s, back, -, h⟩ := mem_flatMapEarlier.1 h
    exact hdefects (all_outlasts_schemaDefects _ s) h
  · obtain ⟨front, t, back, -, h⟩ := mem_flatMapEarlier.1 h
    exact hdefects (all_outlasts_typeDefects _ t) h
  · obtain ⟨front, t, back, hsplit, h⟩ := mem_flatMapEarlier.1 h
    have ht : t ∈ m.normalized.tables := by
      rw [hsplit]
      exact List.mem_append_right _ List.mem_cons_self
    obtain ⟨u, -, rfl⟩ := List.mem_map.1 ht
    rw [tableIssues, List.mem_append, List.mem_append] at h
    rcases h with (h | h) | h
    · exact hdefects (all_outlasts_tableDefects _ _ _) h
    · obtain ⟨before, c, behind, -, h⟩ := mem_flatMapEarlier.1 h
      exact hdefects (all_outlasts_columnDefects _ c) h
    · obtain ⟨before, fk, behind, hkeys, h⟩ := mem_flatMapEarlier.1 h
      exact hdefects (all_outlasts_foreignKeyDefects hkeys) h

/-- Normalizing leaves nothing wrong with the version or with constraint names. -/
theorem outlasts_of_mem_validate_normalized {m : Model} {i : Issue}
    (h : i ∈ validate m.normalized) : i.outlasts = true := by
  rw [validate, List.mem_append] at h
  rcases h with h | h
  · exact outlasts_of_mem_structureIssues h
  · obtain ⟨t, -, h⟩ := List.mem_flatMap.1 h
    rw [keyIssues, List.mem_append, List.mem_append, mem_given, mem_given] at h
    rcases h with (⟨-, rfl⟩ | ⟨-, rfl⟩) | h
    · rfl
    · rfl
    · obtain ⟨fk, -, h⟩ := List.mem_flatMap.1 h
      exact List.all_eq_true.1 (all_outlasts_referenceIssues _ t fk) i h

theorem map_nameless_findings_normalized (m : Model) :
    (findings m.normalized).map Finding.nameless = lasting (findings m) := by
  have hall : (findings m.normalized).filter Finding.outlasts = findings m.normalized := by
    refine List.filter_eq_self.2 fun f hf => outlasts_of_mem_validate_normalized (m := m) ?_
    rw [← map_snd_findings]
    exact List.mem_map_of_mem hf
  rw [← lasting_findings, lasting, hall]

end Check

open Check

/-- Normalizing is a projection that sets the version and tells constraint names apart, where they are
not told apart yet. It changes neither anything else nor what else is found wrong with a model. -/
theorem normalized_projection (m : Model) :
    m.normalized.normalized = m.normalized ∧
    m.normalized.nameless = { m.nameless with version := Model.currentVersion } ∧
    (∀ (i : Nat) (t : Table), m.tables[i]? = some t → t.constraintNames.Nodup →
      (∀ n ∈ t.constraintNames, ∃ fallback, Naming.sanitize n fallback = n) →
        m.normalized.tables[i]? = some t) ∧
    ((findings m).map Prod.snd = validate m ∧
      (findings m.normalized).map Prod.snd = validate m.normalized) ∧
    (∀ (path : Path) (name : String), .defect path (.nameCollision name) ∉ validate m.normalized) ∧
    (findings m.normalized).map Finding.nameless =
      ((findings m).filter Finding.outlasts).map Finding.nameless := by
  refine ⟨m.normalized_idem, m.nameless_normalized, fun i t ht hdistinct hfixed => ?_,
    ⟨map_snd_findings m, map_snd_findings m.normalized⟩, fun path name hmem => ?_,
    map_nameless_findings_normalized m⟩
  · have htable : m.normalized.tables[i]? = (m.tables[i]?).map Table.normalized := List.getElem?_map
    rw [htable, ht, Option.map_some, Table.normalized_eq_self hdistinct hfixed]
  · cases outlasts_of_mem_validate_normalized hmem

/-- The first table keeps its names. In the second one two names collide, one starts with a digit and
one is missing, and its last key refers to a table that is not there. -/
theorem normalized_projection_renamed :
    let keys (names : List String) (target : String) : List ForeignKey := names.mapIdx fun j name =>
      { id := s!"f{j}", name, fromColumnId := "c", toTableId := if j = 3 then target else "t1"
        toColumnId := "c" }
    let t (id : String) (names : List String) : Table :=
      { id, schemaId := "s", name := id
        columns := [{ id := "c", name := "a", type := "int", isPrimaryKey := true, isUnique := true
                      nullable := false }]
        foreignKeys := keys names "gone" }
    let m : Model :=
      { version := 7, schemas := [⟨"s", defaultSchema⟩]
        tables := [t "t1" ["fk_2", "fk"], t "t2" ["1st", "Fk!", "fk", ""]] }
    m.normalized.normalized = m.normalized ∧
    m.normalized.tables.map Table.constraintNames = [["fk_2", "fk"], ["c_1st", "fk", "fk_2", "fk_f3"]] ∧
    m.normalized.tables[0]? = some (t "t1" ["fk_2", "fk"]) ∧
    (findings m).map Prod.fst = [.model, .foreignKey 1 2, .foreignKey 1 3] ∧
    (findings m.normalized).map Finding.nameless =
      [(.foreignKey 1 3, .missingTable "" "gone")] := by
  intro keys t m
  obtain ⟨hidem, -, hkept, -, -, hfindings⟩ := normalized_projection m
  refine ⟨hidem, by decide +kernel, ?_, by decide +kernel, ?_⟩
  · refine hkept 0 (t "t1" ["fk_2", "fk"]) rfl (by decide +kernel) fun n hn => ⟨"", ?_⟩
    have hfixed : ∀ n ∈ (t "t1" ["fk_2", "fk"]).constraintNames, Naming.sanitize n "" = n := by
      decide +kernel
    exact hfixed n hn
  · rw [hfindings]
    decide +kernel

end SchemaDdl
