import SchemaDdl.Proofs.Ddl.Renaming
import SchemaDdl.Proofs.Document.RoundTrip
import SchemaDdl.Proofs.Outline.Scripted

/-!
# Scripts of reloaded models

A document is loaded with fresh names for all foreign keys of a table, whereas a script makes names
fresh for those only that resolve. The script of a reloaded model is the same unless one that does
not resolve takes a name away from one that does.
-/

namespace SchemaDdl

def Table.normalized (t : Table) : Table :=
  { t with foreignKeys := ForeignKey.withFreshNames [] t.foreignKeys }

theorem keepsReferences_normalized : KeepsReferences Table.normalized id := by
  constructor
  · exact fun t => (List.map_id t.columns).symm
  all_goals exact fun _ => rfl

namespace Model

/-- Foreign keys that resolve get the names that they get without the others. -/
def KeepsNames (m : Model) (t : Table) : Prop :=
  (ForeignKey.withFreshNames [] t.foreignKeys).filter (m.resolves t) =
    ForeignKey.withFreshNames [] (t.foreignKeys.filter (m.resolves t))

instance (m : Model) (t : Table) : Decidable (m.KeepsNames t) :=
  inferInstanceAs (Decidable ((ForeignKey.withFreshNames [] t.foreignKeys).filter (m.resolves t) =
    ForeignKey.withFreshNames [] (t.foreignKeys.filter (m.resolves t))))

/-- One foreign key that resolves, under two clean names. -/
structure RenamedKey (m : Model) (t : Table) (a b : ForeignKey) : Prop where
  resolves : m.resolves t a = true
  clean : Naming.Clean a.name
  clean' : Naming.Clean b.name
  eq : b = { a with name := b.name }

section Table

variable {m : Model} {t : Table}

theorem resolves_rename (fk : ForeignKey) (name : String) :
    m.resolves t { fk with name } = m.resolves t fk := by
  rw [resolves, resolves, foreignKeyOutline?_rename, Option.isSome_map]

theorem RenamedKey.outlines {a b : ForeignKey} (h : m.RenamedKey t a b) :
    ∃ d, d.name = a.name ∧ m.foreignKeyOutline? t a = some d ∧
      m.foreignKeyOutline? t b = some { d with name := b.name } := by
  obtain ⟨d, hd⟩ := Option.isSome_iff_exists.1 h.resolves
  refine ⟨d, name_foreignKeyOutline? hd, hd, ?_⟩
  rw [h.eq, foreignKeyOutline?_rename, hd]
  rfl

theorem renamedKey_withFreshNames (used used' : List String) (fks : List ForeignKey) :
    List.Forall₂ (m.RenamedKey t) ((ForeignKey.withFreshNames used fks).filter (m.resolves t))
      (ForeignKey.withFreshNames used' (fks.filter (m.resolves t))) := by
  induction fks generalizing used used' with
  | nil => exact .nil
  | cons fk fks ih =>
    rw [ForeignKey.withFreshNames, List.filter_cons, List.filter_cons, resolves_rename]
    split
    · rename_i hresolves
      refine .cons ⟨?_, ?_, ?_, rfl⟩ (ih _ _)
      · rwa [resolves_rename]
      · exact Naming.clean_ensureUnique (Naming.clean_sanitize ..) _
      · exact Naming.clean_ensureUnique (Naming.clean_sanitize ..) _
    · exact ih _ _

theorem renamed_writtenKeys {as bs : List ForeignKey} (h : List.Forall₂ (m.RenamedKey t) as bs) :
    List.Forall₂ Ddl.Definition.Renamed (m.writtenKeys t as) (m.writtenKeys t bs) := by
  induction h with
  | nil => exact .nil
  | cons hab _ ih =>
    obtain ⟨d, hname, ha, hb⟩ := hab.outlines
    rw [writtenKeys_cons_some ha, writtenKeys_cons_some hb]
    exact .cons (.foreignKey (hname ▸ hab.clean) hab.clean' ..) ih

theorem writtenKeys_inj {as bs : List ForeignKey} (h : List.Forall₂ (m.RenamedKey t) as bs) :
    m.writtenKeys t as = m.writtenKeys t bs ↔ as = bs := by
  refine ⟨fun heq => ?_, congrArg _⟩
  induction h with
  | nil => rfl
  | @cons a b as bs hab _ ih =>
    obtain ⟨d, hname, ha, hb⟩ := hab.outlines
    rw [writtenKeys_cons_some ha, writtenKeys_cons_some hb] at heq
    obtain ⟨hfirst, hrest⟩ := List.cons.inj heq
    have hsame : d.name = b.name := (Ddl.Definition.foreignKey.inj hfirst).1
    have hab : b = a := by rw [hab.eq, ← hsame, hname]
    rw [ih hrest, hab]

theorem foreignKeyOutline?_normalized :
    m.normalized.foreignKeyOutline? t.normalized = m.foreignKeyOutline? t :=
  funext (keepsReferences_normalized.foreignKeyOutline? m t)

/-- Names that are fresh stay when some of the foreign keys are left out. -/
theorem foreignKeyDefinitions_normalized :
    Ddl.foreignKeyDefinitions m.normalized t.normalized [] t.normalized.foreignKeys =
      m.writtenKeys t ((ForeignKey.withFreshNames [] t.foreignKeys).filter (m.resolves t)) := by
  have hresolves : m.normalized.resolves t.normalized = m.resolves t := by
    funext fk
    rw [resolves, resolves, foreignKeyOutline?_normalized]
  have hsublist := List.filter_sublist (p := m.resolves t)
    (l := ForeignKey.withFreshNames [] t.foreignKeys)
  rw [foreignKeyDefinitions_eq_writtenKeys, hresolves, writtenKeys, foreignKeyOutline?_normalized,
    Table.normalized, ForeignKey.withFreshNames_eq_self, writtenKeys]
  · exact fun fk h => ForeignKey.clean_of_mem_withFreshNames (hsublist.subset h)
  · exact fun _ _ => List.not_mem_nil
  · exact (hsublist.map _).nodup (ForeignKey.nodup_withFreshNames [] t.foreignKeys)

theorem renamed_tableBlock (schema : String) :
    List.Forall₂ Ddl.Statement.Renamed (Ddl.tableBlock m.normalized schema t.normalized)
      (Ddl.tableBlock m schema t) := by
  have hdefinitions : List.Forall₂ Ddl.Definition.Renamed
      (Ddl.tableDefinitions m.normalized t.normalized) (Ddl.tableDefinitions m t) := by
    rw [Ddl.tableDefinitions, Ddl.tableDefinitions, foreignKeyDefinitions_normalized,
      foreignKeyDefinitions_eq_writtenKeys]
    apply List.rel_append
    · exact List.forall₂_same.2 fun d _ => .same d
    · exact renamed_writtenKeys (renamedKey_withFreshNames [] [] t.foreignKeys)
  exact .cons (.createTable _ hdefinitions) (List.forall₂_same.2 fun s _ => .same s)

theorem tableBlock_normalized_iff (schema : String) :
    Ddl.tableBlock m.normalized schema t.normalized = Ddl.tableBlock m schema t ↔
      m.KeepsNames t := by
  have hkeys := writtenKeys_inj (renamedKey_withFreshNames (m := m) (t := t) [] [] t.foreignKeys)
  rw [KeepsNames, ← hkeys, ← foreignKeyDefinitions_normalized,
    ← foreignKeyDefinitions_eq_writtenKeys]
  constructor
  · intro h
    have hdefinitions : Ddl.tableDefinitions m.normalized t.normalized = Ddl.tableDefinitions m t :=
      (Ddl.Statement.createTable.inj (List.cons.inj h).1).2
    exact List.append_cancel_left hdefinitions
  · intro h
    have hdefinitions : Ddl.tableDefinitions m.normalized t.normalized = Ddl.tableDefinitions m t :=
      congrArg (t.columns.map Ddl.columnDefinition ++ Ddl.keyDefinitions t.columns ++ ·) h
    rw [Ddl.tableBlock, hdefinitions]
    rfl

/-- Where all foreign keys resolve, there are no others to take a name. -/
theorem keepsNames_of_resolves (h : ∀ fk ∈ t.foreignKeys, m.resolves t fk) : m.KeepsNames t := by
  have hfilter := List.filter_eq_self.2 h
  have hkeys := renamedKey_withFreshNames (m := m) (t := t) [] [] t.foreignKeys
  rw [KeepsNames, hfilter]
  rw [hfilter] at hkeys
  exact List.filter_sublist.eq_of_length (hkeys.length_eq)

/-- Names that sanitizing tells apart are fresh, whichever of them are there. -/
theorem keepsNames_of_nodup (h : (t.foreignKeys.map Check.sanitizedName).Nodup) :
    m.KeepsNames t := by
  have hfilter : ((t.foreignKeys.filter (m.resolves t)).map Check.sanitizedName).Nodup :=
    (List.filter_sublist.map _).nodup h
  rw [KeepsNames, ForeignKey.withFreshNames_eq_map (fun _ _ => List.not_mem_nil) h,
    ForeignKey.withFreshNames_eq_map (fun _ _ => List.not_mem_nil) hfilter, List.filter_map]
  refine congrArg _ (List.filter_congr fun fk _ => ?_)
  exact resolves_rename fk _

end Table

/-- Fresh names for all foreign keys leave a script alone exactly if those that do not resolve take
no name from one that does. -/
theorem generate_normalized_iff (m : Model) :
    Ddl.generate m.normalized = Ddl.generate m ↔
      ∀ t ∈ m.tables, (m.schemaName? t.schemaId).isSome → m.KeepsNames t := by
  have hplacements : m.normalized.placements = m.placements.map fun p => (p.1, p.2.normalized) :=
    keepsReferences_normalized.placements m
  have hblocks : Ddl.blocks m.normalized =
      m.sortedSchemas.filterMap Ddl.schemaBlock? ++ m.sortedSchemas.flatMap (Ddl.typeBlocks m) ++
        m.placements.map fun p => Ddl.tableBlock m.normalized p.1.name p.2.normalized := by
    rw [Ddl.blocks, flatMap_tableBlocks, hplacements, List.map_map]
    rfl
  have hrenamed : Ddl.RenamedBlocks (Ddl.blocks m.normalized) (Ddl.blocks m) := by
    rw [hblocks, Ddl.blocks, flatMap_tableBlocks]
    apply List.rel_append
    · exact List.forall₂_same.2 fun b _ => List.forall₂_same.2 fun s _ => .same s
    · rw [List.forall₂_map_left_iff, List.forall₂_map_right_iff]
      exact List.forall₂_same.2 fun p _ => renamed_tableBlock p.1.name
  rw [Ddl.generate, Ddl.generate, hrenamed.scriptText_inj, hblocks, Ddl.blocks, flatMap_tableBlocks,
    List.append_cancel_left_eq, List.map_inj_left]
  simp only [tableBlock_normalized_iff]
  constructor
  · intro h t ht hsome
    obtain ⟨s, hs, hid, -⟩ := exists_of_schemaName? hsome
    exact h (s, t) (mem_placements.2 ⟨hs, ht, hid.symm⟩)
  · intro h p hp
    obtain ⟨hs, ht, hid⟩ := mem_placements.1 hp
    apply h p.2 ht
    rw [hid]
    exact isSome_schemaName? hs

/-- A model that is saved and loaded keeps its script, exactly if in every table that the script
creates the foreign keys that do not resolve take no name from one that does. Nothing is taken where
all of them resolve, nor where sanitizing tells all names apart. -/
theorem generate_reloaded (m : Model) :
    (Ddl.generate m.normalized = Ddl.generate m ↔
      ∀ t ∈ m.tables, (m.schemaName? t.schemaId).isSome → m.KeepsNames t) ∧
    ((∀ t ∈ m.tables, (m.schemaName? t.schemaId).isSome →
      (∀ fk ∈ t.foreignKeys, m.resolves t fk) ∨ (t.foreignKeys.map Check.sanitizedName).Nodup) →
        Ddl.generate m.normalized = Ddl.generate m) ∧
    (m.version = currentVersion → (∀ f ∈ m.coordinates, f.isFinite = true) →
      (∀ f ∈ m.coordinates, Decimal.ReadsBack f) →
        (ofDocument m.toDocument).map Ddl.generate = .ok (Ddl.generate m.normalized)) := by
  refine ⟨m.generate_normalized_iff, fun h => ?_, fun hversion hfinite hback => ?_⟩
  · apply m.generate_normalized_iff.2
    intro t ht hsome
    rcases h t ht hsome with hall | hnodup
    · exact keepsNames_of_resolves hall
    · exact keepsNames_of_nodup hnodup
  · have hdocument : ofDocument m.toDocument = .ok m.normalized :=
      ofDocument_eq_ok_iff.2 ⟨m, decode?_toDocument (printable hfinite hback), hversion, rfl⟩
    rw [hdocument]
    rfl

/-- One table `t` with foreign keys called `a` to these tables. -/
def sharedName (targets : List String) : Model where
  version := currentVersion
  schemas := [⟨"s", "public"⟩]
  tables := [{
    id := "t"
    schemaId := "s"
    name := "t"
    columns := [{ id := "c", name := "x", type := "int" }]
    foreignKeys := targets.map fun target =>
      { id := "to " ++ target, name := "a", fromColumnId := "c", toTableId := target
        toColumnId := "c" } }]

/-- The one that does not resolve comes last, and takes no name. -/
theorem generate_reloaded_last :
    Ddl.generate (sharedName ["t", "gone"]) = "CREATE TABLE \"public\".\"t\" (\n  \"x\" int,\n" ++
        "  CONSTRAINT \"a\" FOREIGN KEY (\"x\") REFERENCES \"public\".\"t\" (\"x\")\n);" ∧
      (ofDocument (sharedName ["t", "gone"]).toDocument).map Ddl.generate =
        .ok (Ddl.generate (sharedName ["t", "gone"])) := by
  obtain ⟨hsame, -, hdocument⟩ := generate_reloaded (sharedName ["t", "gone"])
  have hkeeps : ∀ t ∈ (sharedName ["t", "gone"]).tables,
      (sharedName ["t", "gone"]).KeepsNames t := by
    intro t ht
    obtain rfl := List.mem_singleton.1 ht
    decide +kernel
  refine ⟨by decide +kernel, ?_⟩
  rw [← hsame.2 fun t ht _ => hkeeps t ht]
  exact hdocument rfl (fun _ hf => absurd hf List.not_mem_nil) fun _ hf => absurd hf List.not_mem_nil

/-- The one that does not resolve comes first. The other is called `a` in the script, and `a_2` once
the model has been saved and loaded. -/
theorem generate_normalized_ne :
    ∃ m : Model, m.version = currentVersion ∧ m.coordinates = [] ∧
      ofDocument m.toDocument = .ok m.normalized ∧
      Ddl.generate m.normalized ≠ Ddl.generate m := by
  refine ⟨sharedName ["gone", "t"], rfl, rfl, ?_, by decide +kernel⟩
  exact ofDocument_eq_ok_iff.2 ⟨_, decode?_toDocument (printable_of_coordinates rfl), rfl, rfl⟩

end Model

end SchemaDdl
