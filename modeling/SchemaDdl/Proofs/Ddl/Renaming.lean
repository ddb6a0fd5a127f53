import Mathlib.Data.List.Basic
import SchemaDdl.Proofs.Ddl.Wording
import SchemaDdl.Proofs.Text.Names

/-!
# Scripts under other constraint names

A script shows the name of every foreign key that it writes. Two scripts that differ in nothing but
clean constraint names have the same text only if they are the same.
-/

namespace SchemaDdl

theorem Naming.Snake.quote_notMem {cs : List Char} (h : Snake cs) : '"' ∉ cs := by
  intro hquote
  rcases h.isSnakeChar_or_eq hquote with hchar | hchar <;> exact absurd hchar (by decide)

namespace Ddl

section Told

variable {α : Type}

/-- The text tells data in the relation apart, whatever follows it. -/
def Told (R : α → α → Prop) (text : α → String) : Prop :=
  ∀ ⦃a b⦄, R a b → ∀ r r', (text a).toList ++ r = (text b).toList ++ r' → a = b ∧ r = r'

variable {R : α → α → Prop} {text : α → String}

theorem Told.eq_of_text (h : Told R text) {a b : α} (hab : R a b) (htext : text a = text b) :
    a = b :=
  (h hab [] [] (by rw [htext])).1

theorem Told.intercalate (h : Told R text) (sep : String) :
    Told (List.Forall₂ R) fun as => sep.intercalate (as.map text) := by
  intro as bs hrel
  induction hrel with
  | nil => exact fun r r' heq => ⟨rfl, heq⟩
  | cons hab htail ih =>
    intro r r' heq
    cases htail with
    | nil =>
      obtain ⟨rfl, hrest⟩ := h hab r r' (by simpa using heq)
      exact ⟨rfl, hrest⟩
    | cons hab' htail' =>
      simp only [List.map_cons, String.intercalate_cons_cons, String.toList_append,
        List.append_assoc] at heq
      obtain ⟨rfl, hrest⟩ := h hab _ _ heq
      obtain ⟨heq', hrest⟩ := ih r r' (List.append_cancel_left hrest)
      exact ⟨congrArg _ heq', hrest⟩

end Told

/-- Clean names under which one foreign key may stand. -/
inductive Definition.Renamed : Definition → Definition → Prop where
  | same (d : Definition) : Renamed d d
  | foreignKey {name name' : String} (hname : Naming.Clean name) (hname' : Naming.Clean name')
      (column : String) (target : QualifiedName) (targetColumn : String)
      (onDelete onUpdate : Option Action) :
      Renamed (.foreignKey name column target targetColumn onDelete onUpdate)
        (.foreignKey name' column target targetColumn onDelete onUpdate)

inductive Statement.Renamed : Statement → Statement → Prop where
  | same (s : Statement) : Renamed s s
  | createTable (key : QualifiedName) {ds ds' : List Definition}
      (h : List.Forall₂ Definition.Renamed ds ds') :
      Renamed (.createTable key ds) (.createTable key ds')

theorem doubled_of_notMem {quote : Char} {cs : List Char} (h : quote ∉ cs) :
    doubled quote cs = cs := by
  induction cs with
  | nil => rfl
  | cons c cs ih =>
    rw [List.mem_cons, not_or] at h
    simp [doubled, Ne.symm h.1, ih h.2]

/-- The first quote behind a clean name ends it. -/
theorem eq_of_identifier {name name' : String} (hname : Naming.Clean name)
    (hname' : Naming.Clean name') {r r' : List Char}
    (h : (identifier name).toList ++ r = (identifier name').toList ++ r') : name = name' ∧ r = r' := by
  have htext {n : String} (hn : Naming.Clean n) :
      (identifier n).toList = '"' :: (n.toList ++ ['"']) := by
    rw [identifier, quoted, doubled_of_notMem hn.snake.quote_notMem, String.toList_ofList]
    rfl
  have hend {n : String} (hn : Naming.Clean n) (r : List Char) :
      (n.toList ++ '"' :: r).idxOf '"' = n.toList.length := by
    rw [List.idxOf_append_of_notMem hn.snake.quote_notMem, List.idxOf_cons_self, Nat.add_zero]
  rw [htext hname, htext hname'] at h
  simp only [List.cons_append, List.append_assoc, List.nil_append, List.cons.injEq, true_and] at h
  have hlength : name.toList.length = name'.toList.length := by
    rw [← hend hname r, h, hend hname']
  obtain ⟨heq, hrest⟩ := List.append_inj h hlength
  exact ⟨String.toList_injective heq, (List.cons.inj hrest).2⟩

theorem told_definition : Told Definition.Renamed Definition.text := by
  intro d d' hrenamed r r' h
  cases hrenamed with
  | same d => exact ⟨rfl, List.append_cancel_left h⟩
  | foreignKey hname hname' column target targetColumn onDelete onUpdate =>
    have htext (name : String) :
        (Definition.foreignKey name column target targetColumn onDelete onUpdate).text =
          ("CONSTRAINT " ++ identifier name ++ " FOREIGN KEY (" ++ identifier column ++ ") ") ++
            ("REFERENCES " ++ qualified target ++ " (" ++ identifier targetColumn ++ ")") ++
            actionText "DELETE" onDelete ++ actionText "UPDATE" onUpdate := rfl
    rw [htext, htext] at h
    simp only [String.toList_append, List.append_assoc] at h
    obtain ⟨rfl, hrest⟩ := eq_of_identifier hname hname' (List.append_cancel_left h)
    exact ⟨rfl, by simpa using hrest⟩

theorem told_statement : Told Statement.Renamed Statement.text := by
  intro s s' hrenamed r r' h
  cases hrenamed with
  | same s => exact ⟨rfl, List.append_cancel_left h⟩
  | createTable key hdefinitions =>
    have htext (ds : List Definition) : (Statement.createTable key ds).text =
      "CREATE TABLE " ++ qualified key ++ " (\n  " ++ ",\n  ".intercalate (ds.map Definition.text) ++
        "\n);" := rfl
    rw [htext, htext] at h
    simp only [String.toList_append, List.append_assoc] at h
    have hbody := List.append_cancel_left (List.append_cancel_left (List.append_cancel_left h))
    obtain ⟨rfl, hrest⟩ := told_definition.intercalate ",\n  " hdefinitions _ _ hbody
    exact ⟨rfl, List.append_cancel_left hrest⟩

/-- Blocks of a script and the same blocks under other constraint names. -/
abbrev RenamedBlocks (bs bs' : List Block) : Prop :=
  List.Forall₂ (List.Forall₂ Statement.Renamed) bs bs'

theorem RenamedBlocks.scriptText_inj {bs bs' : List Block} (h : RenamedBlocks bs bs') :
    scriptText bs = scriptText bs' ↔ bs = bs' := by
  constructor
  · exact ((told_statement.intercalate "\n").intercalate "\n\n").eq_of_text h
  · exact congrArg scriptText

end Ddl

end SchemaDdl
