import Mathlib.Data.List.ReduceOption
import SchemaDdl.Proofs.Reading.Alone

/-!
# The draft of a script

A script is read if each of its statements can be read on its own and no table is defined twice. Its
draft is made up of what the statements declare.
-/

namespace SchemaDdl

open Script

namespace Script.Draft

section Statements

variable {options : Options} {ss : List Statement} {d d' : Draft}

theorem exists_of_foldlM_readNext (h : ss.foldlM (readNext options) d = .ok d') :
    ∃ es, (ss.map Statement.text).mapM (readAlone options) = .ok es ∧
      d' = es.reduceOption.foldl add d := by
  induction ss generalizing d with
  | nil =>
    cases h
    exact ⟨[], rfl, rfl⟩
  | cons s ss ih =>
    rw [List.foldlM_cons] at h
    obtain ⟨next, hnext, h⟩ := bind_eq_ok_iff.1 h
    obtain ⟨es, hes, rfl⟩ := ih h
    rw [readNext] at hnext
    split at hnext
    · cases hnext
    · rename_i e he
      cases hnext
      have halone := (readStatement_eq_ok_iff.1 he).1
      refine ⟨e :: es, ?_, ?_⟩
      · rw [List.map_cons, List.mapM_cons, halone, hes]
        rfl
      · cases e with
        | none => rw [List.reduceOption_cons_of_none, Option.elim_none]
        | some e => rw [List.reduceOption_cons_of_some, List.foldl_cons, Option.elim_some]

theorem foldlM_readNext_eq_ok {es : List (Option Entry)}
    (hes : (ss.map Statement.text).mapM (readAlone options) = .ok es)
    (hkeys : ((d.tables ++ es.reduceOption.filterMap Entry.table?).map TableDraft.key).Nodup) :
    ss.foldlM (readNext options) d = .ok (es.reduceOption.foldl add d) := by
  induction ss generalizing d es with
  | nil =>
    cases hes
    rfl
  | cons s ss ih =>
    rw [List.map_cons, List.mapM_cons] at hes
    obtain ⟨e, he, hes⟩ := bind_eq_ok_iff.1 hes
    obtain ⟨es, hmore, hes⟩ := bind_eq_ok_iff.1 hes
    cases hes
    have hdefined (t : TableDraft) (ht : e = some (.table t)) : d.definesTable t.key = false := by
      subst ht
      rw [List.reduceOption_cons_of_some] at hkeys
      have hcons : (Entry.table t :: es.reduceOption).filterMap Entry.table? =
          t :: es.reduceOption.filterMap Entry.table? := rfl
      rw [hcons, List.map_append, List.nodup_append] at hkeys
      rw [definesTable, List.any_eq_false]
      intro u hu
      rw [beq_iff_eq]
      exact hkeys.2.2 u.key (List.mem_map_of_mem hu) t.key List.mem_cons_self
    have hread : readStatement options d.definesTable s.text = .ok e :=
      readStatement_eq_ok_iff.2 ⟨he, hdefined⟩
    rw [List.foldlM_cons, readNext, hread]
    cases e with
    | none =>
      rw [List.reduceOption_cons_of_none] at hkeys ⊢
      exact ih hmore hkeys
    | some e =>
      rw [List.reduceOption_cons_of_some] at hkeys ⊢
      refine ih hmore ?_
      rw [Option.elim_some, tables_add, List.append_assoc]
      cases h : e.table? <;> simpa [h] using hkeys

/-- A script makes up the draft of its statements if none of them fails and no table is defined
twice. -/
theorem ofStatements_eq_ok_iff :
    ofStatements options ss = .ok d ↔ ∃ es,
      (ss.map Statement.text).mapM (readAlone options) = .ok es ∧
        ((es.reduceOption.filterMap Entry.table?).map TableDraft.key).Nodup ∧
          d = es.reduceOption.foldl add {} := by
  constructor
  · intro h
    obtain ⟨es, hes, rfl⟩ := exists_of_foldlM_readNext h
    have hkeys := (ofStatements_sound h).keys
    rw [tables_foldl_add] at hkeys
    exact ⟨es, hes, hkeys, rfl⟩
  · rintro ⟨es, hes, hkeys, rfl⟩
    exact foldlM_readNext_eq_ok hes hkeys

end Statements

end Script.Draft

/-! ## Generated scripts -/

/-- The statements of a generated script are read on their own as what they stand for. -/
theorem mapM_readAlone_scriptText {bs : List Ddl.Block} (hne : ∀ b ∈ bs, b ≠ [])
    (hreadable : ∀ b ∈ bs, ∀ s ∈ b, s.Readable) {options : Options} {es : List Entry}
    (hes : bs.flatten.mapM (Ddl.Statement.read options) = .ok es) :
    ((statements (Ddl.scriptText bs).toList).map Statement.text).mapM (readAlone options) =
      .ok (es.map some) := by
  have hread (s : Ddl.Statement) (hs : s ∈ bs.flatten) :
      readAlone options s.text.toList = (s.read options).map some := by
    obtain ⟨b, hb, hs⟩ := List.mem_flatten.1 hs
    exact Ddl.readStatement_text options s (hreadable b hb s hs) fun _ _ _ => rfl
  have hentries := congrArg (List.map fun e : Except String Entry => e.map some) (mapM_eq_ok_iff.1 hes)
  rw [List.map_map, List.map_map] at hentries
  rw [Ddl.map_text_statements_scriptText hne hreadable, mapM_eq_ok_iff, List.map_map, List.map_map]
  exact (List.map_congr_left hread).trans hentries

theorem reduceOption_map_some {α : Type} (xs : List α) : (xs.map some).reduceOption = xs := by
  rw [List.reduceOption, List.filterMap_map]
  exact List.filterMap_some

namespace Outline

variable {o : Outline}

/-- The script of a legible outline is read as the outline's draft. -/
theorem Legible.ofStatements_script (h : o.Legible) (options : Options) :
    Draft.ofStatements options (statements (Ddl.scriptText o.script).toList) =
      .ok (o.draft options.inferId) := by
  have hes := mapM_readAlone_scriptText (fun b hb => ne_nil_of_mem_script hb) h.readable
    (mapM_eq_ok_iff.2 (o.map_read_script options))
  have hreduce := reduceOption_map_some (o.entries options.inferId)
  refine Draft.ofStatements_eq_ok_iff.2 ⟨_, hes, ?_, ?_⟩
  · rw [hreduce, tables_entries, List.map_map]
    exact h.keys
  · rw [hreduce, h.foldl_entries]

end Outline

end SchemaDdl
