import SchemaDdl.Proofs.Outline.Keys
import SchemaDdl.Proofs.Outline.Resolution
import SchemaDdl.Proofs.Reading.Sound

/-!
# Strict and lenient reading

A script that is read strictly is read leniently, and to the same model. Lenient reading only goes
on where strict reading stops, so each reader is compared with itself in the other mode.
-/

namespace SchemaDdl

open Script

/-! ## Readers that fail less often -/

section Extension

variable {ε α β : Type}

/-- Where `x` succeeds, `y` succeeds with the same result. -/
def ExtendedBy (x y : Except ε α) : Prop :=
  ∀ a, x = .ok a → y = .ok a

namespace ExtendedBy

theorem refl (x : Except ε α) : ExtendedBy x x :=
  fun _ h => h

theorem error (e : ε) (y : Except ε α) : ExtendedBy (.error e) y := by
  intro a h
  cases h

theorem bind {x y : Except ε α} {f g : α → Except ε β} (h : ExtendedBy x y)
    (hfg : ∀ a, ExtendedBy (f a) (g a)) : ExtendedBy (x >>= f) (y >>= g) := by
  intro b hb
  obtain ⟨a, ha, hb⟩ := bind_eq_ok_iff.1 hb
  exact bind_eq_ok_iff.2 ⟨a, h a ha, hfg a b hb⟩

theorem inContext {x y : Except String α} (h : ExtendedBy x y) (context : String) :
    ExtendedBy (Script.inContext context x) (Script.inContext context y) := by
  intro a ha
  exact mapError_eq_ok_iff.2 (h a (mapError_eq_ok_iff.1 ha))

theorem mapM {f g : α → Except ε β} (h : ∀ a, ExtendedBy (f a) (g a)) (xs : List α) :
    ExtendedBy (xs.mapM f) (xs.mapM g) := by
  induction xs with
  | nil => exact refl _
  | cons x xs ih =>
    rw [List.mapM_cons, List.mapM_cons]
    exact (h x).bind fun _ => ih.bind fun _ => refl _

theorem foldlM {f g : β → α → Except ε β} (h : ∀ b a, ExtendedBy (f b a) (g b a)) (b : β)
    (xs : List α) : ExtendedBy (xs.foldlM f b) (xs.foldlM g b) := by
  induction xs generalizing b with
  | nil => exact refl _
  | cons x xs ih =>
    rw [List.foldlM_cons, List.foldlM_cons]
    exact (h b x).bind ih

end ExtendedBy

end Extension

/-! ## Statements -/

namespace Script

variable {inferId : Bool} {table : QualifiedName} {text : List Char} {ls : List Lexeme}

theorem unsupported_extendedBy {α : Type} (what : String) (text : List Char) (skipped : α) :
    ExtendedBy (unsupported true what text skipped) (unsupported false what text skipped) :=
  .error _ _

/-- Strict reading never meets a clause that lenient reading would skip. -/
theorem columnClauses_extendedBy (c : ColumnDraft) (ls : List Lexeme) :
    ExtendedBy (columnClauses true c ls) (columnClauses false c ls) := by
  induction hn : ls.length using Nat.strongRecOn generalizing ls c with
  | _ n ih =>
    cases ls with
    | nil =>
      rw [columnClauses, columnClauses]
      exact .refl _
    | cons l ls =>
      rw [columnClauses, columnClauses]
      split
      · exact .refl _
      · split
        · exact .refl _
        · rename_i k rest hk
          have hlt := length_clause_lt hk
          cases k with
          | unsupported head => exact .error _ _
          | _ => exact ih rest.length (hn ▸ hlt) _ rest rfl

theorem columnDefinition_extendedBy :
    ExtendedBy (columnDefinition true inferId table ls) (columnDefinition false inferId table ls) := by
  refine .bind (.refl _) fun ⟨name, rest⟩ => .inContext ?_ _
  simp only
  split
  · exact .refl _
  · exact columnClauses_extendedBy _ _

theorem namedItem_extendedBy :
    ExtendedBy (namedItem true table text ls) (namedItem false table text ls) := by
  refine .bind (.refl _) fun ⟨name, rest⟩ => ?_
  simp only
  split
  · exact .refl _
  · split
    · exact .refl _
    · split
      · exact .refl _
      · split
        · exact unsupported_extendedBy _ _ _
        · exact .refl _

theorem tableItem_extendedBy : ExtendedBy (tableItem { strict := true, inferId } table text)
    (tableItem { strict := false, inferId } table text) := by
  refine .bind (.refl _) fun ls => ?_
  split
  · exact .refl _
  · exact .refl _
  · exact .refl _
  · exact namedItem_extendedBy
  · exact unsupported_extendedBy _ _ _
  · exact columnDefinition_extendedBy.bind fun _ => .refl _

/-- Where all key lists name columns of the table, it makes no difference what would become of the
others. -/
theorem ofItems_extendedBy (items : List TableItem) :
    ExtendedBy (TableDraft.ofItems true table items) (TableDraft.ofItems false table items) := by
  intro t ht
  obtain ⟨-, ht⟩ := ofItems_eq_ok_iff.1 ht
  refine ofItems_eq_ok_iff.2 ⟨?_, ht⟩
  intro h
  cases h

theorem createTable_extendedBy (isDefined : QualifiedName → Bool) (ls : List Lexeme) :
    ExtendedBy (createTable { strict := true, inferId } isDefined ls)
      (createTable { strict := false, inferId } isDefined ls) := by
  intro e he
  obtain ⟨key, rest, body, items, t, hkey, hbody, hdone, hnew, hitems, ht, rfl⟩ :=
    createTable_eq_ok_iff.1 he
  refine createTable_eq_ok_iff.2 ⟨key, rest, body, items, t, hkey, hbody, hdone, hnew, ?_, ?_, rfl⟩
  · exact ExtendedBy.mapM (fun _ => tableItem_extendedBy) _ items hitems
  · exact ofItems_extendedBy items t ht

theorem createType_extendedBy :
    ExtendedBy (createType true text ls) (createType false text ls) := by
  refine .bind (.refl _) fun ⟨key, rest⟩ => .bind (.refl _) fun rest => ?_
  split
  · exact unsupported_extendedBy _ _ _
  · exact .refl _

theorem readStatement_extendedBy (isDefined : QualifiedName → Bool) (text : List Char) :
    ExtendedBy (readStatement { strict := true, inferId } isDefined text)
      (readStatement { strict := false, inferId } isDefined text) := by
  refine .bind (.refl _) fun ls => ?_
  simp only
  split
  · exact .refl _
  · split
    · exact .refl _
    · exact createType_extendedBy
    · exact (createTable_extendedBy isDefined _).bind fun _ => .refl _
    · exact .refl _
    · exact .refl _
    · exact unsupported_extendedBy _ _ _

/-! ## Scripts -/

namespace Draft

theorem readNext_extendedBy (d : Draft) (s : Statement) :
    ExtendedBy (readNext { strict := true, inferId } d s) (readNext { strict := false, inferId } d s) := by
  intro d' h
  rw [readNext] at h ⊢
  split at h
  · cases h
  · rename_i e he
    rw [readStatement_extendedBy d.definesTable s.text e he]
    exact h

theorem ofStatements_extendedBy (ss : List Statement) :
    ExtendedBy (ofStatements { strict := true, inferId } ss)
      (ofStatements { strict := false, inferId } ss) :=
  .foldlM readNext_extendedBy {} ss

/-- While the statements are read, nothing but a malformed statement is reported. -/
theorem isReference_of_ofStatements {options : Options} {ss : List Statement} {e : ParseError}
    (h : ofStatements options ss = .error e) : e.isReference = false := by
  rw [ofStatements] at h
  generalize ({} : Draft) = d at h
  induction ss generalizing d with
  | nil => cases h
  | cons s ss ih =>
    rw [List.foldlM_cons, readNext] at h
    split at h
    · cases h
      rfl
    · exact ih _ h

end Draft

end Script

/-- Lenient reading extends strict reading. A script that is read strictly is read leniently, to the
very model if the ids are given out alike, and to one that differs from it only in its ids if they
are not. Where lenient reading fails strict reading fails too, with the same report or because it
stops at a statement before. -/
theorem parse_lenient_of_strict {ids ids' : Ids} (hids : ids.Distinct) (hids' : ids'.Distinct)
    (inferId : Bool) (script : String) :
    (∀ m, parse ids { strict := true, inferId } script = .ok m →
      parse ids { strict := false, inferId } script = .ok m ∧
        ∃ m', parse ids' { strict := false, inferId } script = .ok m' ∧
          m.Linked ∧ m'.Linked ∧ m'.outline = m.outline) ∧
    ∀ e, parse ids { strict := false, inferId } script = .error e →
      ∃ e', parse ids { strict := true, inferId } script = .error e' ∧
        (e' = e ∨ e'.isReference = false) := by
  constructor
  · intro m hm
    obtain ⟨d, hd, hresolve⟩ := bind_eq_ok_iff.1 hm
    have hlenient := Draft.ofStatements_extendedBy _ d hd
    have hdistinct := (Draft.ofStatements_sound hd).toDistinct
    obtain ⟨hdeclares, hlinked, -⟩ := declares_of_resolve hids hdistinct hresolve
    obtain ⟨m', hm', houtline⟩ := exists_resolve_of_declares hids' hdistinct hdeclares
    obtain ⟨-, hlinked', -⟩ := declares_of_resolve hids' hdistinct hm'
    exact ⟨bind_eq_ok_iff.2 ⟨d, hlenient, hresolve⟩, m', bind_eq_ok_iff.2 ⟨d, hlenient, hm'⟩,
      hlinked, hlinked', houtline⟩
  · intro e he
    cases hd : Draft.ofStatements { strict := true, inferId } (statements script.toList) with
    | error e' =>
      refine ⟨e', ?_, .inr (Draft.isReference_of_ofStatements hd)⟩
      rw [parse, hd]
      rfl
    | ok d =>
      refine ⟨e, ?_, .inl rfl⟩
      rw [← he, parse, parse, hd, Draft.ofStatements_extendedBy _ d hd]

/-- A script that both read alike, and one that lenient reading refuses for its comment and strict
reading for the statement before it. -/
theorem parse_lenient_of_strict_enum :
    (∃ m, parse .positional { strict := true, inferId := false }
        "CREATE TYPE mood AS ENUM ('sad'); CREATE TABLE t (id int, m mood, UNIQUE (m));" = .ok m ∧
      parse .positional { strict := false, inferId := false }
        "CREATE TYPE mood AS ENUM ('sad'); CREATE TABLE t (id int, m mood, UNIQUE (m));" = .ok m ∧
      m.Linked) ∧
    ∃ e, e ≠ .missingCommentTarget "public.t" ∧
      parse .positional { strict := false, inferId := false } "VACUUM; COMMENT ON TABLE t IS 'x';" =
        .error (.missingCommentTarget "public.t") ∧
      parse .positional { strict := true, inferId := false } "VACUUM; COMMENT ON TABLE t IS 'x';" =
        .error e := by
  have hread : (parse .positional { strict := true, inferId := false }
      "CREATE TYPE mood AS ENUM ('sad'); CREATE TABLE t (id int, m mood, UNIQUE (m));").toOption.isSome := by
    decide +kernel
  obtain ⟨m, hm⟩ := Option.isSome_iff_exists.1 hread
  have hm := toOption_eq_some_iff.1 hm
  obtain ⟨hlenient, m', -, hlinked, -⟩ := (parse_lenient_of_strict Ids.distinct_positional
    Ids.distinct_positional false _).1 m hm
  refine ⟨⟨m, hm, hlenient, hlinked⟩, ?_⟩
  have hreports : (match parse .positional { strict := false, inferId := false }
      "VACUUM; COMMENT ON TABLE t IS 'x';" with
    | .error e => e == .missingCommentTarget "public.t"
    | .ok _ => false) = true := by decide +kernel
  have hstops : (match parse .positional { strict := true, inferId := false }
      "VACUUM; COMMENT ON TABLE t IS 'x';" with
    | .error e => e != .missingCommentTarget "public.t"
    | .ok _ => false) = true := by decide +kernel
  cases hfails : parse .positional { strict := false, inferId := false }
      "VACUUM; COMMENT ON TABLE t IS 'x';" with
  | ok m =>
    rw [hfails] at hreports
    cases hreports
  | error e =>
    rw [hfails] at hreports
    obtain ⟨e', he', -⟩ := (parse_lenient_of_strict Ids.distinct_positional Ids.distinct_positional
      false _).2 e hfails
    rw [he'] at hstops
    exact ⟨e', bne_iff_ne.1 hstops, by rw [eq_of_beq hreports], he'⟩

end SchemaDdl
