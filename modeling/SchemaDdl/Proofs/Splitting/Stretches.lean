import SchemaDdl.Proofs.Splitting.Agreement
import SchemaDdl.Proofs.Splitting.Joined

/-!
# Stretches on their own

What a cut leaves is not cut again, wherever it is written. So a stretch of a script is one stretch on
its own, trimmed or not, and a statement is split into itself.
-/

namespace SchemaDdl.Script

/-! ## Cutting what was cut out -/

section Cut

variable {sep c : Char} {depth : Nat} {r : Region} {p q : List Char} {ps : List (List Char)}

theorem exists_of_modifyHead_eq_cons {f : List Char → List Char} {parts : List (List Char)}
    (h : parts.modifyHead f = p :: ps) : ∃ first, parts = first :: ps ∧ p = f first := by
  cases parts with
  | nil => cases h
  | cons first rest =>
    obtain ⟨rfl, rfl⟩ := List.cons.inj h
    exact ⟨first, rfl, rfl⟩

theorem joins_to_mem_controls {d : Char} (h : d ∈ controls) (r : Region) (c : Char) :
    r.joins c d = false := by
  simp only [controls, List.mem_cons, List.not_mem_nil, or_false] at h
  rcases h with rfl | rfl | rfl | rfl <;> cases r <;> simp [Region.joins]

/-- A live separator at depth 0 ends the first part. -/
theorem cut_of_live (hsep : sep ∈ controls)
    (hlive : (depth == 0 && (Piece.single r c).isLive sep) = true) :
    c = sep ∧ ∀ cs, cut sep depth (pieces r (c :: cs)) = [] :: cut sep 0 (pieces .plain cs) := by
  obtain ⟨rfl, hplain⟩ := eq_of_isLive_single (Bool.and_eq_true _ _ ▸ hlive).2
  refine ⟨rfl, fun cs => ?_⟩
  rw [pieces_single fun d _ => joins_of_mem_controls hsep r d, hplain, cut, hlive, if_pos rfl]

theorem cut_of_stays {piece : Piece} (hstays : (depth == 0 && piece.isLive sep) = false)
    (rest : List Piece) : cut sep depth (piece :: rest) =
      (cut sep (piece.depthAfter depth) rest).modifyHead (piece.chars ++ ·) := by
  rw [cut, hstays, if_neg Bool.false_ne_true]

/-- The first part of a cut reaches up to a separator, and is cut off there whatever follows. -/
theorem cut_first (hsep : sep ∈ controls) {cs : List Char}
    (h : cut sep depth (pieces r cs) = p :: q :: ps) :
    ∃ rest, cs = p ++ sep :: rest ∧ cut sep 0 (pieces .plain rest) = q :: ps ∧
      ∀ more, cut sep depth (pieces r (p ++ sep :: more)) = p :: cut sep 0 (pieces .plain more) := by
  fun_induction pieces r cs generalizing depth p with
  | case1 r => cases h
  | case2 r c =>
    cases hlive : depth == 0 && (Piece.single r c).isLive sep with
    | true =>
      obtain ⟨rfl, hcut⟩ := cut_of_live hsep hlive
      obtain ⟨rfl, hrest⟩ := List.cons.inj ((hcut []).symm.trans h)
      exact ⟨[], rfl, hrest, hcut⟩
    | false =>
      rw [cut_of_stays hlive] at h
      cases h
  | case3 r c d cs hjoins ih =>
    rw [cut_of_stays (Bool.and_false _)] at h
    obtain ⟨first, hfirst, rfl⟩ := exists_of_modifyHead_eq_cons h
    obtain ⟨rest, rfl, hrest, hmore⟩ := ih hfirst
    refine ⟨rest, rfl, hrest, fun more => ?_⟩
    have hpieces : pieces r (c :: d :: (first ++ sep :: more)) = _ := pieces_pair hjoins _
    have hstays : (depth == 0 && (Piece.pair c d).isLive sep) = false := Bool.and_false _
    have hcut := cut_of_stays hstays (pieces (r.afterPair c) (first ++ sep :: more))
    rw [← hpieces, hmore more] at hcut
    exact hcut
  | case4 r c d cs hjoins ih =>
    cases hlive : depth == 0 && (Piece.single r c).isLive sep with
    | true =>
      obtain ⟨rfl, hcut⟩ := cut_of_live hsep hlive
      have hpieces : pieces r (c :: d :: cs) = _ := pieces_single fun e he => by
        cases he
        exact Bool.eq_false_iff.2 hjoins
      rw [← hpieces] at h
      obtain ⟨rfl, hrest⟩ := List.cons.inj ((hcut (d :: cs)).symm.trans h)
      exact ⟨d :: cs, rfl, hrest, hcut⟩
    | false =>
      rw [cut_of_stays hlive] at h
      obtain ⟨first, hfirst, rfl⟩ := exists_of_modifyHead_eq_cons h
      obtain ⟨rest, heq, hrest, hmore⟩ := ih hfirst
      refine ⟨rest, by rw [heq]; rfl, hrest, fun more => ?_⟩
      have hpieces : pieces r (c :: (first ++ sep :: more)) = _ := pieces_single fun e he => by
        cases first with
        | nil =>
          cases he
          exact joins_to_mem_controls hsep r c
        | cons e' first =>
          cases he
          cases heq
          exact Bool.eq_false_iff.2 hjoins
      have hcut := cut_of_stays hlive (pieces (r.afterOne c) (first ++ sep :: more))
      rw [← hpieces, hmore more] at hcut
      exact hcut

/-- What stands in front of a text without a separator has none either. -/
theorem cut_eq_singleton_of_append (hsep : sep ∈ controls) {a b : List Char}
    (h : cut sep depth (pieces r (a ++ b)) = [a ++ b]) : cut sep depth (pieces r a) = [a] := by
  cases hcut : cut sep depth (pieces r a) with
  | nil => exact absurd hcut (cut_ne_nil _ _ _)
  | cons p ps =>
    cases ps with
    | nil =>
      have hwhole := intercalate_cut sep depth (pieces r a)
      rw [hcut, flatMap_chars_pieces] at hwhole
      exact congrArg (fun a => [a]) (by simpa using hwhole)
    | cons q ps =>
      obtain ⟨rest, rfl, -, hmore⟩ := cut_first hsep hcut
      have hsplit := hmore (rest ++ b)
      rw [List.append_assoc, List.cons_append] at h
      rw [h] at hsplit
      exact absurd (List.cons.inj hsplit).2.symm (cut_ne_nil _ _ _)

end Cut

/-! ## Stretches on their own -/

/-- The text is one stretch, perhaps with nothing behind the semicolon that ends it. -/
def IsStretch (s : List Char) : Prop :=
  stretches s = [s] ∨ stretches s = [s, []]

theorem stretches_of_cut_cons {text p q : List Char} {ps : List (List Char)}
    (h : cut ';' 0 (pieces .plain text) = p :: q :: ps) :
    stretches text = (p ++ [';']) :: stretches.terminated (q :: ps) := by
  rw [stretches, h]
  rfl

theorem stretches_of_cut_singleton {text p : List Char}
    (h : cut ';' 0 (pieces .plain text) = [p]) : stretches text = [p] ∧ p = text := by
  have hwhole := intercalate_cut ';' 0 (pieces .plain text)
  rw [h, flatMap_chars_pieces] at hwhole
  exact ⟨by rw [stretches, h]; rfl, by simpa using hwhole⟩

theorem isStretch_of_mem_stretches {text s : List Char} (h : s ∈ stretches text) : IsStretch s := by
  generalize hparts : cut ';' 0 (pieces .plain text) = parts
  induction parts generalizing text with
  | nil => exact absurd hparts (cut_ne_nil _ _ _)
  | cons p ps ih =>
    cases ps with
    | nil =>
      obtain ⟨hstretches, rfl⟩ := stretches_of_cut_singleton hparts
      rw [hstretches, List.mem_singleton] at h
      subst h
      exact .inl hstretches
    | cons q ps =>
      obtain ⟨rest, rfl, hrest, hmore⟩ := cut_first (by decide) hparts
      rw [stretches_of_cut_cons hparts, ← hrest] at h
      rcases List.mem_cons.1 h with rfl | h
      · exact .inr (stretches_of_cut_cons (hmore []))
      · exact ih h hrest

theorem stretches_blanks_append {blanks : List Char} (h : ∀ c ∈ blanks, Text.isBlank c = true)
    (s : List Char) : stretches (blanks ++ s) = (stretches s).modifyHead (blanks ++ ·) := by
  rw [stretches, cut_blanks_append (by decide) h, terminated_modifyHead]
  rfl

namespace IsStretch

variable {s blanks : List Char}

theorem of_blanks_append (hblanks : ∀ c ∈ blanks, Text.isBlank c = true)
    (h : IsStretch (blanks ++ s)) : IsStretch s := by
  rw [IsStretch, stretches_blanks_append hblanks] at h
  rcases h with h | h
  · obtain ⟨s', hs, heq⟩ := exists_of_modifyHead_eq_cons h
    obtain rfl := List.append_cancel_left heq
    exact .inl hs
  · obtain ⟨s', hs, heq⟩ := exists_of_modifyHead_eq_cons h
    obtain rfl := List.append_cancel_left heq
    exact .inr hs

theorem of_append_blanks (hblanks : ∀ c ∈ blanks, Text.isBlank c = true)
    (h : IsStretch (s ++ blanks)) : IsStretch s := by
  cases hcut : cut ';' 0 (pieces .plain (s ++ blanks)) with
  | nil => exact absurd hcut (cut_ne_nil _ _ _)
  | cons p ps =>
    cases ps with
    | nil =>
      obtain ⟨-, rfl⟩ := stretches_of_cut_singleton hcut
      have hs := cut_eq_singleton_of_append (by decide) hcut
      exact .inl (by rw [stretches, hs]; rfl)
    | cons q ps =>
      -- the stretch ends in a semicolon, so no white space is behind it
      have hends : s ++ blanks = p ++ [';'] := by
        rw [IsStretch, stretches_of_cut_cons hcut] at h
        rcases h with h | h
        · exact (List.cons.inj h).1.symm
        · exact (List.cons.inj h).1.symm
      rcases List.eq_nil_or_concat blanks with rfl | ⟨front, c, rfl⟩
      · rwa [List.append_nil] at h
      · rw [List.concat_eq_append, ← List.append_assoc] at hends
        have hc : c = ';' := List.singleton_inj.1 (List.append_inj' hends rfl).2
        subst hc
        exact absurd (hblanks ';' (by simp)) (by decide)

theorem trim (h : IsStretch s) : IsStretch (Text.trim s) := by
  obtain ⟨before, after, hs, hbefore, hafter⟩ := Text.exists_trim s
  rw [hs] at h
  exact of_append_blanks hafter (of_blanks_append hbefore h)

end IsStretch

theorem takeWhile_isBlank_trim (s : List Char) : (Text.trim s).takeWhile Text.isBlank = [] := by
  cases htrim : Text.trim s with
  | nil => rfl
  | cons c cs =>
    have hc := Text.isBlank_of_head?_trim (congrArg List.head? htrim)
    rw [List.takeWhile_cons, hc]
    rfl

theorem statementAt_eq (line : Nat) (s : List Char) :
    statementAt line s = if isBare (Text.trim s) then none else
      some ⟨line + newlines (s.takeWhile Text.isBlank), Text.trim s⟩ :=
  rfl

/-- A statement is split into itself. -/
theorem statements_of_isStretch {s : List Char} (h : IsStretch s)
    (hbare : isBare (Text.trim s) = false) : statements (Text.trim s) = [⟨1, Text.trim s⟩] := by
  have hat : statementAt 1 (Text.trim s) = some ⟨1, Text.trim s⟩ := by
    rw [statementAt_eq, Text.trim_trim, takeWhile_isBlank_trim, hbare]
    rfl
  have hnil (line : Nat) : statementAt line [] = none := statementAt_blanks (by simp) line
  rcases h.trim with h | h
  · rw [statements, h, numberedStatements, hat]
    rfl
  · rw [statements, h, numberedStatements, numberedStatements, hat, hnil]
    rfl

/-! ## Lines -/

/-- Consecutive stretches that start on the given line, each with the lines in front of it. -/
theorem numberedStatements_eq (line : Nat) (ss : List (List Char)) :
    numberedStatements line ss = ss.zipIdx.filterMap fun (s, i) =>
      statementAt (line + newlines (ss.take i).flatten) s := by
  induction ss generalizing line with
  | nil => rfl
  | cons s ss ih =>
    have hrest : (ss.zipIdx 1).filterMap (fun (t, i) =>
          statementAt (line + newlines ((s :: ss).take i).flatten) t) =
        ss.zipIdx.filterMap fun (t, i) =>
          statementAt (line + newlines s + newlines (ss.take i).flatten) t := by
      rw [List.zipIdx_succ, List.filterMap_map]
      refine congrArg (List.filterMap · ss.zipIdx) (funext fun (t, i) => ?_)
      change statementAt (line + newlines (s ++ (ss.take i).flatten)) t = _
      rw [newlines_append, ← Nat.add_assoc]
    have hfirst : statementAt (line + newlines ((s :: ss).take 0).flatten) s = statementAt line s := rfl
    rw [numberedStatements, ih, List.zipIdx_cons, List.filterMap_cons, hrest]
    simp only [hfirst]
    cases statementAt line s <;> rfl

end SchemaDdl.Script
