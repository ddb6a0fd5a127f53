import SchemaDdl.Proofs.Lexing.Trim
import SchemaDdl.Proofs.Splitting.Pieces
import SchemaDdl.Script.Statement

/-!
# Scripts one behind the other

Behind a semicolon that ends a statement a script is read as if it started there. So two scripts in a
row are split into the statements of the first and, some lines further down, those of the second.
-/

namespace SchemaDdl.Script

/-- Nothing but white space stands behind the last semicolon that ends a statement. -/
def EndsStatement (script : List Char) : Prop :=
  ∃ front last, stretches script = front ++ [last] ∧ front ≠ [] ∧ ∀ c ∈ last, Text.isBlank c = true

/-! ## Cutting -/

theorem joins_of_mem_controls {c : Char} (h : c ∈ controls) (r : Region) (d : Char) :
    r.joins c d = false := by
  simp only [controls, List.mem_cons, List.not_mem_nil, or_false] at h
  rcases h with rfl | rfl | rfl | rfl <;> cases r <;> simp [Region.joins]

/-- A live character is itself and leaves quotes and comments behind. -/
theorem eq_of_isLive_single {r : Region} {c sep : Char} (h : (Piece.single r c).isLive sep = true) :
    c = sep ∧ r.afterOne c = .plain := by
  simpa [Piece.isLive, Piece.single, and_comm] using h

/-- White space is cut nowhere. -/
theorem cut_blanks_append {sep : Char} (hsep : sep ∈ controls) {blanks : List Char}
    (h : ∀ c ∈ blanks, Text.isBlank c = true) (b : List Char) :
    cut sep 0 (pieces .plain (blanks ++ b)) =
      (cut sep 0 (pieces .plain b)).modifyHead (blanks ++ ·) :=
  ((closedGap_of_blanks h).quietlyRead b).cut_eq hsep 0

section Cut

variable {sep : Char} {depth : Nat} {a b last : List Char} {front : List (List Char)}

theorem front_eq_nil_of_singleton {x : List Char} (h : [x] = front ++ [last]) : front = [] := by
  have hlength := congrArg List.length h
  simpa using hlength

/-- A first part that is made longer keeps the last one apart. -/
theorem exists_of_modifyHead_eq {f : List Char → List Char} {parts : List (List Char)}
    (h : parts.modifyHead f = front ++ [last]) (hfront : front ≠ []) :
    ∃ first more, parts = first :: more ++ [last] ∧ front = f first :: more := by
  obtain ⟨x, more, rfl⟩ := List.exists_cons_of_ne_nil hfront
  cases parts with
  | nil => cases h
  | cons first rest =>
    rw [List.modifyHead_cons, List.cons_append, List.cons.injEq] at h
    obtain ⟨rfl, rfl⟩ := h
    exact ⟨first, more, rfl, rfl⟩

/-- Behind a separator everything starts afresh, and all of `a` may be white space. -/
theorem cut_separator_append (hsep : sep ∈ controls) {r : Region} {c : Char}
    (hlive : (depth == 0 && (Piece.single r c).isLive sep) = true)
    (ih : ∀ {front : List (List Char)}, cut sep 0 (pieces (r.afterOne c) a) = front ++ [last] →
      front ≠ [] → cut sep 0 (pieces (r.afterOne c) (a ++ b)) =
        front ++ (cut sep 0 (pieces .plain b)).modifyHead (last ++ ·))
    (h : cut sep depth (pieces r (c :: a)) = front ++ [last])
    (hlast : ∀ c ∈ last, Text.isBlank c = true) :
    cut sep depth (pieces r (c :: (a ++ b))) =
      front ++ (cut sep 0 (pieces .plain b)).modifyHead (last ++ ·) := by
  obtain ⟨rfl, hplain⟩ := eq_of_isLive_single (Bool.and_eq_true _ _ ▸ hlive).2
  have hsingle (cs : List Char) : pieces r (c :: cs) = .single r c :: pieces .plain cs := by
    rw [pieces_single fun d _ => joins_of_mem_controls hsep r d, hplain]
  rw [hplain] at ih
  rw [hsingle, cut, hlive, if_pos rfl] at h ⊢
  cases front with
  | nil =>
    have hcut : cut c 0 (pieces .plain a) = [] := (List.cons.inj h).2
    exact absurd hcut (cut_ne_nil _ _ _)
  | cons first front =>
    obtain ⟨rfl, htail⟩ := List.cons.inj h
    rw [List.cons_append]
    refine congrArg ([] :: ·) ?_
    by_cases hfront : front = []
    -- without another separator the induction hypothesis is not for use: `a` is the last part
    · have hwhole := intercalate_cut c 0 (pieces .plain a)
      rw [flatMap_chars_pieces, htail, hfront] at hwhole
      have ha : last = a := by simpa using hwhole
      rw [hfront, List.nil_append, ← ha]
      exact cut_blanks_append hsep hlast b
    · exact ih htail hfront

/-- A piece that is no separator stays in front of the first part. -/
theorem cut_piece_append {p : Piece} {ps qs : List Piece} {rest : List (List Char)}
    (hstays : (depth == 0 && p.isLive sep) = false)
    (ih : ∀ {front : List (List Char)}, cut sep (p.depthAfter depth) ps = front ++ [last] → front ≠ [] →
      cut sep (p.depthAfter depth) qs = front ++ rest)
    (h : cut sep depth (p :: ps) = front ++ [last]) (hfront : front ≠ []) :
    cut sep depth (p :: qs) = front ++ rest := by
  rw [cut, hstays, if_neg Bool.false_ne_true] at h ⊢
  obtain ⟨first, more, hcut, rfl⟩ := exists_of_modifyHead_eq h hfront
  rw [ih hcut (List.cons_ne_nil first more)]
  rfl

/-- A cut goes on behind white space that follows a separator as if the text started there. -/
theorem cut_append (hsep : sep ∈ controls) {r : Region} (h : cut sep depth (pieces r a) = front ++ [last])
    (hfront : front ≠ []) (hlast : ∀ c ∈ last, Text.isBlank c = true) :
    cut sep depth (pieces r (a ++ b)) =
      front ++ (cut sep 0 (pieces .plain b)).modifyHead (last ++ ·) := by
  fun_induction pieces r a generalizing depth front with
  | case1 r => exact absurd (front_eq_nil_of_singleton h) hfront
  | case2 r c =>
    cases hlive : depth == 0 && (Piece.single r c).isLive sep with
    | true =>
      refine cut_separator_append hsep hlive ?_ h hlast
      exact fun hcut hfront => absurd (front_eq_nil_of_singleton hcut) hfront
    | false =>
      rw [cut, hlive] at h
      exact absurd (front_eq_nil_of_singleton h) hfront
  | case3 r c d cs hjoins ih =>
    rw [List.cons_append, List.cons_append, pieces_pair hjoins]
    exact cut_piece_append (Bool.and_false _) ih h hfront
  | case4 r c d cs hjoins ih =>
    have hpieces (cs : List Char) :
        pieces r (c :: d :: cs) = .single r c :: pieces (r.afterOne c) (d :: cs) := by
      rw [pieces, if_neg hjoins]
    cases hlive : depth == 0 && (Piece.single r c).isLive sep with
    | true =>
      rw [← hpieces] at h
      exact cut_separator_append hsep hlive ih h hlast
    | false =>
      rw [List.cons_append, List.cons_append, hpieces]
      exact cut_piece_append hlive ih h hfront

end Cut

/-! ## Stretches -/

theorem terminated_cons (s : List Char) {ss : List (List Char)} (h : ss ≠ []) :
    stretches.terminated (s :: ss) = (s ++ [';']) :: stretches.terminated ss := by
  cases ss with
  | nil => exact absurd rfl h
  | cons => rfl

theorem terminated_append (front : List (List Char)) {ss : List (List Char)} (h : ss ≠ []) :
    stretches.terminated (front ++ ss) = front.map (· ++ [';']) ++ stretches.terminated ss := by
  induction front with
  | nil => rfl
  | cons s front ih =>
    rw [List.cons_append, terminated_cons s (List.append_ne_nil_of_right_ne_nil front h), ih]
    rfl

/-- What stands in front of the first stretch has no part in the semicolons. -/
theorem terminated_modifyHead (before : List Char) (ss : List (List Char)) :
    stretches.terminated (ss.modifyHead (before ++ ·)) =
      (stretches.terminated ss).modifyHead (before ++ ·) := by
  fun_cases stretches.terminated ss with
  | case1 => rfl
  | case2 s => rfl
  | case3 s rest hrest =>
    rw [List.modifyHead_cons, terminated_cons _ hrest, List.modifyHead_cons, List.append_assoc]

theorem stretches_ne_nil (script : List Char) : stretches script ≠ [] := by
  obtain ⟨s, ss, hcut⟩ := List.exists_cons_of_ne_nil (cut_ne_nil ';' 0 (pieces .plain script))
  rw [stretches, hcut]
  cases ss <;> exact List.cons_ne_nil _ _

theorem stretches_append {a : List Char} (b : List Char) {front : List (List Char)} {last : List Char}
    (h : stretches a = front ++ [last]) (hfront : front ≠ [])
    (hlast : ∀ c ∈ last, Text.isBlank c = true) :
    stretches (a ++ b) = front ++ (stretches b).modifyHead (last ++ ·) := by
  obtain ⟨cuts, final, hcut⟩ : ∃ cuts final, cut ';' 0 (pieces .plain a) = cuts ++ [final] :=
    ⟨_, _, (List.dropLast_concat_getLast (cut_ne_nil ';' 0 (pieces .plain a))).symm⟩
  rw [stretches, hcut, terminated_append cuts (List.cons_ne_nil final [])] at h
  obtain ⟨rfl, hfinal⟩ := List.append_inj' h rfl
  obtain rfl : final = last := (List.cons.inj hfinal).1
  have hcuts : cuts ≠ [] := fun hnil => hfront (by rw [hnil]; rfl)
  have hrest : (cut ';' 0 (pieces .plain b)).modifyHead (final ++ ·) ≠ [] := by
    rw [ne_eq, List.modifyHead_eq_nil_iff]
    exact cut_ne_nil _ _ _
  rw [stretches, cut_append (by decide) hcut hcuts hlast, terminated_append cuts hrest,
    terminated_modifyHead]
  rfl

/-! ## Statements -/

/-- The statement as it stands `n` lines further down. -/
def Statement.lower (n : Nat) (s : Statement) : Statement :=
  { s with line := n + s.line }

theorem newlines_append (a b : List Char) : newlines (a ++ b) = newlines a + newlines b :=
  List.count_append

theorem statementAt_blanks_append {blanks : List Char} (h : ∀ c ∈ blanks, Text.isBlank c = true)
    (line : Nat) (s : List Char) :
    statementAt line (blanks ++ s) = statementAt (line + newlines blanks) s := by
  rw [statementAt, statementAt, Text.trim_blanks_append h, List.takeWhile_append_of_pos h,
    newlines_append, Nat.add_assoc]

theorem statementAt_blanks {blanks : List Char} (h : ∀ c ∈ blanks, Text.isBlank c = true) (line : Nat) :
    statementAt line blanks = none := by
  rw [statementAt, Text.trim_eq_nil_iff.2 (List.all_eq_true.2 h)]
  rfl

theorem numberedStatements_append (line : Nat) (front ss : List (List Char)) :
    numberedStatements line (front ++ ss) =
      numberedStatements line front ++ numberedStatements (line + newlines front.flatten) ss := by
  induction front generalizing line with
  | nil => rfl
  | cons s front ih =>
    rw [List.cons_append, numberedStatements, numberedStatements, ih, List.flatten_cons, newlines_append,
      List.append_assoc, Nat.add_assoc]

theorem numberedStatements_modifyHead {blanks : List Char} (h : ∀ c ∈ blanks, Text.isBlank c = true)
    (line : Nat) {ss : List (List Char)} (hss : ss ≠ []) :
    numberedStatements line (ss.modifyHead (blanks ++ ·)) =
      numberedStatements (line + newlines blanks) ss := by
  obtain ⟨s, ss, rfl⟩ := List.exists_cons_of_ne_nil hss
  rw [List.modifyHead_cons, numberedStatements, numberedStatements, statementAt_blanks_append h,
    newlines_append, Nat.add_assoc]

theorem statementAt_add (n line : Nat) (s : List Char) :
    statementAt (n + line) s = (statementAt line s).map (Statement.lower n) := by
  rw [statementAt, statementAt]
  split
  · rfl
  · rw [Option.map_some, Statement.lower, Nat.add_assoc]

theorem numberedStatements_add (n line : Nat) (ss : List (List Char)) :
    numberedStatements (n + line) ss = (numberedStatements line ss).map (Statement.lower n) := by
  induction ss generalizing line with
  | nil => rfl
  | cons s ss ih =>
    rw [numberedStatements, numberedStatements, statementAt_add, Nat.add_assoc, ih, List.map_append]
    cases statementAt line s <;> rfl

/-- No statement stands above the line that the numbering starts from. -/
theorem le_line_of_mem_numberedStatements {line : Nat} {ss : List (List Char)} {s : Statement}
    (h : s ∈ numberedStatements line ss) : line ≤ s.line := by
  induction ss generalizing line with
  | nil => cases h
  | cons stretch ss ih =>
    rw [numberedStatements, List.mem_append] at h
    rcases h with h | h
    · rw [Option.mem_toList, statementAt] at h
      split at h
      · cases h
      · cases h
        exact Nat.le_add_right _ _
    · exact Nat.le_trans (Nat.le_add_right _ _) (ih h)

/-- The statements of two scripts in a row. -/
theorem statements_append {a : List Char} (h : EndsStatement a) (b : List Char) :
    statements (a ++ b) = statements a ++ (statements b).map (Statement.lower (newlines a)) := by
  obtain ⟨front, last, hstretches, hfront, hlast⟩ := h
  have ha : newlines a = newlines front.flatten + newlines last := by
    rw [← flatten_stretches a, hstretches, List.flatten_append, newlines_append, List.flatten_singleton]
  have hblank : numberedStatements (1 + newlines front.flatten) [last] = [] := by
    rw [numberedStatements, statementAt_blanks hlast]
    rfl
  have hlines : 1 + newlines front.flatten + newlines last = newlines a + 1 := by omega
  rw [statements, statements, statements, stretches_append b hstretches hfront hlast, hstretches,
    numberedStatements_append, numberedStatements_append, hblank, List.append_nil,
    numberedStatements_modifyHead hlast _ (stretches_ne_nil b), hlines, numberedStatements_add]

end SchemaDdl.Script
