import SchemaDdl.Proofs.Text.Classes
import SchemaDdl.Script.Lexeme

/-!
# Gaps

White space and comments as relations apart from the lexer. A closed gap is read whole whatever
follows, and every text is a gap up to a token, up to its end or up to a comment without an end.
-/

namespace SchemaDdl.Script

theorem lineComment_append {body : List Char} (h : '\n' ∉ body) (rest : List Char) :
    lineComment (body ++ '\n' :: rest) = (body ++ ['\n'], rest) := by
  induction body with
  | nil => simp [lineComment]
  | cons c body ih =>
    obtain ⟨hc, hb⟩ := not_or.1 (mt List.mem_cons.2 h)
    simp [lineComment, Ne.symm hc, ih hb]

theorem lineComment_of_notMem {body : List Char} (h : '\n' ∉ body) :
    lineComment body = (body, []) := by
  induction body with
  | nil => rfl
  | cons c body ih =>
    obtain ⟨hc, hb⟩ := not_or.1 (mt List.mem_cons.2 h)
    simp [lineComment, Ne.symm hc, ih hb]

theorem blockComment_eq_some {cs comment rest : List Char}
    (h : blockComment cs = some (comment, rest)) :
    cs = comment ++ rest ∧ blockComment comment = some (comment, []) := by
  fun_induction blockComment cs generalizing comment rest with
  | case1 cs =>
    cases h
    exact ⟨rfl, rfl⟩
  | case2 c cs hc ih =>
    obtain ⟨⟨a, b⟩, hab, heq⟩ := Option.map_eq_some_iff.1 h
    cases heq
    obtain ⟨rfl, ha⟩ := ih hab
    refine ⟨rfl, ?_⟩
    rw [blockComment, ha]
    · rfl
    · rintro d rfl rfl
      exact hc _ rfl rfl
  | case3 => cases h

theorem blockComment_append {body : List Char} (h : blockComment body = some (body, []))
    (rest : List Char) : blockComment (body ++ rest) = some (body, rest) := by
  fun_induction blockComment body with
  | case1 cs =>
    cases h
    simp [blockComment]
  | case2 c cs hc ih =>
    obtain ⟨⟨a, b⟩, hab, heq⟩ := Option.map_eq_some_iff.1 h
    cases heq
    rw [List.cons_append, blockComment, ih hab]
    · rfl
    · rintro d rfl heq
      cases cs with
      | nil => simp [blockComment] at hab
      | cons e cs =>
        cases heq
        exact hc _ rfl rfl
  | case3 => cases h

/-- White space and comments that have all ended. -/
inductive ClosedGap : List Char → Prop
  | nil : ClosedGap []
  | blank {c : Char} {g : List Char} : Text.isBlank c = true → ClosedGap g → ClosedGap (c :: g)
  | line {body g : List Char} :
      '\n' ∉ body → ClosedGap g → ClosedGap ('-' :: '-' :: (body ++ '\n' :: g))
  | block {body g : List Char} :
      blockComment body = some (body, []) → ClosedGap g → ClosedGap ('/' :: '*' :: (body ++ g))

/-- White space and comments at the end of a text, which may also end a line comment. -/
inductive FinalGap : List Char → Prop
  | closed {g : List Char} : ClosedGap g → FinalGap g
  | line {g body : List Char} : ClosedGap g → '\n' ∉ body → FinalGap (g ++ '-' :: '-' :: body)

theorem ClosedGap.append {g g' : List Char} (h : ClosedGap g) (h' : ClosedGap g') :
    ClosedGap (g ++ g') := by
  induction h with
  | nil => exact h'
  | blank hc _ ih => exact .blank hc ih
  | line hb _ ih =>
    have := ClosedGap.line hb ih
    simpa using this
  | block hb _ ih =>
    have := ClosedGap.block hb ih
    simpa using this

theorem ClosedGap.append_final {g g' : List Char} (h : ClosedGap g) (h' : FinalGap g') :
    FinalGap (g ++ g') := by
  cases h' with
  | closed h' => exact .closed (h.append h')
  | line h' hb =>
    have := FinalGap.line (h.append h') hb
    simpa using this

theorem gap_blank {c : Char} (h : Text.isBlank c = true) (cs : List Char) :
    gap (c :: cs) = (gap cs).map fun (g, rest) => (c :: g, rest) := by
  rw [gap.eq_4, if_pos h]
  · exact fun _ hc _ => absurd h (by subst hc; decide)
  · exact fun _ hc _ => absurd h (by subst hc; decide)

theorem gap_line {body : List Char} (h : '\n' ∉ body) (rest : List Char) :
    gap ('-' :: '-' :: (body ++ '\n' :: rest)) =
      (gap rest).map fun (g, rest) => ('-' :: '-' :: (body ++ '\n' :: g), rest) := by
  rw [gap, lineComment_append h]
  simp

theorem gap_block {body : List Char} (h : blockComment body = some (body, []))
    (rest : List Char) :
    gap ('/' :: '*' :: (body ++ rest)) =
      (gap rest).map fun (g, rest) => ('/' :: '*' :: (body ++ g), rest) := by
  rw [gap]
  split
  · rename_i hn
    simp [blockComment_append h] at hn
  · rename_i heq
    rw [blockComment_append h] at heq
    cases heq
    rfl

/-- A closed gap is read whole, whatever follows. -/
theorem ClosedGap.gap_append {g : List Char} (h : ClosedGap g) (rest : List Char) :
    gap (g ++ rest) = (gap rest).map fun p => (g ++ p.1, p.2) := by
  induction h with
  | nil => cases h : gap rest <;> simp [h, Except.map]
  | blank hc _ ih =>
    rw [List.cons_append, gap_blank hc, ih]
    cases gap rest <;> rfl
  | line hb _ ih =>
    rw [List.cons_append, List.cons_append, List.append_assoc, List.cons_append, gap_line hb, ih]
    cases gap rest <;> simp [Except.map]
  | block hb _ ih =>
    rw [List.cons_append, List.cons_append, List.append_assoc, gap_block hb, ih]
    cases gap rest <;> simp [Except.map]

theorem FinalGap.gap_eq {g : List Char} (h : FinalGap g) : gap g = .ok (g, []) := by
  cases h with
  | closed h =>
    have := h.gap_append []
    rw [List.append_nil] at this
    simp [this, gap, Except.map]
  | line h hb =>
    rw [h.gap_append, gap, lineComment_of_notMem hb]
    simp [gap, Except.map]

/-- No gap is in front of the text. -/
def NoGap (cs : List Char) : Prop :=
  gap cs = .ok ([], cs)

theorem noGap_cons {c : Char} {cs : List Char} (hb : Text.isBlank c = false)
    (hl : c = '-' → cs.head? ≠ some '-') (hs : c = '/' → cs.head? ≠ some '*') :
    NoGap (c :: cs) := by
  rw [NoGap, gap.eq_4, if_neg (by simp [hb])]
  · rintro d hc rfl
    exact hl hc rfl
  · rintro d hc rfl
    exact hs hc rfl

theorem NoGap.isBlank {c : Char} {cs : List Char} (h : NoGap (c :: cs)) :
    Text.isBlank c = false := by
  rw [Bool.eq_false_iff]
  intro hb
  rw [NoGap, gap_blank hb] at h
  obtain ⟨p, -, hp⟩ := exists_of_map_eq_ok h
  cases hp

theorem NoGap.head_ne_dash {cs : List Char} (h : NoGap ('-' :: cs)) : cs.head? ≠ some '-' := by
  intro hd
  cases cs with
  | nil => cases hd
  | cons d cs =>
    cases hd
    rw [NoGap, gap] at h
    obtain ⟨p, -, hp⟩ := exists_of_map_eq_ok h
    cases hp

theorem NoGap.head_ne_star {cs : List Char} (h : NoGap ('/' :: cs)) : cs.head? ≠ some '*' := by
  intro hd
  cases cs with
  | nil => cases hd
  | cons d cs =>
    cases hd
    rw [NoGap, gap] at h
    split at h
    · cases h
    · obtain ⟨p, -, hp⟩ := exists_of_map_eq_ok h
      cases hp

/-- A text starts with a gap. Behind it comes a token or the end of the text, or else the gap breaks
off in a block comment without an end. -/
inductive GapFront : List Char → Prop
  | final {g : List Char} : FinalGap g → GapFront g
  | token {g rest : List Char} {c : Char} :
      ClosedGap g → NoGap (c :: rest) → GapFront (g ++ c :: rest)
  | torn {g body : List Char} :
      ClosedGap g → blockComment body = none → GapFront (g ++ '/' :: '*' :: body)

theorem ClosedGap.append_front {g cs : List Char} (h : ClosedGap g) (h' : GapFront cs) :
    GapFront (g ++ cs) := by
  cases h' with
  | final h' => exact .final (h.append_final h')
  | token h' hc =>
    rw [← List.append_assoc]
    exact .token (h.append h') hc
  | torn h' hb =>
    rw [← List.append_assoc]
    exact .torn (h.append h') hb

/-- Every text starts with a gap. -/
theorem gapFront (cs : List Char) : GapFront cs := by
  fun_induction gap cs with
  | case1 => exact .final (.closed .nil)
  | case2 cs comment hle ih =>
    by_cases hn : '\n' ∈ cs
    · obtain ⟨body, rest, rfl, hb⟩ := List.eq_append_cons_of_mem hn
      have hcomment : comment = _ := lineComment_append hb rest
      rw [hcomment] at ih
      have hfront := (ClosedGap.line hb .nil).append_front ih
      simpa using hfront
    · exact .final (.line .nil hn)
  | case3 cs hb => exact .torn .nil hb
  | case4 cs comment behind hb hlt ih =>
    obtain ⟨rfl, hcomment⟩ := blockComment_eq_some hb
    have hfront := (ClosedGap.block hcomment .nil).append_front ih
    simpa using hfront
  | case5 c cs _ _ hc ih => exact (ClosedGap.blank hc .nil).append_front ih
  | case6 c cs hl hs hc =>
    refine .token .nil ?_
    rw [NoGap, gap.eq_4 _ _ hl hs, if_neg hc]

end SchemaDdl.Script
