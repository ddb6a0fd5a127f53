import Mathlib.Data.List.Forall2
import SchemaDdl.Proofs.Lexing.Trim

/-!
# Comments as white space

A text in which some comments are replaced by white space is read as the same tokens. Only the gaps
between them change, and each only by the comments that are replaced in it.
-/

namespace SchemaDdl.Script

/-- A comment that has ended, and the white space that can stand for it. The line break behind a line
comment is kept. -/
inductive Comment : List Char → List Char → Prop
  | line {body : List Char} : '\n' ∉ body → Comment ('-' :: '-' :: (body ++ ['\n'])) [' ', '\n']
  | block {body : List Char} : blockComment body = some (body, []) → Comment ('/' :: '*' :: body) [' ']

/-- A quoted text or a comment starts with the character `c` in front of `cs`. -/
def OpensRegion (c : Char) (cs : List Char) : Prop :=
  c = '"' ∨ c = '\'' ∨ (c = '-' ∧ cs.head? = some '-') ∨ (c = '/' ∧ cs.head? = some '*')

/-- A text and one in which some of its comments are blanked. What looks like a comment inside a
quoted text is none, and neither is one that does not end. -/
inductive Blanked : List Char → List Char → Prop
  | same (cs : List Char) : Blanked cs cs
  | char {c : Char} {cs cs' : List Char} :
      ¬ OpensRegion c cs → Blanked cs cs' → Blanked (c :: cs) (c :: cs')
  | quoted {q : Char} {v body cs cs' : List Char} : q = '"' ∨ q = '\'' →
      quotedText q body = some ⟨v, body, []⟩ → cs.head? ≠ some q → Blanked cs cs' →
        Blanked (q :: (body ++ cs)) (q :: (body ++ cs'))
  | kept {comment blank cs cs' : List Char} :
      Comment comment blank → Blanked cs cs' → Blanked (comment ++ cs) (comment ++ cs')
  | blank {comment blank cs cs' : List Char} :
      Comment comment blank → Blanked cs cs' → Blanked (comment ++ cs) (blank ++ cs')
  | last {body : List Char} : '\n' ∉ body → Blanked ('-' :: '-' :: body) [' ']

/-! ## Comments -/

namespace Comment

variable {comment blank comment' blank' cs cs' : List Char}

theorem exists_cons (h : Comment comment blank) :
    ∃ c cs, comment = c :: cs ∧ (c = '-' ∨ c = '/') ∧ ∀ rest, OpensRegion c (cs ++ rest) := by
  cases h with
  | line hbody => exact ⟨'-', _, rfl, .inl rfl, fun _ => .inr (.inr (.inl ⟨rfl, rfl⟩))⟩
  | block hbody => exact ⟨'/', _, rfl, .inr rfl, fun _ => .inr (.inr (.inr ⟨rfl, rfl⟩))⟩

/-- A text starts with one comment at most. -/
theorem unique (h : Comment comment blank) (h' : Comment comment' blank')
    (heq : comment ++ cs = comment' ++ cs') : comment = comment' ∧ blank = blank' ∧ cs = cs' := by
  cases h with
  | @line body hbody =>
    cases h' with
    | @line body' hbody' =>
      simp only [List.cons_append, List.append_assoc, List.cons.injEq, true_and] at heq
      have hread := lineComment_append hbody cs
      rw [show body ++ '\n' :: cs = body' ++ '\n' :: cs' from heq, lineComment_append hbody' cs'] at hread
      obtain ⟨hcomment, hrest⟩ := Prod.mk.inj hread
      exact ⟨by rw [hcomment], rfl, hrest.symm⟩
    | block => cases heq
  | @block body hbody =>
    cases h' with
    | line => cases heq
    | @block body' hbody' =>
      simp only [List.cons_append, List.cons.injEq, true_and] at heq
      have hread := blockComment_append hbody cs
      rw [heq, blockComment_append hbody' cs'] at hread
      obtain ⟨hcomment, hrest⟩ := Prod.mk.inj (Option.some.inj hread)
      exact ⟨by rw [hcomment], rfl, hrest.symm⟩

theorem closedGap_append (h : Comment comment blank) {g : List Char} (hg : ClosedGap g) :
    ClosedGap (comment ++ g) ∧ ClosedGap (blank ++ g) := by
  cases h with
  | line hbody =>
    have hcomment := ClosedGap.line hbody hg
    exact ⟨by simpa using hcomment, .blank (by decide) (.blank (by decide) hg)⟩
  | block hbody => exact ⟨.block hbody hg, .blank (by decide) hg⟩

end Comment

/-- A closed gap is made up of white space and comments. -/
@[elab_as_elim]
theorem ClosedGap.comment_induction {P : (g : List Char) → ClosedGap g → Prop} (nil : P [] .nil)
    (blank : ∀ {c g} (hc : Text.isBlank c = true) (hg : ClosedGap g), P g hg → P (c :: g) (.blank hc hg))
    (comment : ∀ {k b g} (hk : Comment k b) (hg : ClosedGap g), P g hg →
      P (k ++ g) (hk.closedGap_append hg).1) {g : List Char} (h : ClosedGap g) : P g h := by
  induction h with
  | nil => exact nil
  | blank hc hg ih => exact blank hc hg ih
  | line hbody hg ih =>
    have hline := comment (.line hbody) hg ih
    simpa using hline
  | block hbody hg ih => exact comment (.block hbody) hg ih

/-! ## Blanked texts, read from the front -/

theorem not_opensRegion_of_isBlank {c : Char} (h : Text.isBlank c = true) (cs : List Char) :
    ¬ OpensRegion c cs := by
  rintro (rfl | rfl | ⟨rfl, -⟩ | ⟨rfl, -⟩) <;> exact absurd h (by decide)

section Front

variable {c q : Char} {v body comment white cs x : List Char}

theorem blanked_nil_iff : Blanked [] x ↔ x = [] := by
  constructor
  · intro h
    generalize hnil : [] = y at h
    cases h with
    | same => rfl
    | kept hk =>
      obtain ⟨_, _, rfl, -⟩ := hk.exists_cons
      cases hnil
    | blank hk =>
      obtain ⟨_, _, rfl, -⟩ := hk.exists_cons
      cases hnil
    | _ => cases hnil
  · rintro rfl
    exact .same []

/-- A character outside quotes and comments stays. -/
theorem blanked_cons_iff (hc : ¬ OpensRegion c cs) :
    Blanked (c :: cs) x ↔ ∃ cs', x = c :: cs' ∧ Blanked cs cs' := by
  constructor
  · intro h
    generalize hy : c :: cs = y at h
    cases h with
    | same => exact ⟨cs, hy.symm, .same cs⟩
    | char _ h =>
      cases hy
      exact ⟨_, rfl, h⟩
    | quoted hq =>
      cases hy
      exact absurd (hq.imp_right .inl) hc
    | kept hk =>
      obtain ⟨_, _, rfl, -, hopens⟩ := hk.exists_cons
      cases hy
      exact absurd (hopens _) hc
    | blank hk =>
      obtain ⟨_, _, rfl, -, hopens⟩ := hk.exists_cons
      cases hy
      exact absurd (hopens _) hc
    | last =>
      cases hy
      exact absurd (.inr (.inr (.inl ⟨rfl, rfl⟩))) hc
  · rintro ⟨cs', rfl, h⟩
    exact .char hc h

/-- A quoted text stays. -/
theorem blanked_quoted_iff (hq : q = '"' ∨ q = '\'') (hbody : quotedText q body = some ⟨v, body, []⟩)
    (hcs : cs.head? ≠ some q) :
    Blanked (q :: (body ++ cs)) x ↔ ∃ cs', x = q :: (body ++ cs') ∧ Blanked cs cs' := by
  have hmark {d : Char} (hd : d = '-' ∨ d = '/') : q ≠ d := by
    rcases hq with rfl | rfl <;> rcases hd with rfl | rfl <;> decide
  constructor
  · intro h
    generalize hy : q :: (body ++ cs) = y at h
    cases h with
    | same => exact ⟨cs, hy.symm, .same cs⟩
    | char hnot =>
      obtain ⟨rfl, -⟩ := List.cons.inj hy
      exact absurd (hq.imp_right .inl) hnot
    | quoted _ hbody' hcs' h =>
      obtain ⟨rfl, htext⟩ := List.cons.inj hy
      have hread := quotedText_append hbody hcs
      rw [htext, quotedText_append hbody' hcs'] at hread
      cases hread
      exact ⟨_, rfl, h⟩
    | kept hk =>
      obtain ⟨d, _, rfl, hd, -⟩ := hk.exists_cons
      exact absurd (List.cons.inj hy).1 (hmark hd)
    | blank hk =>
      obtain ⟨d, _, rfl, hd, -⟩ := hk.exists_cons
      exact absurd (List.cons.inj hy).1 (hmark hd)
    | last => exact absurd (List.cons.inj hy).1 (hmark (.inl rfl))
  · rintro ⟨cs', rfl, h⟩
    exact .quoted hq hbody hcs h

/-- A comment stays or is blanked. -/
theorem blanked_comment_iff (hk : Comment comment white) :
    Blanked (comment ++ cs) x ↔
      ∃ cs', (x = comment ++ cs' ∨ x = white ++ cs') ∧ Blanked cs cs' := by
  constructor
  · intro h
    obtain ⟨c, rest, hcomment, hc, hopens⟩ := hk.exists_cons
    generalize hy : comment ++ cs = y at h
    cases h with
    | same => exact ⟨cs, .inl hy.symm, .same cs⟩
    | char hnot =>
      rw [hcomment] at hy
      obtain ⟨rfl, rfl⟩ := List.cons.inj hy
      exact absurd (hopens cs) hnot
    | quoted hq =>
      rw [hcomment] at hy
      obtain ⟨rfl, -⟩ := List.cons.inj hy
      rcases hq with rfl | rfl <;> exact absurd hc (by decide)
    | kept hk' h =>
      obtain ⟨rfl, rfl, rfl⟩ := hk.unique hk' hy
      exact ⟨_, .inl rfl, h⟩
    | blank hk' h =>
      obtain ⟨rfl, rfl, rfl⟩ := hk.unique hk' hy
      exact ⟨_, .inr rfl, h⟩
    | last hbody =>
      cases hk with
      | line =>
        simp only [List.cons_append, List.cons.injEq, true_and] at hy
        exact absurd (by simp [← hy]) hbody
      | block => cases hy
  · rintro ⟨cs', rfl | rfl, h⟩
    · exact .kept hk h
    · exact .blank hk h

/-- A line comment at the end of a text stays or is blanked. -/
theorem eq_of_blanked_last (hbody : '\n' ∉ body) (h : Blanked ('-' :: '-' :: body) x) :
    x = '-' :: '-' :: body ∨ x = [' '] := by
  generalize hy : '-' :: '-' :: body = y at h
  cases h with
  | same => exact .inl rfl
  | char hnot =>
    obtain ⟨rfl, rfl⟩ := List.cons.inj hy
    exact absurd (.inr (.inr (.inl ⟨rfl, rfl⟩))) hnot
  | quoted hq =>
    obtain ⟨rfl, -⟩ := List.cons.inj hy
    rcases hq with hq | hq <;> cases hq
  | kept hk =>
    cases hk with
    | line =>
      simp only [List.cons_append, List.cons.injEq, true_and] at hy
      exact absurd (by simp [hy]) hbody
    | block => cases hy
  | blank hk =>
    cases hk with
    | line =>
      simp only [List.cons_append, List.cons.injEq, true_and] at hy
      exact absurd (by simp [hy]) hbody
    | block => cases hy
  | last => exact .inr rfl

/-- Nothing is blanked from a block comment on that does not end. -/
theorem eq_of_blanked_unclosed (hbody : blockComment body = none) (h : Blanked ('/' :: '*' :: body) x) :
    x = '/' :: '*' :: body := by
  generalize hy : '/' :: '*' :: body = y at h
  have hnone {k b cs : List Char} (hk : Comment k b) (heq : '/' :: '*' :: body = k ++ cs) : False := by
    cases hk with
    | line => cases heq
    | block hk =>
      simp only [List.cons_append, List.cons.injEq, true_and] at heq
      rw [heq, blockComment_append hk] at hbody
      cases hbody
  cases h with
  | same => rfl
  | char hnot =>
    obtain ⟨rfl, rfl⟩ := List.cons.inj hy
    exact absurd (.inr (.inr (.inr ⟨rfl, rfl⟩))) hnot
  | quoted hq =>
    obtain ⟨rfl, -⟩ := List.cons.inj hy
    rcases hq with hq | hq <;> cases hq
  | kept hk => exact (hnone hk hy).elim
  | blank hk => exact (hnone hk hy).elim
  | last => cases hy

/-- Nothing is blanked from a quoted text on that does not end. -/
theorem eq_of_blanked_unquoted (hq : q = '"' ∨ q = '\'') (hbody : quotedText q body = none)
    (h : Blanked (q :: body) x) : x = q :: body := by
  have hmark {k b cs : List Char} (hk : Comment k b) (heq : q :: body = k ++ cs) : False := by
    obtain ⟨d, _, rfl, hd, -⟩ := hk.exists_cons
    obtain ⟨rfl, -⟩ := List.cons.inj heq
    rcases hq with rfl | rfl <;> exact absurd hd (by decide)
  generalize hy : q :: body = y at h
  cases h with
  | same => rfl
  | char hnot =>
    obtain ⟨rfl, -⟩ := List.cons.inj hy
    exact absurd (hq.imp_right .inl) hnot
  | quoted _ hbody' hcs =>
    obtain ⟨rfl, rfl⟩ := List.cons.inj hy
    rw [quotedText_append hbody' hcs] at hbody
    cases hbody
  | kept hk => exact (hmark hk hy).elim
  | blank hk => exact (hmark hk hy).elim
  | last =>
    obtain ⟨rfl, -⟩ := List.cons.inj hy
    rcases hq with hq | hq <;> cases hq

/-- A text still starts with the same character or now with a space. -/
theorem Blanked.head? (h : Blanked cs x) : x.head? = cs.head? ∨ x.head? = some ' ' := by
  cases h with
  | kept hk =>
    obtain ⟨_, _, rfl, -⟩ := hk.exists_cons
    exact .inl rfl
  | blank hk => cases hk <;> exact .inr rfl
  | last => exact .inr rfl
  | _ => exact .inl rfl

theorem Token.EndsAt.blanked {t : Token} (ht : t.EndsAt cs) (h : Blanked cs x) : t.EndsAt x := by
  intro d hd
  rcases h.head? with hhead | hhead
  · exact ht d (hhead ▸ hd)
  · rw [hhead] at hd
    cases hd
    exact stops_cons (by decide) [] t ' ' rfl

end Front

/-! ## Gaps and spellings -/

section Parts

variable {g g' cs cs' x : List Char}

/-- A closed gap is blanked on its own. -/
theorem ClosedGap.blanked_append_iff (hg : ClosedGap g) :
    Blanked (g ++ cs) x ↔ ∃ g' cs', x = g' ++ cs' ∧ Blanked g g' ∧ Blanked cs cs' := by
  induction hg using ClosedGap.comment_induction generalizing x with
  | nil =>
    constructor
    · intro h
      exact ⟨[], x, rfl, .same [], h⟩
    · rintro ⟨g', cs', rfl, hnil, h⟩
      rw [blanked_nil_iff.1 hnil]
      exact h
  | @blank c g hc hg ih =>
    rw [List.cons_append, blanked_cons_iff (not_opensRegion_of_isBlank hc _)]
    constructor
    · rintro ⟨y, rfl, h⟩
      obtain ⟨g', cs', rfl, hgap, hcs⟩ := ih.1 h
      exact ⟨c :: g', cs', rfl, .char (not_opensRegion_of_isBlank hc g) hgap, hcs⟩
    · rintro ⟨g', cs', rfl, hgap, hcs⟩
      obtain ⟨g', rfl, hrest⟩ := (blanked_cons_iff (not_opensRegion_of_isBlank hc g)).1 hgap
      exact ⟨g' ++ cs', rfl, ih.2 ⟨g', cs', rfl, hrest, hcs⟩⟩
  | @comment k b g hk hg ih =>
    rw [List.append_assoc, blanked_comment_iff hk]
    constructor
    · rintro ⟨y, hx, h⟩
      obtain ⟨g', cs', rfl, hgap, hcs⟩ := ih.1 h
      rcases hx with rfl | rfl
      · exact ⟨k ++ g', cs', (List.append_assoc _ _ _).symm, .kept hk hgap, hcs⟩
      · exact ⟨b ++ g', cs', (List.append_assoc _ _ _).symm, .blank hk hgap, hcs⟩
    · rintro ⟨g', cs', rfl, hgap, hcs⟩
      obtain ⟨g', hg', hgap⟩ := (blanked_comment_iff hk).1 hgap
      refine ⟨g' ++ cs', ?_, ih.2 ⟨g', cs', rfl, hgap, hcs⟩⟩
      rcases hg' with rfl | rfl
      · exact .inl (List.append_assoc _ _ _)
      · exact .inr (List.append_assoc _ _ _)

theorem ClosedGap.blanked (hg : ClosedGap g) (h : Blanked g g') : ClosedGap g' := by
  induction hg using ClosedGap.comment_induction generalizing g' with
  | nil =>
    rw [blanked_nil_iff.1 h]
    exact .nil
  | @blank c g hc hg ih =>
    obtain ⟨g', rfl, hrest⟩ := (blanked_cons_iff (not_opensRegion_of_isBlank hc g)).1 h
    exact .blank hc (ih hrest)
  | comment hk hg ih =>
    obtain ⟨g', rfl | rfl, hrest⟩ := (blanked_comment_iff hk).1 h
    · exact (hk.closedGap_append (ih hrest)).1
    · exact (hk.closedGap_append (ih hrest)).2

/-- The characters that can open a quoted text or a comment. -/
def openers : List Char :=
  ['"', '\'', '-', '/']

theorem not_opensRegion_of_notMem {c : Char} (hc : c ∉ openers) (cs : List Char) :
    ¬ OpensRegion c cs := by
  rintro (rfl | rfl | ⟨rfl, -⟩ | ⟨rfl, -⟩) <;> exact hc (by decide)

theorem notMem_openers_of_all {text : List Char} (h : text.all (fun c => !openers.contains c) = true) :
    ∀ c ∈ text, c ∉ openers := by
  intro c hc
  have hplain := List.all_eq_true.1 h c hc
  simpa using hplain

theorem blanked_plain_iff {text : List Char} (htext : ∀ c ∈ text, c ∉ openers) :
    Blanked (text ++ cs) x ↔ ∃ cs', x = text ++ cs' ∧ Blanked cs cs' := by
  induction text generalizing x with
  | nil => simp
  | cons c text ih =>
    rw [List.cons_append, blanked_cons_iff (not_opensRegion_of_notMem (htext c List.mem_cons_self) _)]
    have ih {y : List Char} := ih (x := y) fun d hd => htext d (List.mem_cons_of_mem c hd)
    constructor
    · rintro ⟨y, rfl, h⟩
      obtain ⟨cs', rfl, hcs⟩ := ih.1 h
      exact ⟨cs', rfl, hcs⟩
    · rintro ⟨cs', rfl, h⟩
      exact ⟨text ++ cs', rfl, ih.2 ⟨cs', rfl, h⟩⟩

/-- A spelling stays as it is. -/
theorem Spells.blanked_append_iff {t : Token} {text : List Char} (h : Spells t text)
    (hcs : t.EndsAt cs) : Blanked (text ++ cs) x ↔ ∃ cs', x = text ++ cs' ∧ Blanked cs cs' := by
  cases h with
  | @word c ds hc hds =>
    refine blanked_plain_iff fun d hd => ?_
    rcases List.mem_cons.1 hd with rfl | hd
    · exact notMem_of_class (by decide) hc
    · exact notMem_of_class (by decide) (hds d hd)
  | @number c ds hc hds =>
    refine blanked_plain_iff fun d hd => ?_
    rcases List.mem_cons.1 hd with rfl | hd
    · exact notMem_of_class (p := Char.isDigit) (by decide) hc
    · exact notMem_of_class (by decide) (hds d hd)
  | quoted hq =>
    exact blanked_quoted_iff (.inl rfl) hq ((Token.endsAt_of_head?_ne fun _ => rfl).1 hcs)
  | string hq =>
    exact blanked_quoted_iff (.inr rfl) hq ((Token.endsAt_of_head?_ne fun _ => rfl).1 hcs)
  | @symbol c hb hc hd hw =>
    refine blanked_cons_iff ?_
    rintro (rfl | rfl | ⟨rfl, hhead⟩ | ⟨rfl, hhead⟩)
    · exact hc (by decide)
    · exact hc (by decide)
    · simpa [Token.runsInto] using hcs _ hhead
    · simpa [Token.runsInto] using hcs _ hhead
  | _ => exact blanked_plain_iff (List.forall_mem_singleton.2 (by decide))

theorem FinalGap.blanked (hg : FinalGap g) (h : Blanked g x) : FinalGap x := by
  cases hg with
  | closed hg => exact .closed (hg.blanked h)
  | line hg hbody =>
    obtain ⟨g', y, rfl, hgap, hlast⟩ := hg.blanked_append_iff.1 h
    rcases eq_of_blanked_last hbody hlast with rfl | rfl
    · exact .line (hg.blanked hgap) hbody
    · exact .closed ((hg.blanked hgap).append (.blank (by decide) .nil))

/-- A text that breaks off still breaks off there. -/
theorem Torn.blanked {e : LexError} (hcs : Torn e cs) (h : Blanked cs x) : Torn e x := by
  cases hcs with
  | comment hg hbody =>
    obtain ⟨g', y, rfl, hgap, hrest⟩ := hg.blanked_append_iff.1 h
    rw [eq_of_blanked_unclosed hbody hrest]
    exact .comment (hg.blanked hgap) hbody
  | identifier hg hbody =>
    obtain ⟨g', y, rfl, hgap, hrest⟩ := hg.blanked_append_iff.1 h
    rw [eq_of_blanked_unquoted (.inl rfl) hbody hrest]
    exact .identifier (hg.blanked hgap) hbody
  | string hg hbody =>
    obtain ⟨g', y, rfl, hgap, hrest⟩ := hg.blanked_append_iff.1 h
    rw [eq_of_blanked_unquoted (.inr rfl) hbody hrest]
    exact .string (hg.blanked hgap) hbody

end Parts

/-! ## Chains -/

/-- The same token behind a gap in which comments may be blanked. -/
structure Lexeme.Blanked (l l' : Lexeme) : Prop where
  gap : Script.Blanked l.gap l'.gap
  text : l'.text = l.text
  token : l'.token = l.token

section Chains

variable {ls ls' : List Lexeme} {rest rest' x : List Char}

/-- A blanked chain is a chain of the same tokens. -/
theorem Chain.exists_of_blanked (h : Chain ls rest) (hx : Blanked (written ls ++ rest) x) :
    ∃ ls' rest', x = written ls' ++ rest' ∧ List.Forall₂ Lexeme.Blanked ls ls' ∧
      Blanked rest rest' := by
  induction ls generalizing x with
  | nil => exact ⟨[], x, rfl, .nil, hx⟩
  | cons l ls ih =>
    obtain ⟨hl, hend, hls⟩ := h
    rw [written_cons, List.append_assoc, List.append_assoc] at hx
    obtain ⟨g', y, rfl, hgap, hy⟩ := hl.gap.blanked_append_iff.1 hx
    obtain ⟨z, rfl, hz⟩ := (hl.text.blanked_append_iff hend).1 hy
    obtain ⟨ls', rest', rfl, hls', hrest⟩ := ih hls hz
    refine ⟨{ l with gap := g' } :: ls', rest', ?_, .cons ⟨hgap, rfl, rfl⟩ hls', hrest⟩
    rw [written_cons, List.append_assoc, List.append_assoc]

theorem Chain.blanked (h : Chain ls rest) (hls : List.Forall₂ Lexeme.Blanked ls ls')
    (hrest : Blanked rest rest') :
    Blanked (written ls ++ rest) (written ls' ++ rest') ∧ Chain ls' rest' := by
  induction hls with
  | nil => exact ⟨hrest, trivial⟩
  | @cons l l' ls ls' hl _ ih =>
    obtain ⟨⟨hgap, htext⟩, hend, hls⟩ := h
    obtain ⟨htexts, hchain⟩ := ih hls
    have hspelling := (htext.blanked_append_iff hend).2 ⟨_, rfl, htexts⟩
    refine ⟨?_, ⟨hgap.blanked hl.gap, ?_⟩, ?_, hchain⟩
    · rw [written_cons, written_cons, hl.text]
      simp only [List.append_assoc]
      exact hgap.blanked_append_iff.2 ⟨_, _, rfl, hl.gap, hspelling⟩
    · rw [hl.text, hl.token]
      exact htext
    · rw [hl.token]
      exact hend.blanked htexts

/-- A text and its blanked copy are chains of the same tokens, and both break off or neither. -/
theorem Blanked.exists_chains {cs cs' : List Char} (h : Blanked cs cs') :
    ∃ ls rest ls' rest', cs = written ls ++ rest ∧ cs' = written ls' ++ rest' ∧ Chain ls rest ∧
      List.Forall₂ Lexeme.Blanked ls ls' ∧ Blanked rest rest' ∧
      (FinalGap rest ∨ ∃ e, Torn e rest) := by
  obtain ⟨ls, rest, rfl, hls, hrest⟩ := exists_chain cs
  obtain ⟨ls', rest', rfl, hls', hrest'⟩ := hls.exists_of_blanked h
  exact ⟨ls, rest, ls', rest', rfl, rfl, hls, hls', hrest', hrest⟩

end Chains

end SchemaDdl.Script
