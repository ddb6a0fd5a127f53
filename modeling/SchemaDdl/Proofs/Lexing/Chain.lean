import SchemaDdl.Proofs.Lexing.Spelling

/-!
# Chains of lexemes

A text is read as a chain of lexemes, each a closed gap and a spelling that the next text does not
run into, and a rest without a token. Chains can be cut anywhere, joined where nothing runs
together and moved behind another gap, so a piece of a text is read as the same lexemes wherever
it is written.
-/

namespace SchemaDdl.Script

def written (ls : List Lexeme) : List Char :=
  ls.flatMap fun l => l.gap ++ l.text

@[simp] theorem written_nil : written [] = [] := rfl

@[simp] theorem written_cons (l : Lexeme) (ls : List Lexeme) :
    written (l :: ls) = l.gap ++ (l.text ++ written ls) := by
  simp [written]

@[simp] theorem written_append (xs ys : List Lexeme) :
    written (xs ++ ys) = written xs ++ written ys := by
  simp [written]

structure Lexeme.Whole (l : Lexeme) : Prop where
  gap : ClosedGap l.gap
  text : Spells l.token l.text

/-- The lexemes can be read one after the other in front of `rest`. -/
def Chain : List Lexeme → List Char → Prop
  | [], _ => True
  | l :: ls, rest => l.Whole ∧ l.token.EndsAt (written ls ++ rest) ∧ Chain ls rest

/-- A text in front of which stands a gap that breaks off inside a comment or a quoted text. -/
inductive Torn : LexError → List Char → Prop
  | comment {g body : List Char} :
      ClosedGap g → blockComment body = none → Torn .unterminatedComment (g ++ '/' :: '*' :: body)
  | identifier {g body : List Char} :
      ClosedGap g → quotedText '"' body = none → Torn .unterminatedIdentifier (g ++ '"' :: body)
  | string {g body : List Char} :
      ClosedGap g → quotedText '\'' body = none → Torn .unterminatedString (g ++ '\'' :: body)

theorem Spells.exists_cons {t : Token} {text : List Char} (h : Spells t text) :
    ∃ c cs, text = c :: cs := by
  cases h <;> exact ⟨_, _, rfl⟩

theorem lexemes_of_gap {cs g : List Char} (h : gap cs = .ok (g, [])) : lexemes cs = .ok ([], g) := by
  rw [lexemes]
  split
  · rename_i e he
    simp [h] at he
  · rename_i g' hg
    rw [h] at hg
    cases hg
    rfl
  · rename_i hg
    rw [h] at hg
    cases hg

theorem lexemes_of_gap_error {cs : List Char} {e : LexError} (h : gap cs = .error e) :
    lexemes cs = .error e := by
  rw [lexemes]
  split
  · rename_i e' he
    rw [h] at he
    cases he
    rfl
  · rename_i hg
    simp [h] at hg
  · rename_i hg
    simp [h] at hg

theorem lexemes_of_gap_cons {cs g rest : List Char} {c : Char} (h : gap cs = .ok (g, c :: rest)) :
    lexemes cs = (spelled c rest).bind fun s =>
      (lexemes s.rest).map fun (ls, last) => (⟨g, s.text, s.token⟩ :: ls, last) := by
  rw [lexemes]
  split
  · rename_i hg
    simp [h] at hg
  · rename_i hg
    simp [h] at hg
  · rename_i g' c' rest' hg
    rw [h] at hg
    cases hg
    split
    · rename_i e he
      rw [he]
      rfl
    · rename_i s hs
      simp only [hs, Except.bind]

theorem FinalGap.lexemes_eq {g : List Char} (h : FinalGap g) : lexemes g = .ok ([], g) :=
  lexemes_of_gap h.gap_eq

theorem NoGap.gap_append {g : List Char} {cs : List Char} (h : NoGap cs) (hg : ClosedGap g) :
    gap (g ++ cs) = .ok (g, cs) := by
  rw [hg.gap_append, show gap cs = _ from h]
  simp [Except.map]

theorem Torn.lexemes_eq {e : LexError} {rest : List Char} (h : Torn e rest) :
    lexemes rest = .error e := by
  have hquote {g body : List Char} {q : Char} {e : LexError} (hg : ClosedGap g)
      (hgap : NoGap (q :: body)) (hs : spelled q body = .error e) :
      lexemes (g ++ q :: body) = .error e := by
    rw [lexemes_of_gap_cons (hgap.gap_append hg), hs]
    rfl
  cases h with
  | comment hg hb =>
    apply lexemes_of_gap_error
    rw [hg.gap_append, gap]
    split
    · rfl
    · rename_i heq
      simp [hb] at heq
  | identifier hg hb =>
    refine hquote hg (noGap_cons rfl (by simp) (by simp)) ?_
    simp [spelled, spelledQuoted, hb]
  | string hg hb =>
    refine hquote hg (noGap_cons rfl (by simp) (by simp)) ?_
    simp [spelled, spelledQuoted, hb]

theorem Spells.noGap {t : Token} {text rest : List Char} (h : Spells t text)
    (hrest : t.EndsAt rest) : NoGap (text ++ rest) := by
  cases h with
  | word hc _ =>
    refine noGap_cons (isBlank_of_startsWord hc) ?_ ?_
    · rintro rfl
      exact absurd hc (by decide)
    · rintro rfl
      exact absurd hc (by decide)
  | number hc _ =>
    refine noGap_cons (isBlank_of_isDigit hc) ?_ ?_
    · rintro rfl
      exact absurd hc (by decide)
    · rintro rfl
      exact absurd hc (by decide)
  | symbol hb _ _ _ =>
    refine noGap_cons hb ?_ ?_
    · rintro rfl hd
      simpa [Token.runsInto] using hrest _ hd
    · rintro rfl hd
      simpa [Token.runsInto] using hrest _ hd
  | _ => exact noGap_cons rfl (by simp) (by simp)

/-- One lexeme is read off the front of a text. -/
theorem lexemes_cons {l : Lexeme} {rest : List Char} (hl : l.Whole) (hrest : l.token.EndsAt rest) :
    lexemes (l.gap ++ (l.text ++ rest)) =
      (lexemes rest).map fun (ls, last) => (l :: ls, last) := by
  obtain ⟨g, text, t⟩ := l
  obtain ⟨hgap, htext⟩ := hl
  simp only at hgap htext hrest ⊢
  have hno := htext.noGap hrest
  obtain ⟨c, cs, rfl⟩ := htext.exists_cons
  rw [List.cons_append] at hno ⊢
  rw [lexemes_of_gap_cons (hno.gap_append hgap), htext.spelled_append hrest]
  rfl

/-- A chain is read as it is, and the text behind it is read as if it stood alone. -/
theorem Chain.lexemes_append {ls : List Lexeme} {rest : List Char} (h : Chain ls rest) :
    lexemes (written ls ++ rest) = (lexemes rest).map fun (ms, last) => (ls ++ ms, last) := by
  induction ls with
  | nil => cases hr : lexemes rest <;> simp [hr, Except.map]
  | cons l ls ih =>
    obtain ⟨hl, hend, hls⟩ := h
    rw [written_cons, List.append_assoc, List.append_assoc, lexemes_cons hl hend, ih hls]
    cases lexemes rest <;> rfl

theorem torn_of_spelled_error {g cs : List Char} {c : Char} {e : LexError} (hg : ClosedGap g)
    (h : spelled c cs = .error e) : Torn e (g ++ c :: cs) := by
  by_cases hc : c ∈ marks
  · simp only [marks, List.mem_cons, List.not_mem_nil, or_false] at hc
    rcases hc with rfl | rfl | rfl | rfl | rfl | rfl | rfl
    · cases h
    · cases h
    · cases h
    · cases h
    · cases h
    · cases hq : quotedText '"' cs with
      | none =>
        simp only [spelled, spelledQuoted, hq] at h
        cases h
        exact .identifier hg hq
      | some q => simp [spelled, spelledQuoted, hq] at h
    · cases hq : quotedText '\'' cs with
      | none =>
        simp only [spelled, spelledQuoted, hq] at h
        cases h
        exact .string hg hq
      | some q => simp [spelled, spelledQuoted, hq] at h
  · rw [spelled_of_notMem_marks hc] at h
    split at h
    · cases h
    · split at h <;> cases h

/-- Every text is a chain and a rest that is a gap, or that cannot be read. -/
theorem exists_chain (cs : List Char) :
    ∃ ls rest, cs = written ls ++ rest ∧ Chain ls rest ∧ (FinalGap rest ∨ ∃ e, Torn e rest) := by
  induction hn : cs.length using Nat.strongRecOn generalizing cs with
  | _ n ih =>
    cases gapFront cs with
    | final h => exact ⟨[], cs, rfl, trivial, .inl h⟩
    | @token g behind c hg hc =>
      cases hs : spelled c behind with
      | error e => exact ⟨[], _, rfl, trivial, .inr ⟨e, torn_of_spelled_error hg hs⟩⟩
      | ok s =>
        obtain ⟨heq, htext, hend⟩ := sound_of_spelled hc hs
        have hlt : s.rest.length < n := by
          have := length_spelled_le hs
          simp only [List.length_append, List.length_cons] at hn
          omega
        obtain ⟨ls, rest, hrest, hls, hfinal⟩ := ih _ hlt s.rest rfl
        refine ⟨⟨g, s.text, s.token⟩ :: ls, rest, ?_, ⟨⟨hg, htext⟩, hrest ▸ hend, hls⟩, hfinal⟩
        rw [heq, hrest]
        simp
    | torn hg hb => exact ⟨[], _, rfl, trivial, .inr ⟨_, .comment hg hb⟩⟩

theorem lexemes_eq_ok_iff {cs last : List Char} {ls : List Lexeme} :
    lexemes cs = .ok (ls, last) ↔ cs = written ls ++ last ∧ Chain ls last ∧ FinalGap last := by
  constructor
  · intro h
    obtain ⟨ms, rest, rfl, hms, hfinal | ⟨e, htorn⟩⟩ := exists_chain cs
    · rw [hms.lexemes_append, hfinal.lexemes_eq] at h
      simp only [Except.map, List.append_nil, Except.ok.injEq, Prod.mk.injEq] at h
      obtain ⟨rfl, rfl⟩ := h
      exact ⟨rfl, hms, hfinal⟩
    · rw [hms.lexemes_append, htorn.lexemes_eq] at h
      cases h
  · rintro ⟨rfl, hls, hfinal⟩
    simp [hls.lexemes_append, hfinal.lexemes_eq, Except.map]

theorem exists_torn_of_lexemes_error {cs : List Char} {e : LexError} (h : lexemes cs = .error e) :
    ∃ ls rest, cs = written ls ++ rest ∧ Chain ls rest ∧ Torn e rest := by
  obtain ⟨ls, rest, rfl, hls, hfinal | ⟨e', htorn⟩⟩ := exists_chain cs
  · simp [hls.lexemes_append, hfinal.lexemes_eq, Except.map] at h
  · rw [hls.lexemes_append, htorn.lexemes_eq] at h
    cases h
    exact ⟨ls, rest, rfl, hls, htorn⟩

/-! ## Cutting, joining and moving chains -/

/-- No token runs into the text. -/
def Stops (rest : List Char) : Prop :=
  ∀ t : Token, t.EndsAt rest

/-- The characters that belong to no token that starts before them. -/
def isStop (c : Char) : Bool :=
  !continuesWord c && !continuesNumber c && c != '"' && c != '\'' && c != '-' && c != '*'

theorem stops_nil : Stops [] :=
  Token.endsAt_nil

theorem stops_cons {c : Char} (h : isStop c = true) (rest : List Char) : Stops (c :: rest) := by
  simp only [isStop, Bool.and_eq_true, Bool.not_eq_true', bne_iff_ne, ne_eq] at h
  intro t d hd
  cases hd
  cases t <;> simp [Token.runsInto, h]

theorem isStop_of_isBlank {c : Char} (h : Text.isBlank c = true) : isStop c = true := by
  simp [isStop, continuesWord_of_isBlank h, continuesNumber_of_isBlank h,
    ne_of_isBlank h (show Text.isBlank '"' = false by decide),
    ne_of_isBlank h (show Text.isBlank '\'' = false by decide),
    ne_of_isBlank h (show Text.isBlank '-' = false by decide),
    ne_of_isBlank h (show Text.isBlank '*' = false by decide)]

theorem Chain.append_iff {xs ys : List Lexeme} {rest : List Char} :
    Chain (xs ++ ys) rest ↔ Chain xs (written ys ++ rest) ∧ Chain ys rest := by
  induction xs with
  | nil => simp [Chain]
  | cons x xs ih => simp [Chain, ih, and_assoc]

/-- Only the last lexeme of a chain sees the text behind it. -/
theorem Chain.change_rest {ls : List Lexeme} {rest rest' : List Char} (h : Chain ls rest)
    (hrest : ∀ l, ls.getLast? = some l → l.token.EndsAt rest') : Chain ls rest' := by
  induction ls with
  | nil => trivial
  | cons l ls ih =>
    obtain ⟨hl, hend, hls⟩ := h
    cases ls with
    | nil => exact ⟨hl, hrest l rfl, trivial⟩
    | cons m ms =>
      refine ⟨hl, ?_, ih hls fun k hk => hrest k (by simpa using hk)⟩
      obtain ⟨c, cs, hc⟩ := hls.1.text.exists_cons
      intro d hd
      apply hend d
      cases hg : m.gap <;> simpa [hg, hc] using hd

theorem Chain.stop {ls : List Lexeme} {rest rest' : List Char} (h : Chain ls rest)
    (hrest : Stops rest') : Chain ls rest' :=
  h.change_rest fun l _ => hrest l.token

/-- Puts another gap in front of the first lexeme. -/
def regap (g : List Char) : List Lexeme → List Lexeme
  | [] => []
  | l :: ls => { l with gap := g } :: ls

theorem Chain.regap {g : List Char} {ls : List Lexeme} {rest : List Char} (h : Chain ls rest)
    (hg : ClosedGap g) : Chain (regap g ls) rest := by
  cases ls with
  | nil => exact h
  | cons l ls => exact ⟨⟨hg, h.1.text⟩, h.2.1, h.2.2⟩

theorem written_regap {g : List Char} {ls : List Lexeme} (h : ls ≠ []) :
    written (regap g ls) = g ++ verbatim ls := by
  cases ls with
  | nil => exact absurd rfl h
  | cons l ls => simp [Script.regap, verbatim, written]

theorem regap_append {g : List Char} {xs : List Lexeme} (h : xs ≠ []) (ys : List Lexeme) :
    regap g (xs ++ ys) = regap g xs ++ ys := by
  cases xs with
  | nil => exact absurd rfl h
  | cons x xs => rfl

@[simp] theorem verbatim_regap (g : List Char) (ls : List Lexeme) :
    verbatim (regap g ls) = verbatim ls := by
  cases ls <;> rfl

@[simp] theorem map_token_regap (g : List Char) (ls : List Lexeme) :
    (regap g ls).map Lexeme.token = ls.map Lexeme.token := by
  cases ls <;> rfl

end SchemaDdl.Script
