import SchemaDdl.Proofs.Reading.Depth
import SchemaDdl.Script.ColumnClause

/-!
# Excerpts

The type and the default of a column are lifted out of a script word for word. Such an excerpt
reads alike wherever it is pasted as long as it starts and ends with a token, is balanced, and
holds nothing outside parentheses that would end it early.
-/

namespace SchemaDdl.Script

/-- Every lexeme at depth 0, counted from `depth`, satisfies `P` with the lexemes behind it. -/
def AtTop (P : Lexeme → List Lexeme → Prop) : Nat → List Lexeme → Prop
  | _, [] => True
  | depth, l :: ls => (depth = 0 → P l ls) ∧ AtTop P (l.token.depthAfter depth) ls

/-- Lexemes with no gap in front. -/
def Flush (ls : List Lexeme) : Prop :=
  ∃ l ls', ls = l :: ls' ∧ l.gap = []

/-- The text is its lexemes, with no gap at either end, and can be one item of a list. -/
structure Excerpt (text : List Char) (ls : List Lexeme) : Prop where
  read : lexemes text = .ok (ls, [])
  flush : Flush ls
  level : Level .comma (ls.map Lexeme.token)

/-- Whether a clause of a column definition starts with the lexeme. -/
def startsClause (l : Lexeme) : Bool :=
  l.token.isAnyKeyword clauseKeywords

/-- A type that is read back as it is written: no clause starts inside it. -/
structure TypeExcerpt (text : List Char) (ls : List Lexeme) : Prop extends Excerpt text ls where
  noClause : AtTop (fun l _ => startsClause l = false) 0 ls

/-- A default that is read back as it is written: no semicolon and, behind its first token, no
keyword ends it. -/
structure DefaultExcerpt (text : List Char) (ls : List Lexeme) : Prop extends Excerpt text ls where
  noSemicolon : standsOutside .semicolon 0 (ls.map Lexeme.token) = false
  noEnd : ∀ l ls', ls = l :: ls' →
    AtTop (fun l behind => endsDefault l.token behind = false) (l.token.depthAfter 0) ls'

/-! ## Ends of excerpts -/

theorem isBlank_of_continuesWord {c : Char} (h : continuesWord c = true) :
    Text.isBlank c = false := by
  rw [Bool.eq_false_iff]
  intro hb
  simp [continuesWord_of_isBlank hb] at h

theorem isBlank_of_continuesNumber {c : Char} (h : continuesNumber c = true) :
    Text.isBlank c = false := by
  rw [Bool.eq_false_iff]
  intro hb
  simp [continuesNumber_of_isBlank hb] at h

theorem getLast?_of_quotedText {quote : Char} {v cs : List Char}
    (h : quotedText quote cs = some ⟨v, cs, []⟩) : cs.getLast? = some quote := by
  fun_induction quotedText quote cs generalizing v with
  | case1 => cases h
  | case2 c hc => simpa using hc
  | case3 => cases h
  | case4 c d cs hc hd ih =>
    obtain ⟨⟨w, text, r⟩, hr, heq⟩ := Option.map_eq_some_iff.1 h
    cases heq
    simp [List.getLast?_cons, ih hr]
  | case5 => cases h
  | case6 c d cs hc ih =>
    obtain ⟨⟨w, text, r⟩, hr, heq⟩ := Option.map_eq_some_iff.1 h
    cases heq
    rw [List.getLast?_cons_cons]
    exact ih hr

/-- No spelling ends in white space. -/
theorem Spells.isBlank_of_getLast? {t : Token} {text : List Char} (h : Spells t text) {c : Char}
    (hc : text.getLast? = some c) : Text.isBlank c = false := by
  have hmem := List.mem_of_getLast? hc
  cases h with
  | word hd hds =>
    rcases List.mem_cons.1 hmem with rfl | hmem
    · exact isBlank_of_startsWord hd
    · exact isBlank_of_continuesWord (hds c hmem)
  | number hd hds =>
    rcases List.mem_cons.1 hmem with rfl | hmem
    · exact isBlank_of_isDigit hd
    · exact isBlank_of_continuesNumber (hds c hmem)
  | quoted hq =>
    rw [List.getLast?_cons, getLast?_of_quotedText hq] at hc
    cases hc
    decide
  | string hq =>
    rw [List.getLast?_cons, getLast?_of_quotedText hq] at hc
    cases hc
    decide
  | symbol hb =>
    cases hc
    exact hb
  | _ =>
    cases hc
    decide

theorem Chain.isBlank_of_getLast? {ls : List Lexeme} (h : Chain ls []) {c : Char}
    (hc : (written ls).getLast? = some c) : Text.isBlank c = false := by
  rcases List.eq_nil_or_concat ls with rfl | ⟨front, l, rfl⟩
  · cases hc
  · rw [List.concat_eq_append] at h hc
    obtain ⟨-, hl, -⟩ := Chain.append_iff.1 h
    obtain ⟨d, ds, htext⟩ := hl.text.exists_cons
    refine hl.text.isBlank_of_getLast? ?_
    rw [← hc, htext]
    simp [htext, List.getLast?_append, List.getLast?_cons]

theorem Flush.ne_nil {ls : List Lexeme} (h : Flush ls) : ls ≠ [] := by
  obtain ⟨l, ls', rfl, -⟩ := h
  simp

theorem verbatim_of_flush {ls : List Lexeme} (h : Flush ls) : verbatim ls = written ls := by
  obtain ⟨l, ls', rfl, hgap⟩ := h
  simp [verbatim, written, hgap]

theorem trim_written {ls : List Lexeme} (hls : Chain ls []) (hflush : Flush ls) :
    Text.trim (written ls) = written ls := by
  obtain ⟨l, ls', rfl, hgap⟩ := hflush
  obtain ⟨c, cs, htext⟩ := hls.1.text.exists_cons
  have hno := hls.1.text.noGap hls.2.1
  have hwritten : written (l :: ls') = c :: (cs ++ written ls') := by
    simp [hgap, htext]
  rw [hwritten]
  refine Text.trim_of_ends ?_ fun d hd => hls.isBlank_of_getLast? (hwritten ▸ hd)
  rw [htext] at hno
  exact hno.isBlank

theorem written_ne_nil {ls : List Lexeme} {rest : List Char} (hls : Chain ls rest) (h : ls ≠ []) :
    written ls ≠ [] := by
  cases ls with
  | nil => exact absurd rfl h
  | cons l ls =>
    obtain ⟨c, cs, htext⟩ := hls.1.text.exists_cons
    simp [htext]

namespace Excerpt

variable {text : List Char} {ls : List Lexeme}

theorem chain (h : Excerpt text ls) : Chain ls [] :=
  (lexemes_eq_ok_iff.1 h.read).2.1

theorem text_eq (h : Excerpt text ls) : text = written ls := by
  have := (lexemes_eq_ok_iff.1 h.read).1
  rwa [List.append_nil] at this

theorem trim (h : Excerpt text ls) : Text.trim text = text := by
  rw [h.text_eq]
  exact trim_written h.chain h.flush

theorem ne_nil (h : Excerpt text ls) : text ≠ [] := by
  rw [h.text_eq]
  exact written_ne_nil h.chain h.flush.ne_nil

end Excerpt

theorem flush_regap {ls : List Lexeme} (h : ls ≠ []) : Flush (regap [] ls) := by
  cases ls with
  | nil => exact absurd rfl h
  | cons l ls => exact ⟨_, ls, rfl, rfl⟩

/-- Level lexemes from the middle of a chain, without the gap in front, are an excerpt. -/
theorem excerpt_verbatim {xs ls ys : List Lexeme} {rest : List Char}
    (hchain : Chain (xs ++ (ls ++ ys)) rest) (hls : ls ≠ []) (hlevel : Level .comma (ls.map Lexeme.token)) :
    Excerpt (verbatim ls) (regap [] ls) := by
  obtain ⟨-, hchain⟩ := Chain.append_iff.1 hchain
  have hfront : Chain ls ([] ++ (written ys ++ rest)) := (Chain.append_iff.1 hchain).1
  refine ⟨lexemes_eq_ok_iff.2 ⟨?_, hfront.of_append.regap .nil, .closed .nil⟩, flush_regap hls, ?_⟩
  · rw [List.append_nil, written_regap hls, List.nil_append]
  · rwa [map_token_regap]

/-! ## Types -/

theorem atTop_regap {P : Lexeme → List Lexeme → Prop} {depth : Nat} {ls : List Lexeme}
    (hP : ∀ l behind g, P l behind → P { l with gap := g } behind) (g : List Char)
    (h : AtTop P depth ls) : AtTop P depth (regap g ls) := by
  cases ls with
  | nil => trivial
  | cons l ls => exact ⟨fun h0 => hP l ls g (h.1 h0), h.2⟩

/-- A type ends where the lexemes end or at a clause behind it. -/
theorem spanType_append_of_atTop {depth : Nat} {ls rest : List Lexeme}
    (h : AtTop (fun l _ => startsClause l = false) depth ls)
    (hrest : ∀ l ∈ rest.head?,
      depthThrough depth (ls.map Lexeme.token) = 0 ∧ startsClause l = true) :
    spanType depth (ls ++ rest) = (ls, rest) := by
  induction ls generalizing depth with
  | nil =>
    cases rest with
    | nil => rfl
    | cons l rest =>
      obtain ⟨hdepth, hl⟩ := hrest l rfl
      have hdepth' : depth = 0 := hdepth
      rw [List.nil_append, spanType, hdepth', show l.token.isAnyKeyword clauseKeywords = true from hl]
      rfl
  | cons l ls ih =>
    have hl : (depth == 0 && l.token.isAnyKeyword clauseKeywords) = false := by
      rw [Bool.and_eq_false_imp, beq_iff_eq]
      exact h.1
    rw [List.cons_append, spanType, hl, ih h.2 hrest]
    rfl

theorem atTop_spanType (depth : Nat) (ls : List Lexeme) :
    AtTop (fun l _ => startsClause l = false) depth (spanType depth ls).1 := by
  induction ls generalizing depth with
  | nil => trivial
  | cons l ls ih =>
    rw [spanType]
    split
    · trivial
    · rename_i hl
      refine ⟨fun h0 => ?_, ih _⟩
      rw [h0, beq_self_eq_true, Bool.true_and, Bool.not_eq_true] at hl
      exact hl

theorem depthThrough_spanType (depth : Nat) (ls : List Lexeme) :
    (spanType depth ls).2 = [] ∨ depthThrough depth ((spanType depth ls).1.map Lexeme.token) = 0 := by
  induction ls generalizing depth with
  | nil => exact .inl rfl
  | cons l ls ih =>
    rw [spanType]
    split
    · rename_i hl
      simp only [Bool.and_eq_true, beq_iff_eq] at hl
      exact .inr hl.1
    · exact ih _

/-! ## Defaults -/

/-- What does not end a default. -/
def staysDefault (l : Lexeme) (behind : List Lexeme) : Prop :=
  l.token ≠ .semicolon ∧ endsDefault l.token behind = false

theorem spanDefault_of_atTop {depth : Nat} {ls : List Lexeme} (h : AtTop staysDefault depth ls) :
    spanDefault false depth ls = (ls, []) := by
  induction ls generalizing depth with
  | nil => rfl
  | cons l ls ih =>
    have hl : (depth == 0 && (l.token == .semicolon || (!false && endsDefault l.token ls))) = false := by
      rw [Bool.and_eq_false_imp, beq_iff_eq]
      intro h0
      obtain ⟨hsemicolon, hends⟩ := h.1 h0
      rw [hends, beq_eq_false_iff_ne.2 hsemicolon]
      rfl
    rw [spanDefault, hl, ih h.2]
    rfl

theorem AtTop.imp {P Q : Lexeme → List Lexeme → Prop} {depth : Nat} {ls : List Lexeme}
    (h : AtTop P depth ls) (hPQ : ∀ l behind, P l behind → Q l behind) : AtTop Q depth ls := by
  induction ls generalizing depth with
  | nil => trivial
  | cons l ls ih => exact ⟨fun h0 => hPQ l ls (h.1 h0), ih h.2⟩

theorem atTop_and {P Q : Lexeme → List Lexeme → Prop} {depth : Nat} {ls : List Lexeme}
    (hP : AtTop P depth ls) (hQ : AtTop Q depth ls) :
    AtTop (fun l behind => P l behind ∧ Q l behind) depth ls := by
  induction ls generalizing depth with
  | nil => trivial
  | cons l ls ih => exact ⟨fun h0 => ⟨hP.1 h0, hQ.1 h0⟩, ih hP.2 hQ.2⟩

theorem atTop_of_standsOutside {separator : Token} {depth : Nat} {ls : List Lexeme} :
    standsOutside separator depth (ls.map Lexeme.token) = false ↔
      AtTop (fun l _ => l.token ≠ separator) depth ls := by
  induction ls generalizing depth with
  | nil => simp [standsOutside, AtTop]
  | cons l ls ih =>
    simp [standsOutside, AtTop, ih]

/-- A default at the end of an item is taken whole. -/
theorem DefaultExcerpt.spanDefault_eq {text : List Char} {ls : List Lexeme}
    (h : DefaultExcerpt text ls) (g : List Char) :
    spanDefault true 0 (regap g ls) = (regap g ls, []) := by
  obtain ⟨l, ls', rfl, -⟩ := h.flush
  have hsemicolon := h.noSemicolon
  rw [atTop_of_standsOutside] at hsemicolon
  have hstays : AtTop staysDefault (l.token.depthAfter 0) ls' :=
    atTop_and hsemicolon.2 (h.noEnd l ls' rfl)
  have hl : (l.token == .semicolon) = false := beq_eq_false_iff_ne.2 (hsemicolon.1 rfl)
  rw [regap, spanDefault, spanDefault_of_atTop hstays, hl]
  rfl

theorem takeKeywords_append {ks : List String} {ls behind : List Lexeme} :
    (takeKeywords ks ls).isSome → (takeKeywords ks (ls ++ behind)).isSome := by
  induction ks generalizing ls with
  | nil => intro; rfl
  | cons k ks ih =>
    cases ls with
    | nil => intro h; cases h
    | cons l ls =>
      rw [List.cons_append, takeKeywords, takeKeywords]
      split
      · exact ih
      · intro h; cases h

theorem endsDefault_of_append {t : Token} {ls behind : List Lexeme}
    (h : endsDefault t (ls ++ behind) = false) : endsDefault t ls = false := by
  unfold endsDefault at h ⊢
  split
  · rename_i ht
    rw [if_pos ht, Bool.eq_false_iff] at h
    rw [Bool.eq_false_iff]
    exact fun hs => h (takeKeywords_append hs)
  · rename_i ht
    rwa [if_neg ht] at h

theorem atTop_spanDefault (depth : Nat) (ls : List Lexeme) :
    AtTop staysDefault depth (spanDefault false depth ls).1 := by
  induction ls generalizing depth with
  | nil => trivial
  | cons l ls ih =>
    rw [spanDefault]
    split
    · trivial
    · rename_i hl
      refine ⟨fun h0 => ?_, ih _⟩
      simp only [h0, beq_self_eq_true, Bool.not_false, Bool.true_and, Bool.or_eq_true, beq_iff_eq,
        not_or, Bool.not_eq_true] at hl
      have hends := hl.2
      rw [← spanDefault_append false (l.token.depthAfter depth) ls] at hends
      exact ⟨hl.1, endsDefault_of_append hends⟩

theorem depthThrough_spanDefault (first : Bool) (depth : Nat) (ls : List Lexeme) :
    (spanDefault first depth ls).2 = [] ∨
      depthThrough depth ((spanDefault first depth ls).1.map Lexeme.token) = 0 := by
  induction ls generalizing first depth with
  | nil => exact .inl rfl
  | cons l ls ih =>
    rw [spanDefault]
    split
    · rename_i hl
      simp only [Bool.and_eq_true, beq_iff_eq] at hl
      exact .inr hl.1
    · exact ih _ _

end SchemaDdl.Script
