import SchemaDdl.Proofs.Lexing.Gap

/-!
# Spellings

How a token may be written, as a relation apart from the lexer. A spelling is read as its token
as long as the text behind it does not run into it, and nothing else is read as a token.
-/

namespace SchemaDdl.Script

theorem quotedText_eq_some {quote : Char} {cs : List Char} {q : QuotedText}
    (h : quotedText quote cs = some q) :
    cs = q.text ++ q.rest ∧ q.rest.head? ≠ some quote ∧
      quotedText quote q.text = some ⟨q.value, q.text, []⟩ := by
  fun_induction quotedText quote cs generalizing q with
  | case1 => cases h
  | case2 c hc =>
    cases h
    simp [quotedText, hc]
  | case3 => cases h
  | case4 c d cs hc hd ih =>
    obtain ⟨r, hr, rfl⟩ := Option.map_eq_some_iff.1 h
    obtain ⟨rfl, hrest, htext⟩ := ih hr
    exact ⟨rfl, hrest, by simp [quotedText, hc, hd, htext]⟩
  | case5 c d cs hc hd =>
    cases h
    simp only [beq_iff_eq] at hd
    simp [quotedText, hc, hd]
  | case6 c d cs hc ih =>
    obtain ⟨r, hr, rfl⟩ := Option.map_eq_some_iff.1 h
    obtain ⟨heq, hrest, htext⟩ := ih hr
    refine ⟨by simp [heq], hrest, ?_⟩
    cases hrt : r.text with
    | nil => simp [hrt, quotedText] at htext
    | cons e text => simp [quotedText, hc, ← hrt, htext]

theorem quotedText_append {quote : Char} {cs v : List Char}
    (h : quotedText quote cs = some ⟨v, cs, []⟩) {rest : List Char}
    (hrest : rest.head? ≠ some quote) : quotedText quote (cs ++ rest) = some ⟨v, cs, rest⟩ := by
  fun_induction quotedText quote cs generalizing v with
  | case1 => cases h
  | case2 c hc =>
    cases h
    cases rest with
    | nil => simp [quotedText, hc]
    | cons d rest =>
      have hd : d ≠ quote := by simpa using hrest
      simp [quotedText, hc, hd]
  | case3 => cases h
  | case4 c d cs hc hd ih =>
    obtain ⟨⟨w, text, r⟩, hr, heq⟩ := Option.map_eq_some_iff.1 h
    cases heq
    simp [quotedText, hc, hd, ih hr]
  | case5 => cases h
  | case6 c d cs hc ih =>
    obtain ⟨⟨w, text, r⟩, hr, heq⟩ := Option.map_eq_some_iff.1 h
    cases heq
    have := ih hr
    rw [List.cons_append] at this
    simp [quotedText, hc, this]

theorem takeWhile_append_of_stop {p : Char → Bool} {cs rest : List Char} (h : ∀ d ∈ cs, p d = true)
    (hrest : ∀ d, rest.head? = some d → p d = false) :
    (cs ++ rest).takeWhile p = cs ∧ (cs ++ rest).dropWhile p = rest := by
  rw [List.takeWhile_append_of_pos h, List.dropWhile_append_of_pos h]
  cases rest with
  | nil => simp
  | cons d rest => simp [hrest d rfl]

/-- The characters that are tokens of their own or open a quoted text. -/
def marks : List Char :=
  ['(', ')', ',', '.', ';', '"', '\'']

theorem notMem_marks_of_startsWord {c : Char} (h : startsWord c = true) : c ∉ marks :=
  notMem_of_class (by decide) h

theorem notMem_marks_of_isDigit {c : Char} (h : c.isDigit = true) : c ∉ marks :=
  notMem_of_class (p := Char.isDigit) (by decide) h

theorem spelled_of_notMem_marks {c : Char} (h : c ∉ marks) (cs : List Char) :
    spelled c cs =
      if c.isDigit then .ok (spelledWhile continuesNumber .number c cs)
      else if startsWord c then .ok (spelledWhile continuesWord .word c cs)
      else .ok ⟨.symbol c, [c], cs⟩ := by
  simp only [marks, List.mem_cons, List.not_mem_nil, or_false, not_or] at h
  simp [spelled, h]

/-- The token `t` may be written as the text. -/
inductive Spells : Token → List Char → Prop
  | word {c : Char} {cs : List Char} :
      startsWord c = true → (∀ d ∈ cs, continuesWord d = true) →
        Spells (.word (String.ofList (c :: cs))) (c :: cs)
  | number {c : Char} {cs : List Char} :
      c.isDigit = true → (∀ d ∈ cs, continuesNumber d = true) →
        Spells (.number (String.ofList (c :: cs))) (c :: cs)
  | quoted {v cs : List Char} :
      quotedText '"' cs = some ⟨v, cs, []⟩ → Spells (.quoted (String.ofList v)) ('"' :: cs)
  | string {v cs : List Char} :
      quotedText '\'' cs = some ⟨v, cs, []⟩ → Spells (.string (String.ofList v)) ('\'' :: cs)
  | openParen : Spells .openParen ['(']
  | closeParen : Spells .closeParen [')']
  | comma : Spells .comma [',']
  | dot : Spells .dot ['.']
  | semicolon : Spells .semicolon [';']
  | symbol {c : Char} :
      Text.isBlank c = false → c ∉ marks → c.isDigit = false → startsWord c = false →
        Spells (.symbol c) [c]

/-- Whether the character `d` right behind the token would make it another one. -/
def Token.runsInto : Token → Char → Bool
  | .word _, d => continuesWord d
  | .number _, d => continuesNumber d
  | .quoted _, d => d == '"'
  | .string _, d => d == '\''
  | .symbol c, d => (c == '-' && d == '-') || (c == '/' && d == '*')
  | _, _ => false

/-- The token ends before the text `rest`. -/
def Token.EndsAt (t : Token) (rest : List Char) : Prop :=
  ∀ d, rest.head? = some d → t.runsInto d = false

theorem Token.endsAt_nil (t : Token) : t.EndsAt [] := by
  intro d hd
  cases hd

theorem Token.endsAt_of_head?_ne {t : Token} {quote : Char} {rest : List Char}
    (ht : ∀ d, t.runsInto d = (d == quote)) : t.EndsAt rest ↔ rest.head? ≠ some quote := by
  cases rest with
  | nil => simp [EndsAt]
  | cons d rest => simp [EndsAt, ht]

/-- A spelling is read as its token, whatever follows that does not run into it. -/
theorem Spells.spelled_append {t : Token} {c : Char} {cs rest : List Char} (h : Spells t (c :: cs))
    (hrest : t.EndsAt rest) : spelled c (cs ++ rest) = .ok ⟨t, c :: cs, rest⟩ := by
  generalize htext : c :: cs = text at h
  cases h with
  | word hd hds =>
    cases htext
    obtain ⟨htake, hdrop⟩ := takeWhile_append_of_stop hds hrest
    rw [spelled_of_notMem_marks (notMem_marks_of_startsWord hd), isDigit_of_startsWord hd]
    simp [hd, spelledWhile, htake, hdrop]
  | number hd hds =>
    cases htext
    obtain ⟨htake, hdrop⟩ := takeWhile_append_of_stop hds hrest
    rw [spelled_of_notMem_marks (notMem_marks_of_isDigit hd)]
    simp [hd, spelledWhile, htake, hdrop]
  | quoted hq =>
    cases htext
    have := quotedText_append hq ((Token.endsAt_of_head?_ne fun _ => rfl).1 hrest)
    simp [spelled, spelledQuoted, this]
  | string hq =>
    cases htext
    have := quotedText_append hq ((Token.endsAt_of_head?_ne fun _ => rfl).1 hrest)
    simp [spelled, spelledQuoted, this]
  | symbol hb hc hd hw =>
    cases htext
    rw [spelled_of_notMem_marks hc]
    simp [hd, hw]
  | _ =>
    cases htext
    rfl

/-- `s` is the token that the text starts with, and the rest does not run into it. -/
structure Spelled.Sound (s : Spelled) (cs : List Char) : Prop where
  text_eq : cs = s.text ++ s.rest
  spells : Spells s.token s.text
  ends : s.token.EndsAt s.rest

theorem sound_spelledWhile {p : Char → Bool} {mk : String → Token} {c : Char} (cs : List Char)
    (hspells : ∀ {ds : List Char},
      (∀ d ∈ ds, p d = true) → Spells (mk (String.ofList (c :: ds))) (c :: ds))
    (hends : ∀ v d, (mk v).runsInto d = p d) : (spelledWhile p mk c cs).Sound (c :: cs) := by
  constructor
  · simp [spelledWhile]
  · exact hspells fun d hd => List.all_eq_true.1 List.all_takeWhile d hd
  · intro d hd
    have hhead : (cs.dropWhile p).head? = some d := hd
    have hstop := List.head?_dropWhile_not p cs
    rw [hhead] at hstop
    exact (hends _ d).trans (by simpa using hstop)

theorem sound_spelledQuoted {mk : String → Token} {e : LexError} {c : Char} {cs : List Char}
    {s : Spelled} (h : spelledQuoted mk e c cs = .ok s)
    (hspells : ∀ {v ds : List Char},
      quotedText c ds = some ⟨v, ds, []⟩ → Spells (mk (String.ofList v)) (c :: ds))
    (hends : ∀ v d, (mk v).runsInto d = (d == c)) : s.Sound (c :: cs) := by
  unfold spelledQuoted at h
  split at h
  · rename_i q hq
    cases h
    obtain ⟨heq, hhead, htext⟩ := quotedText_eq_some hq
    exact ⟨by simp [heq], hspells htext, (Token.endsAt_of_head?_ne (hends _)).2 hhead⟩
  · cases h

/-- What is read as a token is a spelling of it. -/
theorem sound_of_spelled {c : Char} {cs : List Char} {s : Spelled} (hgap : NoGap (c :: cs))
    (h : spelled c cs = .ok s) : s.Sound (c :: cs) := by
  by_cases hc : c ∈ marks
  · simp only [marks, List.mem_cons, List.not_mem_nil, or_false] at hc
    rcases hc with rfl | rfl | rfl | rfl | rfl | rfl | rfl
    · cases h
      exact ⟨rfl, .openParen, fun _ _ => rfl⟩
    · cases h
      exact ⟨rfl, .closeParen, fun _ _ => rfl⟩
    · cases h
      exact ⟨rfl, .comma, fun _ _ => rfl⟩
    · cases h
      exact ⟨rfl, .dot, fun _ _ => rfl⟩
    · cases h
      exact ⟨rfl, .semicolon, fun _ _ => rfl⟩
    · exact sound_spelledQuoted h .quoted fun _ _ => rfl
    · exact sound_spelledQuoted h .string fun _ _ => rfl
  · rw [spelled_of_notMem_marks hc] at h
    split at h
    · rename_i hd
      cases h
      exact sound_spelledWhile cs (.number hd) fun _ _ => rfl
    · rename_i hd
      split at h
      · rename_i hw
        cases h
        exact sound_spelledWhile cs (.word hw) fun _ _ => rfl
      · rename_i hw
        cases h
        refine ⟨rfl, .symbol hgap.isBlank hc (by simpa using hd) (by simpa using hw), ?_⟩
        intro d hd
        rw [Bool.eq_false_iff]
        intro hr
        simp only [Token.runsInto, Bool.or_eq_true, Bool.and_eq_true, beq_iff_eq] at hr
        rcases hr with ⟨rfl, rfl⟩ | ⟨rfl, rfl⟩
        · exact hgap.head_ne_dash hd
        · exact hgap.head_ne_star hd

end SchemaDdl.Script
