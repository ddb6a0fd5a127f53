import SchemaDdl.Proofs.Lexing.Chain
import SchemaDdl.Script.Region

/-!
# Pieces of lexemes

Reading a text piece by piece keeps in step with reading it lexeme by lexeme: behind every gap and
every token the reading by pieces is outside quotes and comments, and only punctuation tokens are
live on the way. The two differ inside a run of quotes, where pieces pair up from the first quote
and the lexer from the second, but they meet again at the end of the run.
-/

namespace SchemaDdl.Script

/-- The characters that a splitter acts upon. -/
def controls : List Char :=
  ['(', ')', ',', ';']

/-- No piece is a live control character. -/
def Quiet (ps : List Piece) : Prop :=
  ∀ p ∈ ps, ∀ c ∈ controls, p.isLive c = false

theorem quiet_nil : Quiet [] := by
  intro p hp
  cases hp

theorem quiet_cons {p : Piece} {ps : List Piece} (hp : ∀ c ∈ controls, p.isLive c = false)
    (hps : Quiet ps) : Quiet (p :: ps) := by
  intro p' hp'
  rcases List.mem_cons.1 hp' with rfl | hp'
  · exact hp
  · exact hps p' hp'

theorem isLive_single {r : Region} {c : Char} (h : c ∉ controls ∨ r.afterOne c ≠ .plain) :
    ∀ x ∈ controls, (Piece.single r c).isLive x = false := by
  intro x hx
  rcases h with h | h
  · have : c ≠ x := by
      rintro rfl
      exact h hx
    simp [Piece.isLive, Piece.single, this]
  · simp [Piece.isLive, Piece.single, h]

theorem pieces_single {r : Region} {c : Char} {cs : List Char}
    (h : ∀ d, cs.head? = some d → r.joins c d = false) :
    pieces r (c :: cs) = .single r c :: pieces (r.afterOne c) cs := by
  cases cs with
  | nil => rfl
  | cons d cs => simp [pieces, h d rfl]

theorem pieces_pair {r : Region} {c d : Char} (h : r.joins c d = true) (cs : List Char) :
    pieces r (c :: d :: cs) = .pair c d :: pieces (r.afterPair c) cs := by
  simp [pieces, h]

theorem quiet_single {r r' : Region} {c : Char} {cs : List Char} (hafter : r.afterOne c = r')
    (hcs : Quiet (pieces r' cs)) (hlive : c ∉ controls ∨ r' ≠ .plain)
    (hjoins : ∀ d, cs.head? = some d → r.joins c d = false) : Quiet (pieces r (c :: cs)) := by
  subst hafter
  rw [pieces_single hjoins]
  exact quiet_cons (isLive_single hlive) hcs

theorem quiet_pair {r r' : Region} {c d : Char} {cs : List Char} (hafter : r.afterPair c = r')
    (hcs : Quiet (pieces r' cs)) (hjoins : r.joins c d = true) :
    Quiet (pieces r (c :: d :: cs)) := by
  subst hafter
  rw [pieces_pair hjoins]
  exact quiet_cons (fun _ _ => rfl) hcs

/-- In front of `rest`, the text is read into quiet pieces that end outside quotes and comments. -/
def QuietlyRead (r : Region) (text rest : List Char) : Prop :=
  ∃ ps, Quiet ps ∧ pieces r (text ++ rest) = ps ++ pieces .plain rest

namespace QuietlyRead

variable {r r' : Region} {c d : Char} {text rest : List Char}

theorem nil : QuietlyRead .plain [] rest :=
  ⟨[], quiet_nil, rfl⟩

theorem single (hafter : r.afterOne c = r') (htext : QuietlyRead r' text rest)
    (hlive : c ∉ controls ∨ r' ≠ .plain)
    (hjoins : ∀ d, (text ++ rest).head? = some d → r.joins c d = false) :
    QuietlyRead r (c :: text) rest := by
  subst hafter
  obtain ⟨ps, hps, heq⟩ := htext
  refine ⟨.single r c :: ps, quiet_cons (isLive_single hlive) hps, ?_⟩
  rw [List.cons_append, pieces_single hjoins, heq, List.cons_append]

theorem pair (hafter : r.afterPair c = r') (htext : QuietlyRead r' text rest)
    (hjoins : r.joins c d = true) : QuietlyRead r (c :: d :: text) rest := by
  subst hafter
  obtain ⟨ps, hps, heq⟩ := htext
  refine ⟨.pair c d :: ps, quiet_cons (fun _ _ => rfl) hps, ?_⟩
  rw [List.cons_append, List.cons_append, pieces_pair hjoins, heq, List.cons_append]

theorem append {text' : List Char} (htext : QuietlyRead r text (text' ++ rest))
    (htext' : QuietlyRead .plain text' rest) : QuietlyRead r (text ++ text') rest := by
  obtain ⟨ps, hps, heq⟩ := htext
  obtain ⟨qs, hqs, heq'⟩ := htext'
  refine ⟨ps ++ qs, fun p hp => ?_, by rw [List.append_assoc, heq, heq', List.append_assoc]⟩
  rcases List.mem_append.1 hp with hp | hp
  · exact hps p hp
  · exact hqs p hp

theorem quiet (htext : QuietlyRead r text rest) (hrest : Quiet (pieces .plain rest)) :
    Quiet (pieces r (text ++ rest)) := by
  obtain ⟨ps, hps, heq⟩ := htext
  rw [heq]
  intro p hp
  rcases List.mem_append.1 hp with hp | hp
  · exact hps p hp
  · exact hrest p hp

end QuietlyRead

/-! ## Comments -/

theorem afterOne_lineComment {c : Char} (h : c ≠ '\n') :
    Region.lineComment.afterOne c = .lineComment := by
  simp [Region.afterOne, h]

theorem quietlyRead_lineComment {body text rest : List Char} (h : '\n' ∉ body)
    (htext : QuietlyRead .plain text rest) :
    QuietlyRead .lineComment (body ++ '\n' :: text) rest := by
  induction body with
  | nil => exact .single rfl htext (.inl (by decide)) fun _ _ => rfl
  | cons c body ih =>
    obtain ⟨hc, hb⟩ := not_or.1 (mt List.mem_cons.2 h)
    exact .single (afterOne_lineComment (Ne.symm hc)) (ih hb) (.inr (by simp)) fun _ _ => rfl

theorem quiet_lineComment {body : List Char} (h : '\n' ∉ body) :
    Quiet (pieces .lineComment body) := by
  induction body with
  | nil => exact quiet_nil
  | cons c body ih =>
    obtain ⟨hc, hb⟩ := not_or.1 (mt List.mem_cons.2 h)
    exact quiet_single (afterOne_lineComment (Ne.symm hc)) (ih hb) (.inr (by simp)) fun _ _ => rfl

theorem joins_blockComment {c d : Char} {cs : List Char}
    (hc : ∀ ds, c = '*' → cs = '/' :: ds → False) (hd : cs.head? = some d) :
    Region.blockComment.joins c d = false := by
  rw [Bool.eq_false_iff]
  intro hj
  simp only [Region.joins, Bool.and_eq_true, beq_iff_eq] at hj
  obtain ⟨rfl, rfl⟩ := hj
  cases cs with
  | nil => cases hd
  | cons e cs =>
    cases hd
    exact hc cs rfl rfl

theorem quietlyRead_blockComment {body text rest : List Char}
    (h : blockComment body = some (body, [])) (htext : QuietlyRead .plain text rest) :
    QuietlyRead .blockComment (body ++ text) rest := by
  fun_induction blockComment body with
  | case1 cs =>
    cases h
    exact .pair rfl htext rfl
  | case2 c cs hc ih =>
    obtain ⟨⟨a, b⟩, hab, heq⟩ := Option.map_eq_some_iff.1 h
    cases heq
    have hafter : Region.blockComment.afterOne c = .blockComment := rfl
    refine .single hafter (ih hab) (.inr (by simp)) fun d hd => ?_
    cases cs with
    | nil => simp [blockComment] at hab
    | cons e cs => exact joins_blockComment hc hd
  | case3 => cases h

theorem quiet_blockComment {body : List Char} (h : blockComment body = none) :
    Quiet (pieces .blockComment body) := by
  fun_induction blockComment body with
  | case1 cs => cases h
  | case2 c cs hc ih =>
    rw [Option.map_eq_none_iff] at h
    have hafter : Region.blockComment.afterOne c = .blockComment := rfl
    exact quiet_single hafter (ih h) (.inr (by simp)) fun d => joins_blockComment hc
  | case3 => exact quiet_nil

/-! ## Quoted texts -/

/-- The quotes, each with the region that it opens. -/
inductive Opens : Char → Region → Prop
  | single : Opens '\'' .single
  | double : Opens '"' .double

namespace Opens

variable {q : Char} {r : Region} (h : Opens q r)
include h

theorem joins_plain (d : Char) : Region.plain.joins q d = (d == q) := by
  cases h <;> simp [Region.joins]

theorem joins_inside (c d : Char) : r.joins c d = (c == q && d == q) := by
  cases h <;> rfl

theorem afterPair_plain : Region.plain.afterPair q = .plain := by
  cases h <;> rfl

theorem afterPair_inside (c : Char) : r.afterPair c = r := by
  cases h <;> rfl

theorem afterOne_plain : Region.plain.afterOne q = r := by
  cases h <;> rfl

theorem afterOne_close : r.afterOne q = .plain := by
  cases h <;> rfl

theorem afterOne_inside {c : Char} (hc : c ≠ q) : r.afterOne c = r := by
  cases h <;> simp [Region.afterOne, hc]

theorem ne_plain : r ≠ .plain := by
  cases h <;> simp

theorem notMem_controls : q ∉ controls := by
  cases h <;> decide

/-- Inside the quotes, pieces and lexer pair up the same quotes. -/
theorem quietlyRead_inside {cs v rest : List Char} (hq : quotedText q cs = some ⟨v, cs, []⟩)
    (hrest : rest.head? ≠ some q) : QuietlyRead r cs rest := by
  fun_induction quotedText q cs generalizing v with
  | case1 => cases hq
  | case2 c hc =>
    rw [beq_iff_eq] at hc
    subst hc
    refine .single h.afterOne_close .nil (.inl h.notMem_controls) fun d hd => ?_
    have : d ≠ c := by
      rintro rfl
      exact hrest hd
    simp [h.joins_inside, this]
  | case3 => cases hq
  | case4 c d cs hc hd ih =>
    obtain ⟨⟨w, text, r'⟩, hr, heq⟩ := Option.map_eq_some_iff.1 hq
    cases heq
    exact .pair (h.afterPair_inside c) (ih hr) (by rw [h.joins_inside, hc, hd]; rfl)
  | case5 => cases hq
  | case6 c d cs hc ih =>
    obtain ⟨⟨w, text, r'⟩, hr, heq⟩ := Option.map_eq_some_iff.1 hq
    cases heq
    have hafter := h.afterOne_inside (by simpa using hc)
    refine .single hafter (ih hr) (.inr h.ne_plain) fun e he => ?_
    simp [h.joins_inside, hc]

theorem quiet_inside {cs : List Char} (hq : quotedText q cs = none) : Quiet (pieces r cs) := by
  fun_induction quotedText q cs with
  | case1 => exact quiet_nil
  | case2 => cases hq
  | case3 c hc =>
    have hafter := h.afterOne_inside (by simpa using hc)
    exact quiet_single hafter quiet_nil (.inr h.ne_plain) (by simp)
  | case4 c d cs hc hd ih =>
    rw [Option.map_eq_none_iff] at hq
    exact quiet_pair (h.afterPair_inside c) (ih hq) (by rw [h.joins_inside, hc, hd]; rfl)
  | case5 => cases hq
  | case6 c d cs hc ih =>
    rw [Option.map_eq_none_iff] at hq
    have hafter := h.afterOne_inside (by simpa using hc)
    refine quiet_single hafter (ih hq) (.inr h.ne_plain) fun e he => ?_
    simp [h.joins_inside, hc]

/-- A run of quotes in front of a quoted text is paired up from the opening quote by pieces and
from the quote behind it by the lexer. Both leave the run on the same side of the quotes. -/
theorem quietlyRead_outside {cs v rest : List Char} (hq : quotedText q cs = some ⟨v, cs, []⟩)
    (hrest : rest.head? ≠ some q) : QuietlyRead .plain (q :: cs) rest := by
  fun_induction quotedText q cs generalizing v with
  | case1 => cases hq
  | case2 c hc =>
    rw [beq_iff_eq] at hc
    subst hc
    exact .pair h.afterPair_plain .nil (by simp [h.joins_plain])
  | case3 => cases hq
  | case4 c d cs hc hd ih =>
    obtain ⟨⟨w, text, r'⟩, hr, heq⟩ := Option.map_eq_some_iff.1 hq
    cases heq
    rw [beq_iff_eq] at hc hd
    subst hc hd
    exact .pair h.afterPair_plain (ih hr) (by simp [h.joins_plain])
  | case5 => cases hq
  | case6 c d cs hc ih =>
    have hinside : QuietlyRead r (c :: d :: cs) rest :=
      h.quietlyRead_inside (by simpa [quotedText, hc] using hq) hrest
    refine .single h.afterOne_plain hinside (.inl h.notMem_controls) fun e he => ?_
    cases he
    simpa [h.joins_plain] using hc

theorem quiet_outside {cs : List Char} (hq : quotedText q cs = none) :
    Quiet (pieces .plain (q :: cs)) := by
  fun_induction quotedText q cs with
  | case1 =>
    exact quiet_single h.afterOne_plain quiet_nil (.inl h.notMem_controls) (by simp)
  | case2 => cases hq
  | case3 c hc =>
    have hinside : Quiet (pieces r [c]) := h.quiet_inside (by simpa [quotedText] using hc)
    refine quiet_single h.afterOne_plain hinside (.inl h.notMem_controls) fun e he => ?_
    cases he
    simpa [h.joins_plain] using hc
  | case4 c d cs hc hd ih =>
    rw [Option.map_eq_none_iff] at hq
    rw [beq_iff_eq] at hc hd
    subst hc hd
    exact quiet_pair h.afterPair_plain (ih hq) (by simp [h.joins_plain])
  | case5 => cases hq
  | case6 c d cs hc ih =>
    have hinside : Quiet (pieces r (c :: d :: cs)) :=
      h.quiet_inside (by simpa [quotedText, hc] using hq)
    refine quiet_single h.afterOne_plain hinside (.inl h.notMem_controls) fun e he => ?_
    cases he
    simpa [h.joins_plain] using hc

end Opens

/-! ## Gaps and tokens -/

/-- The characters that a splitter may take for more than a part of a text. -/
def active : List Char :=
  controls ++ ['\'', '"', '-', '/']

theorem quietlyRead_of_notMem_active {text rest : List Char} (h : ∀ c ∈ text, c ∉ active) :
    QuietlyRead .plain text rest := by
  induction text with
  | nil => exact .nil
  | cons c cs ih =>
    have hc := h c List.mem_cons_self
    simp only [active, List.mem_append, List.mem_cons, List.not_mem_nil, or_false, not_or] at hc
    have hplain : Region.plain.afterOne c = .plain := by
      simp [Region.afterOne, hc]
    refine .single hplain (ih fun d hd => h d (List.mem_cons_of_mem c hd)) (.inl hc.1) ?_
    intro d _
    simp [Region.joins, hc]

theorem ClosedGap.quietlyRead {g : List Char} (h : ClosedGap g) (rest : List Char) :
    QuietlyRead .plain g rest := by
  induction h with
  | nil => exact .nil
  | @blank c g hc _ ih =>
    have hread : QuietlyRead .plain [c] (g ++ rest) := by
      apply quietlyRead_of_notMem_active
      simpa using notMem_of_class (by decide) hc
    exact hread.append ih
  | line hb _ ih => exact .pair rfl (quietlyRead_lineComment hb ih) rfl
  | block hb _ ih => exact .pair rfl (quietlyRead_blockComment hb ih) rfl

theorem FinalGap.quiet {g : List Char} (h : FinalGap g) : Quiet (pieces .plain g) := by
  cases h with
  | closed h =>
    have := (h.quietlyRead []).quiet quiet_nil
    rwa [List.append_nil] at this
  | line h hb =>
    exact (h.quietlyRead _).quiet (quiet_pair rfl (quiet_lineComment hb) rfl)

theorem Torn.quiet {e : LexError} {rest : List Char} (h : Torn e rest) :
    Quiet (pieces .plain rest) := by
  cases h with
  | comment hg hb => exact (hg.quietlyRead _).quiet (quiet_pair rfl (quiet_blockComment hb) rfl)
  | identifier hg hb => exact (hg.quietlyRead _).quiet (Opens.double.quiet_outside hb)
  | string hg hb => exact (hg.quietlyRead _).quiet (Opens.single.quiet_outside hb)

/-- The control character that the token is. -/
def Token.control? : Token → Option Char
  | .openParen => some '('
  | .closeParen => some ')'
  | .comma => some ','
  | .semicolon => some ';'
  | _ => none

theorem Spells.text_of_control {t : Token} {text : List Char} {c : Char} (h : Spells t text)
    (ht : t.control? = some c) : text = [c] ∧ c ∈ controls := by
  cases h <;> cases ht <;> exact ⟨rfl, by decide⟩

/-- A token that is no control character is read quietly. -/
theorem Spells.quietlyRead {t : Token} {text rest : List Char} (h : Spells t text)
    (hrest : t.EndsAt rest) (ht : t.control? = none) : QuietlyRead .plain text rest := by
  cases h with
  | word hc hcs =>
    apply quietlyRead_of_notMem_active
    intro d hd
    rcases List.mem_cons.1 hd with rfl | hd
    · exact notMem_of_class (by decide) hc
    · exact notMem_of_class (by decide) (hcs d hd)
  | number hc hcs =>
    apply quietlyRead_of_notMem_active
    intro d hd
    rcases List.mem_cons.1 hd with rfl | hd
    · exact notMem_of_class (p := Char.isDigit) (by decide) hc
    · exact notMem_of_class (by decide) (hcs d hd)
  | quoted hq =>
    exact Opens.double.quietlyRead_outside hq ((Token.endsAt_of_head?_ne fun _ => rfl).1 hrest)
  | string hq =>
    exact Opens.single.quietlyRead_outside hq ((Token.endsAt_of_head?_ne fun _ => rfl).1 hrest)
  | dot =>
    apply quietlyRead_of_notMem_active
    simp [active, controls]
  | @symbol c _ hc _ _ =>
    simp only [marks, List.mem_cons, List.not_mem_nil, or_false, not_or] at hc
    have hplain : Region.plain.afterOne c = .plain := by
      simp [Region.afterOne, hc]
    refine .single hplain .nil (.inl ?_) ?_
    · simp [controls, hc]
    · intro d hd
      simpa [Region.joins, Token.runsInto, hc] using hrest d hd
  | openParen | closeParen | comma | semicolon => cases ht

/-! ## Cutting -/

theorem flatMap_chars_of_quietlyRead {r : Region} {text rest : List Char} {ps : List Piece}
    (h : pieces r (text ++ rest) = ps ++ pieces .plain rest) : ps.flatMap Piece.chars = text := by
  have := congrArg (List.flatMap Piece.chars) h
  rw [List.flatMap_append, flatMap_chars_pieces, flatMap_chars_pieces] at this
  exact (List.append_cancel_right this).symm

theorem cut_quiet_append {sep : Char} (hsep : sep ∈ controls) (depth : Nat) {ps : List Piece}
    (hps : Quiet ps) (qs : List Piece) :
    cut sep depth (ps ++ qs) = (cut sep depth qs).modifyHead (ps.flatMap Piece.chars ++ ·) := by
  induction ps with
  | nil => cases h : cut sep depth qs <;> simp [h]
  | cons p ps ih =>
    have hp := hps p List.mem_cons_self
    have hdepth : p.depthAfter depth = depth := by
      simp [Piece.depthAfter, hp '(' (by decide), hp ')' (by decide)]
    rw [List.cons_append, cut, hp sep hsep, hdepth, ih fun q hq => hps q (List.mem_cons_of_mem p hq)]
    cases cut sep depth qs <;> simp

theorem QuietlyRead.cut_eq {sep : Char} (hsep : sep ∈ controls) {r : Region}
    {text rest : List Char} (h : QuietlyRead r text rest) (depth : Nat) :
    cut sep depth (pieces r (text ++ rest)) =
      (cut sep depth (pieces .plain rest)).modifyHead (text ++ ·) := by
  obtain ⟨ps, hps, heq⟩ := h
  rw [heq, cut_quiet_append hsep depth hps, flatMap_chars_of_quietlyRead heq]

theorem cut_of_quiet {sep : Char} (hsep : sep ∈ controls) {r : Region} {cs : List Char}
    (h : Quiet (pieces r cs)) (depth : Nat) : cut sep depth (pieces r cs) = [cs] := by
  have := cut_quiet_append hsep depth h []
  rw [List.append_nil, flatMap_chars_pieces] at this
  simpa [cut] using this

theorem afterOne_of_mem_controls {c : Char} (h : c ∈ controls) : Region.plain.afterOne c = .plain := by
  simp only [controls, List.mem_cons, List.not_mem_nil, or_false] at h
  rcases h with rfl | rfl | rfl | rfl <;> rfl

theorem pieces_of_mem_controls {c : Char} (h : c ∈ controls) (cs : List Char) :
    pieces .plain (c :: cs) = .single .plain c :: pieces .plain cs := by
  rw [pieces_single, afterOne_of_mem_controls h]
  intro d _
  simp only [controls, List.mem_cons, List.not_mem_nil, or_false] at h
  rcases h with rfl | rfl | rfl | rfl <;> simp [Region.joins]

/-- The cut in front of one lexeme: at the lexeme if it is the separator at depth 0, and else
somewhere behind it. -/
theorem cut_lexeme {sep : Char} (hsep : sep ∈ controls) {l : Lexeme} {rest : List Char}
    (hl : l.Whole) (hrest : l.token.EndsAt rest) (depth : Nat) :
    cut sep depth (pieces .plain (l.gap ++ (l.text ++ rest))) =
      if depth = 0 ∧ l.token.control? = some sep then l.gap :: cut sep 0 (pieces .plain rest)
      else (cut sep (l.token.depthAfter depth) (pieces .plain rest)).modifyHead
        (l.gap ++ l.text ++ ·) := by
  have hmodify (xss : List (List Char)) :
      (xss.modifyHead (l.text ++ ·)).modifyHead (l.gap ++ ·) =
        xss.modifyHead (l.gap ++ l.text ++ ·) := by
    cases xss <;> simp
  rw [(hl.gap.quietlyRead _).cut_eq hsep]
  cases hc : l.token.control? with
  | none =>
    have hdepth : l.token.depthAfter depth = depth := by
      cases ht : l.token <;> simp_all [Token.control?, Token.depthAfter]
    rw [(hl.text.quietlyRead hrest hc).cut_eq hsep, hmodify, hdepth]
    simp
  | some c =>
    obtain ⟨htext, hmem⟩ := hl.text.text_of_control hc
    have hlive (x : Char) : (Piece.single .plain c).isLive x = (c == x) := by
      simp [Piece.isLive, Piece.single, afterOne_of_mem_controls hmem]
    have hdepth : (Piece.single .plain c).depthAfter depth = l.token.depthAfter depth := by
      simp only [Piece.depthAfter, hlive]
      cases ht : l.token <;> simp [ht, Token.control?] at hc <;> subst hc <;> rfl
    rw [htext, List.singleton_append, pieces_of_mem_controls hmem, cut, hlive, hdepth]
    by_cases hcut : depth = 0 ∧ c = sep
    · simp [hcut]
    · have hcut' : (depth == 0 && c == sep) = false := by simpa using hcut
      have hchars : (Piece.single .plain c).chars = l.text := htext.symm
      have hsome : ¬(depth = 0 ∧ some c = some sep) := by simpa using hcut
      rw [hcut', hchars, if_neg hsome, ← htext, ← hmodify]
      simp

end SchemaDdl.Script
