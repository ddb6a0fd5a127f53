import SchemaDdl.Proofs.Lexing.Slice
import SchemaDdl.Proofs.Lexing.Trim

/-!
# Byte offsets of tokens

Tokens stand one behind the other with only white space and comments between them, and what their
offsets cut out of a text is read as the same tokens again.
-/

namespace SchemaDdl.Script

/-- The tokens of a text with their byte offsets. -/
def spanned (text : List Char) : Except LexError (List Span) :=
  (lex text).map (spans 0)

/-- The token as it stands `n` bytes further on. -/
def Span.shift (n : Nat) (s : Span) : Span :=
  { s with start := n + s.start, stop := n + s.stop }

/-- The offsets of the gap in front of each token. -/
def gapBounds (ss : List Span) : List (Nat × Nat) :=
  (0 :: ss.map Span.stop).zip (ss.map Span.start)

/-- Where the last token stops. -/
def lastStop (ss : List Span) : Nat :=
  (ss.map Span.stop).getLast?.getD 0

theorem spanned_eq_ok_iff {text : List Char} {ss : List Span} :
    spanned text = .ok ss ↔ ∃ ls last, text = written ls ++ last ∧ Chain ls last ∧ FinalGap last ∧
      ss = spans 0 ls := by
  constructor
  · intro h
    obtain ⟨ls, hlex, rfl⟩ := exists_of_map_eq_ok h
    obtain ⟨⟨ls, last⟩, hlexemes, rfl⟩ := exists_of_map_eq_ok hlex
    obtain ⟨htext, hls, hlast⟩ := lexemes_eq_ok_iff.1 hlexemes
    exact ⟨ls, last, htext, hls, hlast, rfl⟩
  · rintro ⟨ls, last, rfl, hls, hlast, rfl⟩
    rw [spanned, lex_of_chain hls hlast]
    rfl

section Offsets

variable (n : Nat) (xs ys ls : List Lexeme) (l : Lexeme)

theorem spans_append :
    spans n (xs ++ ys) = spans n xs ++ spans (n + byteLength (written xs)) ys := by
  induction xs generalizing n with
  | nil => rfl
  | cons x xs ih =>
    rw [List.cons_append, spans, ih, spans, List.cons_append, written_cons, byteLength_append,
      byteLength_append]
    simp only [Nat.add_assoc]

@[simp] theorem length_spans : (spans n ls).length = ls.length := by
  induction ls generalizing n with
  | nil => rfl
  | cons l ls ih => rw [spans, List.length_cons, List.length_cons, ih]

@[simp] theorem map_token_spans : (spans n ls).map Span.token = ls.map Lexeme.token := by
  induction ls generalizing n with
  | nil => rfl
  | cons l ls ih => rw [spans, List.map_cons, List.map_cons, ih]

theorem map_shift_spans (m : Nat) : (spans n ls).map (.shift m) = spans (m + n) ls := by
  induction ls generalizing n with
  | nil => rfl
  | cons l ls ih =>
    rw [spans, spans, List.map_cons, ih]
    simp only [Span.shift, Nat.add_assoc]

/-- Offsets counted from behind the gap in front are those without the gap. -/
theorem spans_regap : spans (n + byteLength l.gap) (regap [] (l :: ls)) = spans n (l :: ls) := rfl

end Offsets

section Chain

variable {n : Nat} {ls : List Lexeme} {last : List Char}

theorem le_start_of_mem_spans {s : Span} (h : s ∈ spans n ls) : n ≤ s.start := by
  induction ls generalizing n with
  | nil => cases h
  | cons l ls ih =>
    rw [spans] at h
    rcases List.mem_cons.1 h with rfl | h
    · exact Nat.le_add_right _ _
    · have := ih h
      omega

/-- Every token stops before the next one starts. -/
theorem pairwise_spans (n : Nat) (ls : List Lexeme) :
    (spans n ls).Pairwise fun s t => s.stop ≤ t.start := by
  induction ls generalizing n with
  | nil => exact .nil
  | cons l ls ih => exact .cons (fun t ht => le_start_of_mem_spans ht) (ih _)

theorem lastStop_spans (ls : List Lexeme) : lastStop (spans 0 ls) = byteLength (written ls) := by
  rcases List.eq_nil_or_concat ls with rfl | ⟨front, l, rfl⟩
  · rfl
  · rw [List.concat_eq_append, spans_append, lastStop, spans, spans]
    simp [Nat.add_assoc]

/-- Where a lexeme starts and stops behind `before`. -/
def Lexeme.spanBehind (l : Lexeme) (n : Nat) (before : List Lexeme) : Span where
  token := l.token
  start := n + byteLength (written before ++ l.gap)
  stop := n + byteLength (written before ++ l.gap ++ l.text)

theorem exists_of_getElem?_spans {i : Nat} {s : Span} (h : (spans n ls)[i]? = some s) :
    ∃ xs l ys, ls = xs ++ l :: ys ∧ xs.length = i ∧ s = l.spanBehind n xs := by
  induction ls generalizing n i with
  | nil => cases h
  | cons l ls ih =>
    cases i with
    | zero =>
      cases h
      exact ⟨[], l, ls, rfl, rfl, by simp [Lexeme.spanBehind, Nat.add_assoc]⟩
    | succ i =>
      obtain ⟨xs, m, ys, rfl, rfl, rfl⟩ := ih h
      exact ⟨l :: xs, m, ys, rfl, rfl, by simp [Lexeme.spanBehind, Nat.add_assoc]⟩

theorem exists_of_mem_gapBounds {b : Nat × Nat}
    (h : b ∈ (n :: (spans n ls).map Span.stop).zip ((spans n ls).map Span.start)) :
    ∃ xs l ys, ls = xs ++ l :: ys ∧
      b = (n + byteLength (written xs), n + byteLength (written xs ++ l.gap)) := by
  induction ls generalizing n with
  | nil => cases h
  | cons l ls ih =>
    rw [spans, List.map_cons, List.map_cons, List.zip_cons_cons] at h
    rcases List.mem_cons.1 h with rfl | h
    · exact ⟨[], l, ls, rfl, by simp⟩
    · obtain ⟨xs, m, ys, rfl, rfl⟩ := ih h
      exact ⟨l :: xs, m, ys, rfl, by simp [Nat.add_assoc]⟩

/-- Lexemes from the middle of a chain are read again without what is around them. -/
theorem Chain.lex_verbatim {xs ms ys : List Lexeme} (h : Chain (xs ++ (ms ++ ys)) last)
    (hms : ms ≠ []) : lex (verbatim ms) = .ok (Script.regap [] ms) := by
  obtain ⟨-, h⟩ := Chain.append_iff.1 h
  obtain ⟨h, -⟩ := Chain.append_iff.1 h
  have hread := lex_of_chain ((h.stop stops_nil).regap .nil) (.closed .nil)
  rwa [written_regap hms, List.nil_append, List.append_nil] at hread

/-- The part of a text from one token to another is read as the tokens in between. -/
theorem Chain.lift {xs ms ys : List Lexeme} {l : Lexeme} (h : Chain (xs ++ (l :: ms ++ ys)) last) :
    ∃ part, slice? (written (xs ++ (l :: ms ++ ys)) ++ last) (byteLength (written xs ++ l.gap))
        (byteLength (written (xs ++ l :: ms))) = some part ∧
      (spanned part).map (List.map (Span.shift (byteLength (written xs ++ l.gap)))) =
        .ok (spans (byteLength (written xs)) (l :: ms)) := by
  have hms : l :: ms ≠ [] := List.cons_ne_nil l ms
  have hverbatim : written (l :: ms) = l.gap ++ verbatim (l :: ms) := written_regap hms
  refine ⟨verbatim (l :: ms),
    slice?_eq_some_iff.2 ⟨written xs ++ l.gap, written ys ++ last, ?_, rfl, ?_⟩, ?_⟩
  · rw [written_append, written_append, hverbatim]
    simp
  · rw [written_append, hverbatim]
    simp
  · have hshift := map_shift_spans 0 (Script.regap [] (l :: ms)) (byteLength (written xs ++ l.gap))
    rw [Nat.add_zero, byteLength_append, spans_regap] at hshift
    rw [spanned, h.lex_verbatim hms, ← hshift, byteLength_append]
    rfl

/-- The lexemes from one token to another, with the offsets where they start and stop. -/
theorem exists_between {i j : Nat} {a b : Span} (hij : i ≤ j) (ha : (spans 0 ls)[i]? = some a)
    (hb : (spans 0 ls)[j]? = some b) :
    ∃ xs l ms ys, ls = xs ++ (l :: ms ++ ys) ∧ a.start = byteLength (written xs ++ l.gap) ∧
      b.stop = byteLength (written (xs ++ l :: ms)) ∧
      ((spans 0 ls).drop i).take (j + 1 - i) = spans (byteLength (written xs)) (l :: ms) := by
  obtain ⟨xs, l, ys, rfl, rfl, rfl⟩ := exists_of_getElem?_spans ha
  have hlength : (spans 0 xs).length = xs.length := length_spans 0 xs
  rw [spans_append, List.getElem?_append_right (by rwa [hlength]), hlength] at hb
  obtain ⟨zs, m, ws, hys, hzs, rfl⟩ := exists_of_getElem?_spans hb
  obtain ⟨ms, hms⟩ : ∃ ms, zs ++ [m] = l :: ms := by
    cases zs with
    | nil => exact ⟨[], by rw [(List.cons.inj hys).1]; rfl⟩
    | cons z zs => exact ⟨zs ++ [m], by rw [(List.cons.inj hys).1]; rfl⟩
  have hlexemes : l :: ys = l :: ms ++ ws := by rw [hys, ← hms, List.append_assoc]; rfl
  have hcount : (l :: ms).length = j + 1 - xs.length := by
    rw [← hms, List.length_append, hzs, List.length_singleton]
    omega
  refine ⟨xs, l, ms, ws, by rw [hlexemes], by rw [Lexeme.spanBehind, Nat.zero_add], ?_, ?_⟩
  · rw [← hms]
    simp [Lexeme.spanBehind]
  · rw [spans_append, List.drop_left' hlength, Nat.zero_add, hlexemes, spans_append]
    exact List.take_left' ((length_spans (byteLength (written xs)) (l :: ms)).trans hcount)

end Chain

/-- The offsets of the tokens of a text cut it up: every token and every gap between them is a part of
the text, and the part from one token to another is read as the tokens in between. -/
theorem spanned_lift {text : List Char} {ss : List Span} (h : spanned text = .ok ss) :
    (∀ s ∈ ss, s.start < s.stop ∧ ∃ part, slice? text s.start s.stop = some part) ∧
    (ss.Pairwise fun s t => s.stop ≤ t.start) ∧
    (∀ b ∈ gapBounds ss, ∃ g, slice? text b.1 b.2 = some g ∧ ClosedGap g) ∧
    (∃ g, slice? text (lastStop ss) (byteLength text) = some g ∧ FinalGap g) ∧
    ∀ i j a b, i ≤ j → ss[i]? = some a → ss[j]? = some b →
      ∃ part, slice? text a.start b.stop = some part ∧
        (spanned part).map (List.map (Span.shift a.start)) = .ok ((ss.drop i).take (j + 1 - i)) := by
  obtain ⟨ls, last, rfl, hls, hlast, rfl⟩ := spanned_eq_ok_iff.1 h
  refine ⟨?_, pairwise_spans 0 ls, ?_, ?_, ?_⟩
  · intro s hs
    obtain ⟨i, hi⟩ := List.mem_iff_getElem?.1 hs
    obtain ⟨xs, l, ys, rfl, -, rfl⟩ := exists_of_getElem?_spans hi
    obtain ⟨c, cs, htext⟩ := (Chain.append_iff.1 hls).2.1.text.exists_cons
    have hpos : 0 < byteLength l.text := byteLength_pos (by rw [htext]; exact List.cons_ne_nil c cs)
    constructor
    · simp only [Lexeme.spanBehind, byteLength_append]
      omega
    · refine ⟨l.text, slice?_eq_some_iff.2 ⟨written xs ++ l.gap, written ys ++ last, ?_, ?_, ?_⟩⟩ <;>
        simp [Lexeme.spanBehind]
  · intro b hb
    obtain ⟨xs, l, ys, rfl, rfl⟩ := exists_of_mem_gapBounds hb
    refine ⟨l.gap, slice?_eq_some_iff.2 ⟨written xs, l.text ++ (written ys ++ last), ?_, ?_, ?_⟩,
      (Chain.append_iff.1 hls).2.1.gap⟩ <;> simp
  · refine ⟨last, slice?_eq_some_iff.2 ⟨written ls, [], ?_, lastStop_spans ls, ?_⟩, hlast⟩ <;> simp
  · intro i j a b hij ha hb
    obtain ⟨xs, l, ms, ys, rfl, hstart, hstop, hbetween⟩ := exists_between hij ha hb
    rw [hstart, hstop, hbetween]
    exact hls.lift

/-- Two bytes of a letter and a comment stand in front of a literal that is one quote. -/
theorem spanned_lift_quote :
    spanned "é/**/''''".toList = .ok [⟨.word "é", 0, 2⟩, ⟨.string "'", 6, 10⟩] ∧
    ∃ part, slice? "é/**/''''".toList 6 10 = some part ∧
      (spanned part).map (List.map (Span.shift 6)) = .ok [⟨.string "'", 6, 10⟩] := by
  have hword : Lexeme.Whole ⟨[], ['é'], .word "é"⟩ := ⟨.nil, .word (by decide) (by simp)⟩
  have hcomment : blockComment ['*', '/'] = some (['*', '/'], []) := rfl
  have hquote : Lexeme.Whole ⟨"/**/".toList, "''''".toList, .string "'"⟩ :=
    ⟨.block hcomment .nil, .string (v := ['\'']) rfl⟩
  have hread : spanned "é/**/''''".toList = .ok [⟨.word "é", 0, 2⟩, ⟨.string "'", 6, 10⟩] :=
    spanned_eq_ok_iff.2 ⟨[⟨[], ['é'], .word "é"⟩, ⟨"/**/".toList, "''''".toList, .string "'"⟩], [],
      rfl, ⟨hword, stops_cons (by decide) _ _, hquote, Token.endsAt_nil _, trivial⟩, .closed .nil, rfl⟩
  exact ⟨hread, (spanned_lift hread).2.2.2.2 1 1 _ _ (Nat.le_refl 1) rfl rfl⟩

end SchemaDdl.Script
