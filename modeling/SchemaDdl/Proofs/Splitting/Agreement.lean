import SchemaDdl.Proofs.Splitting.Segments
import SchemaDdl.Script.Statement

/-!
# Splitters and lexer agree

Splitting a text and then reading the parts gives the tokens of the text. Only semicolons that
stand alone and commas beside a blank item get lost, and a text that breaks off does so in its
last statement.
-/

namespace SchemaDdl.Script

/-- Closes a segment with the semicolon behind it. -/
def Segment.close (s : Segment) : Segment :=
  ⟨s.lexemes ++ [⟨s.rest, [';'], .semicolon⟩], []⟩

theorem Segment.text_close (s : Segment) : s.close.text = s.text ++ [';'] := by
  simp [close, text]

/-- All segments but the last one closed. -/
def ended : List Segment → List Segment
  | [] => []
  | [s] => [s]
  | s :: t :: ts => s.close :: ended (t :: ts)

theorem ended_append (front : List Segment) (last : Segment) :
    ended (front ++ [last]) = front.map Segment.close ++ [last] := by
  induction front with
  | nil => rfl
  | cons s ss ih =>
    cases ss with
    | nil => rfl
    | cons t ts =>
      rw [List.cons_append, List.cons_append, ended, ← List.cons_append, ih]
      rfl

theorem ended_cons (s : Segment) {ss : List Segment} (h : ss ≠ []) :
    ended (s :: ss) = s.close :: ended ss := by
  cases ss with
  | nil => exact absurd rfl h
  | cons t ts => rfl

theorem terminated_map_text (ss : List Segment) :
    stretches.terminated (ss.map Segment.text) = (ended ss).map Segment.text := by
  fun_induction ended ss with
  | case1 => rfl
  | case2 s => rfl
  | case3 s t ts ih =>
    rw [List.map_cons, List.map_cons, stretches.terminated, ← List.map_cons, ih, List.map_cons,
      Segment.text_close]
    simp

/-- Whether a trimmed stretch of a script is no statement. -/
def isBare (text : List Char) : Bool :=
  text == [] || text == [';']

theorem map_text_statements (script : List Char) :
    (statements script).map Statement.text =
      ((stretches script).map Text.trim).filter fun text => !isBare text := by
  have hnumbered (line : Nat) (ss : List (List Char)) :
      (numberedStatements line ss).map Statement.text =
        (ss.map Text.trim).filter fun text => !isBare text := by
    induction ss generalizing line with
    | nil => rfl
    | cons s ss ih =>
      rw [numberedStatements, List.map_append, ih, List.map_cons, List.filter_cons]
      have hs : statementAt line s = if isBare (Text.trim s) then none else
          some ⟨line + newlines (s.takeWhile Text.isBlank), Text.trim s⟩ := rfl
      rw [hs]
      cases isBare (Text.trim s) <;> simp
  exact hnumbered 1 (stretches script)

theorem map_text_statements_of_chain {ls : List Lexeme} {rest : List Char} (h : Chain ls rest)
    (hrest : Quiet (pieces .plain rest)) :
    (statements (written ls ++ rest)).map Statement.text =
      ((ended (segments .semicolon 0 ls rest)).map fun s => Text.trim s.text).filter fun text =>
        !isBare text := by
  rw [map_text_statements, stretches, h.cut_eq hrest .semicolon rfl, terminated_map_text, List.map_map]
  rfl

theorem listItems_of_chain {ls : List Lexeme} {rest : List Char} (h : Chain ls rest)
    (hrest : Quiet (pieces .plain rest)) :
    listItems (written ls ++ rest) =
      ((segments .comma 0 ls rest).map fun s => Text.trim s.text).filter (· ≠ []) := by
  rw [listItems, h.cut_eq hrest .comma rfl, List.map_map]
  rfl

/-! ## Statements -/

/-- The lexemes of a script without the semicolons that stand as bare statements: outside
parentheses, with only white space between them and the statement before. `atStart` says that a
statement is yet to begin. -/
def withoutBare : Bool → Nat → List Lexeme → List Lexeme
  | _, _, [] => []
  | atStart, depth, l :: ls =>
    if depth = 0 ∧ l.token = .semicolon then
      if atStart && l.gap.all Text.isBlank then withoutBare true 0 ls
      else l :: withoutBare true 0 ls
    else l :: withoutBare false (l.token.depthAfter depth) ls

theorem withoutBare_of_standsOutside_eq_false {depth : Nat} {ls : List Lexeme} (atStart : Bool)
    (h : standsOutside .semicolon depth (ls.map Lexeme.token) = false) :
    withoutBare atStart depth ls = ls := by
  induction ls generalizing atStart depth with
  | nil => rfl
  | cons l ls ih =>
    simp only [List.map_cons, standsOutside, Bool.or_eq_false_iff, Bool.and_eq_false_imp,
      beq_iff_eq, beq_eq_false_iff_ne] at h
    obtain ⟨hl, hls⟩ := h
    rw [withoutBare, if_neg fun hsep => hl hsep.1 hsep.2, ih false hls]

theorem withoutBare_append {depth : Nat} {xs ys : List Lexeme} {l : Lexeme} (atStart : Bool)
    (hxs : standsOutside .semicolon depth (xs.map Lexeme.token) = false)
    (hdepth : depthThrough depth (xs.map Lexeme.token) = 0) (hl : l.token = .semicolon) :
    withoutBare atStart depth (xs ++ l :: ys) =
      (if atStart && xs.isEmpty && l.gap.all Text.isBlank then [] else xs ++ [l]) ++
        withoutBare true 0 ys := by
  induction xs generalizing atStart depth with
  | nil =>
    rw [List.nil_append, withoutBare, if_pos ⟨hdepth, hl⟩]
    cases atStart <;> cases l.gap.all Text.isBlank <;> rfl
  | cons x xs ih =>
    simp only [List.map_cons, standsOutside, Bool.or_eq_false_iff, Bool.and_eq_false_imp,
      beq_iff_eq, beq_eq_false_iff_ne] at hxs
    obtain ⟨hx, hxs⟩ := hxs
    rw [List.cons_append, withoutBare, if_neg fun hsep => hx hsep.1 hsep.2, ih false hxs hdepth]
    simp

theorem tokens_semicolon : tokens [';'] = .ok [.semicolon] := by
  have h : Chain [⟨[], [';'], .semicolon⟩] [] := ⟨⟨.nil, .semicolon⟩, fun _ _ => rfl, trivial⟩
  exact tokens_of_chain h (.closed .nil)

theorem Segment.Reads.tokens_of_blank {s : Segment} (h : s.Reads)
    (hblank : s.text.all Text.isBlank = true) : s.tokens = [] := by
  have htokens := h.tokens_eq
  rw [← tokens_trim, Text.trim_eq_nil_iff.2 hblank, (FinalGap.closed .nil).tokens_eq] at htokens
  exact (Except.ok.inj htokens).symm

/-- A bare statement has no tokens, or a semicolon only. -/
theorem Segment.Reads.tokens_of_isBare {s : Segment} (h : s.Reads)
    (hbare : isBare (Text.trim s.text) = true) : s.tokens = [] ∨ s.tokens = [.semicolon] := by
  simp only [isBare, Bool.or_eq_true, beq_iff_eq] at hbare
  rcases hbare with hbare | hbare
  · exact .inl (h.tokens_of_blank (Text.trim_eq_nil_iff.1 hbare))
  · have htokens := h.tokens_eq
    rw [← tokens_trim, hbare, tokens_semicolon] at htokens
    exact .inr (Except.ok.inj htokens).symm

theorem isBare_trim_concat (cs : List Char) :
    isBare (Text.trim (cs ++ [';'])) = cs.all Text.isBlank := by
  rw [Text.trim_concat (by decide), Bool.eq_iff_iff, ← Text.trimStart_eq_nil_iff]
  simp [isBare]

theorem isBare_closed {xs : List Lexeme} {l : Lexeme} (htext : l.text = [';'])
    (h : Segment.Reads ⟨xs ++ [l], []⟩) :
    isBare (Text.trim (Segment.text ⟨xs ++ [l], []⟩)) = (xs.isEmpty && l.gap.all Text.isBlank) := by
  cases xs with
  | nil =>
    have := isBare_trim_concat l.gap
    simpa [Segment.text, htext] using this
  | cons x xs =>
    rw [List.isEmpty_cons, Bool.false_and, Bool.eq_false_iff]
    intro hbare
    rcases h.tokens_of_isBare hbare with htokens | htokens
    · cases htokens
    · have := congrArg List.length htokens
      simp [Segment.tokens] at this

/-- The statements that a chain is split into have the tokens of the chain, semicolons that stand
alone excepted. -/
theorem flatMap_tokens_ended {ls : List Lexeme} {rest : List Char} (h : Chain ls rest)
    (hrest : FinalGap rest) :
    ((ended (segments .semicolon 0 ls rest)).filter fun s => !isBare (Text.trim s.text)).flatMap
      Segment.tokens = (withoutBare true 0 ls).map Lexeme.token := by
  generalize hzero : 0 = depth
  induction depth, ls using segments_induction .semicolon with
  | single depth ls hls =>
    subst hzero
    rw [segments_of_standsOutside_eq_false hls, withoutBare_of_standsOutside_eq_false _ hls]
    have hreads : Segment.Reads ⟨ls, rest⟩ := ⟨h, hrest⟩
    cases hbare : isBare (Text.trim (Segment.text ⟨ls, rest⟩)) with
    | false => simp [ended, hbare, Segment.tokens]
    | true =>
      have htokens : ls.map Lexeme.token = [] := by
        rcases hreads.tokens_of_isBare hbare with htokens | htokens
        · exact htokens
        · rw [show ls.map Lexeme.token = _ from htokens] at hls
          cases hls
      simp [ended, hbare, htokens]
  | more depth xs l ys hxs hthrough hl ih =>
    subst hzero
    rw [segments_append hxs hthrough hl, withoutBare_append _ hxs hthrough hl]
    obtain ⟨-, hl', -, hys⟩ := Chain.append_iff.1 h
    have htext : l.text = [';'] := (hl'.text.text_of_control (by rw [hl]; rfl)).1
    have hclose : (Segment.close ⟨xs, l.gap⟩) = ⟨xs ++ [l], []⟩ := by
      simp [Segment.close, ← hl, ← htext]
    have hreads : Segment.Reads ⟨xs ++ [l], []⟩ := by
      rw [List.append_cons] at h
      have hfront : Chain (xs ++ [l]) ([] ++ _) := (Chain.append_iff.1 h).1
      exact ⟨hfront.of_append, .closed .nil⟩
    rw [ended_cons _ (segments_ne_nil _ _ _ _), hclose, List.filter_cons,
      isBare_closed htext hreads, List.map_append, ← ih hys rfl, Bool.true_and]
    cases xs.isEmpty && l.gap.all Text.isBlank <;> simp [Segment.tokens]

theorem standsOutside_of_prefix {separator : Token} {depth : Nat} {xs ys : List Token}
    (h : standsOutside separator depth ys = false) (hxs : xs <+: ys) :
    standsOutside separator depth xs = false := by
  obtain ⟨zs, rfl⟩ := hxs
  rw [standsOutside_append, Bool.or_eq_false_iff] at h
  exact h.1

/-- Outside parentheses, a semicolon is the last token of a statement. -/
theorem standsOutside_dropLast_of_mem_ended {ls : List Lexeme} {rest : List Char} {s : Segment}
    (hs : s ∈ ended (segments .semicolon 0 ls rest)) :
    standsOutside .semicolon 0 s.tokens.dropLast = false := by
  have heq := List.dropLast_concat_getLast (segments_ne_nil .semicolon 0 ls rest)
  generalize (segments .semicolon 0 ls rest).dropLast = front at heq
  generalize (segments .semicolon 0 ls rest).getLast _ = last at heq
  rw [← heq, ended_append] at hs
  have hmem {t : Segment} (ht : t ∈ front ++ [last]) : standsOutside .semicolon 0 t.tokens = false :=
    standsOutside_of_mem_segments (heq ▸ ht)
  rcases List.mem_append.1 hs with hs | hs
  · obtain ⟨t, ht, rfl⟩ := List.mem_map.1 hs
    have := hmem (List.mem_append_left [last] ht)
    simpa [Segment.close, Segment.tokens] using this
  · have hlast := hmem (List.mem_append_right front hs)
    exact standsOutside_of_prefix hlast (List.dropLast_prefix _)

theorem Segment.Closed.close {s : Segment} (h : s.Closed) : s.close.Closed := by
  have hstop : Stops [';'] := stops_cons (by decide) []
  have hfront := h.1.append_stop hstop
  refine ⟨Chain.append_iff.2 ⟨?_, ⟨h.2, .semicolon⟩, Token.endsAt_nil _, trivial⟩, .nil⟩
  simpa [Segment.close] using hfront

theorem Chain.exists_ended {ls : List Lexeme} {rest : List Char} (h : Chain ls rest) :
    ∃ front last, ended (segments .semicolon 0 ls rest) = front ++ [⟨last, rest⟩] ∧
      Chain last rest ∧ ∀ s ∈ front, s.Closed := by
  obtain ⟨front, last, heq, hlast, hfront⟩ := h.exists_segments .semicolon 0
  refine ⟨front.map Segment.close, last, by rw [heq, ended_append], hlast, ?_⟩
  intro s hs
  obtain ⟨t, ht, rfl⟩ := List.mem_map.1 hs
  exact (hfront t ht).close

theorem reads_of_mem {front : List Segment} {last : List Lexeme} {rest : List Char}
    (hfront : ∀ s ∈ front, s.Closed) (hlast : Chain last rest) (hrest : FinalGap rest) {s : Segment}
    (hs : s ∈ front ++ [⟨last, rest⟩]) : s.Reads := by
  rcases List.mem_append.1 hs with hs | hs
  · exact (hfront s hs).reads
  · rw [List.mem_singleton.1 hs]
    exact ⟨hlast, hrest⟩

/-- The statements of a text that can be read. -/
theorem map_tokens_statements {text : List Char} {ls : List Lexeme} (h : lex text = .ok ls) :
    ∃ tss : List (List Token), (statements text).map (fun s => tokens s.text) = tss.map .ok ∧
      tss.flatten = (withoutBare true 0 ls).map Lexeme.token ∧
      ∀ ts ∈ tss, standsOutside .semicolon 0 ts.dropLast = false := by
  obtain ⟨⟨ls, rest⟩, hlexemes, rfl⟩ := exists_of_map_eq_ok h
  obtain ⟨rfl, hls, hrest⟩ := lexemes_eq_ok_iff.1 hlexemes
  obtain ⟨front, last, heq, hlast, hfront⟩ := hls.exists_ended
  let kept := (ended (segments .semicolon 0 ls rest)).filter fun s => !isBare (Text.trim s.text)
  have hkept : ∀ s ∈ kept, s ∈ ended (segments .semicolon 0 ls rest) :=
    fun s hs => (List.mem_filter.1 hs).1
  refine ⟨kept.map Segment.tokens, ?_, ?_, ?_⟩
  · have htexts : (statements (written ls ++ rest)).map Statement.text =
        kept.map fun s => Text.trim s.text := by
      rw [map_text_statements_of_chain hls hrest.quiet, List.filter_map]
      rfl
    have : (statements (written ls ++ rest)).map (fun s => tokens s.text) =
        ((statements (written ls ++ rest)).map Statement.text).map tokens := by
      rw [List.map_map]
      rfl
    rw [this, htexts, List.map_map, List.map_map]
    refine List.map_congr_left fun s hs => ?_
    have hreads := reads_of_mem hfront hlast hrest (heq ▸ hkept s hs)
    exact (tokens_trim _).trans hreads.tokens_eq
  · rw [← flatMap_tokens_ended hls hrest, List.flatMap_def]
  · intro ts hts
    obtain ⟨s, hs, rfl⟩ := List.mem_map.1 hts
    exact standsOutside_dropLast_of_mem_ended (hkept s hs)

/-- A text that breaks off does so in its last statement. -/
theorem exists_last_statement {text : List Char} {e : LexError} (h : lex text = .error e) :
    ∃ front last, statements text = front ++ [last] ∧ lex last.text = .error e ∧
      ∀ s ∈ front, ∃ ls, lex s.text = .ok ls := by
  have hlexemes : lexemes text = .error e := by
    cases hl : lexemes text with
    | error e' => simpa [lex, hl, Except.map] using h
    | ok p => simp [lex, hl, Except.map] at h
  obtain ⟨ls, rest, rfl, hls, hrest⟩ := exists_torn_of_lexemes_error hlexemes
  obtain ⟨front, last, heq, hlast, hfront⟩ := hls.exists_ended
  have htokens : tokens (Text.trim (Segment.text ⟨last, rest⟩)) = .error e :=
    (tokens_trim _).trans (tokens_of_torn hlast hrest)
  have hbare : isBare (Text.trim (Segment.text ⟨last, rest⟩)) = false := by
    rw [Bool.eq_false_iff]
    intro hbare
    simp only [isBare, Bool.or_eq_true, beq_iff_eq] at hbare
    rcases hbare with hbare | hbare
    · rw [hbare, (FinalGap.closed .nil).tokens_eq] at htokens
      cases htokens
    · rw [hbare, tokens_semicolon] at htokens
      cases htokens
  have htexts := map_text_statements_of_chain hls hrest.quiet
  rw [heq, List.map_append, List.filter_append, List.map_singleton, List.filter_cons, hbare,
    Bool.not_false, if_pos rfl, List.filter_nil, List.map_eq_append_iff] at htexts
  obtain ⟨ss, ss', hss, hfront', hlast'⟩ := htexts
  obtain ⟨s, rfl, hs⟩ := List.map_eq_singleton_iff.1 hlast'
  refine ⟨ss, s, hss, ?_, ?_⟩
  · rw [lex_eq_error_iff, hs]
    exact htokens
  · intro t ht
    have hmem : t.text ∈ ss.map Statement.text := List.mem_map_of_mem ht
    rw [hfront'] at hmem
    obtain ⟨k, hk, hkt⟩ := List.mem_map.1 ((List.mem_filter.1 hmem).1)
    have : tokens t.text = .ok k.tokens := by
      rw [← hkt, tokens_trim]
      exact (hfront k hk).reads.tokens_eq
    obtain ⟨ls, hls, -⟩ := exists_of_map_eq_ok this
    exact ⟨ls, hls⟩

/-! ## List items -/

theorem reads_of_mem_segments {separator : Token} {ls : List Lexeme} {last : List Char}
    {s : Segment} (hls : Chain ls last) (hlast : FinalGap last)
    (hs : s ∈ segments separator 0 ls last) : s.Reads := by
  obtain ⟨front, ms, heq, hms, hfront⟩ := hls.exists_segments separator 0
  rw [heq] at hs
  exact reads_of_mem hfront hms hlast hs

/-- The items of a body that can be read. -/
theorem map_tokens_listItems {ls : List Lexeme} {last : List Char} (hls : Chain ls last)
    (hlast : FinalGap last) :
    (listItems (written ls ++ last)).map tokens =
      ((segments .comma 0 ls last).filter fun s => !s.text.all Text.isBlank).map
        fun s => .ok s.tokens := by
  rw [listItems_of_chain hls hlast.quiet, List.filter_map, List.map_map]
  have hfilter : (segments .comma 0 ls last).filter ((fun text => decide (text ≠ [])) ∘
        fun s => Text.trim s.text) =
      (segments .comma 0 ls last).filter fun s => !s.text.all Text.isBlank := by
    refine List.filter_congr fun s _ => ?_
    rw [Bool.eq_iff_iff, Function.comp_apply, decide_eq_true_iff, ne_eq, Text.trim_eq_nil_iff]
    simp
  rw [hfilter]
  refine List.map_congr_left fun s hs => ?_
  have hreads := reads_of_mem_segments hls hlast (List.mem_filter.1 hs).1
  exact (tokens_trim _).trans hreads.tokens_eq

/-- The splitters and the lexer agree on quotes, comments and parentheses. -/
theorem splitters_agree_with_lexer (text : List Char) :
    (∀ ls, lex text = .ok ls →
      ∃ tss : List (List Token), (statements text).map (fun s => tokens s.text) = tss.map .ok ∧
        tss.flatten = (withoutBare true 0 ls).map Lexeme.token ∧
        ∀ ts ∈ tss, standsOutside .semicolon 0 ts.dropLast = false) ∧
    (∀ e, lex text = .error e →
      ∃ front last, statements text = front ++ [last] ∧ lex last.text = .error e ∧
        ∀ s ∈ front, ∃ ls, lex s.text = .ok ls) ∧
    ∀ ls last, lexemes text = .ok (ls, last) →
      (listItems text).map tokens =
        ((segments .comma 0 ls last).filter fun s => !s.text.all Text.isBlank).map
          (fun s => .ok s.tokens) ∧
      (∀ s ∈ segments .comma 0 ls last,
        standsOutside .comma 0 s.tokens = false ∧ (s.text.all Text.isBlank → s.tokens = [])) ∧
      [Token.comma].intercalate ((segments .comma 0 ls last).map Segment.tokens) =
        ls.map Lexeme.token := by
  refine ⟨fun ls h => map_tokens_statements h, fun e h => exists_last_statement h, ?_⟩
  intro ls last h
  obtain ⟨rfl, hls, hlast⟩ := lexemes_eq_ok_iff.1 h
  refine ⟨map_tokens_listItems hls hlast, ?_, intercalate_segments .comma 0 ls last⟩
  intro s hs
  refine ⟨standsOutside_of_mem_segments hs, ?_⟩
  exact (reads_of_mem_segments hls hlast hs).tokens_of_blank

/-- A lone semicolon goes, and a quote without an end stays in the last statement. -/
theorem splitters_agree_with_lexer_at_semicolons :
    (∃ tss : List (List Token),
      (statements [';', 'a', ';']).map (fun s => tokens s.text) = tss.map .ok ∧
        tss.flatten = [.word (String.ofList ['a']), .semicolon]) ∧
    (∃ front last, statements [';', '\''] = front ++ [last] ∧
      lex last.text = .error .unterminatedString) ∧
    ∃ ts : List Token, (listItems [';', 'a', ';']).map tokens = [.ok ts] := by
  have hsemicolon : Lexeme.Whole ⟨[], [';'], .semicolon⟩ := ⟨.nil, .semicolon⟩
  have hword : Lexeme.Whole ⟨[], ['a'], .word (String.ofList ['a'])⟩ :=
    ⟨.nil, .word (by decide) (by simp)⟩
  have hread : lexemes [';', 'a', ';'] = .ok ([⟨[], [';'], .semicolon⟩,
      ⟨[], ['a'], .word (String.ofList ['a'])⟩, ⟨[], [';'], .semicolon⟩], []) := by
    refine lexemes_eq_ok_iff.2 ⟨rfl, ⟨hsemicolon, fun _ _ => rfl, hword, ?_, hsemicolon,
      Token.endsAt_nil _, trivial⟩, .closed .nil⟩
    exact stops_cons (by decide) [] _
  have htorn : lexemes [';', '\''] = .error .unterminatedString := by
    have hchain : Chain [⟨[], [';'], .semicolon⟩] ['\''] := ⟨hsemicolon, fun _ _ => rfl, trivial⟩
    have hquote : Torn .unterminatedString ['\''] := .string .nil rfl
    have := hchain.lexemes_append
    rw [hquote.lexemes_eq] at this
    exact this
  refine ⟨?_, ?_, ?_⟩
  · obtain ⟨tss, hss, hflat, -⟩ := (splitters_agree_with_lexer [';', 'a', ';']).1 _
      (by rw [lex, hread]; rfl)
    exact ⟨tss, hss, hflat⟩
  · obtain ⟨front, last, hss, hlast, -⟩ := (splitters_agree_with_lexer [';', '\'']).2.1
      .unterminatedString (by rw [lex, htorn]; rfl)
    exact ⟨front, last, hss, hlast⟩
  · have := ((splitters_agree_with_lexer [';', 'a', ';']).2.2 _ _ hread).1
    exact ⟨_, this⟩

end SchemaDdl.Script
