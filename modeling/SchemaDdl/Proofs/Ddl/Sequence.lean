import SchemaDdl.Proofs.Ddl.Legible

/-!
# The statements of a generated script

A generated script is its statements with white space between them, and splitting it gives them
back one by one.
-/

namespace SchemaDdl.Ddl

open Script

theorem balanced_quotedLiterals (ss : List String) :
    Balanced ((listed quotedLiteral ss).map Lexeme.token) :=
  balanced_listed (fun _ _ => rfl) ss

theorem Statement.flush_lexemes (s : Statement) : Flush s.lexemes := by
  cases s <;> exact ⟨_, _, rfl, rfl⟩

theorem Statement.phrase_ne_nil (s : Statement) : s.phrase ≠ [] := by
  cases s <;> simp [phrase]

/-- The semicolon of a statement stands outside all parentheses, and no other one does. -/
theorem Statement.level_phrase (s : Statement) (h : s.Readable) :
    Level .semicolon (s.phrase.map Lexeme.token) := by
  have hnil : Level .semicolon [] := level_nil
  cases s with
  | createSchema name =>
    exact (((((hnil.cons rfl rfl).cons rfl rfl).cons rfl rfl).cons rfl rfl).cons rfl rfl).cons rfl rfl
  | createType key values =>
    have hvalues : Level .semicolon ((inParens (listed quotedLiteral values)).map Lexeme.token) :=
      level_inParens (by decide) (balanced_quotedLiterals values)
    have henum := (hvalues.cons (t := .word "ENUM") rfl rfl).cons (t := .word "AS") rfl rfl
    have hkey := (level_qualifiedLexemes rfl [' '] key).append henum
    rw [Statement.phrase, List.map_cons, List.map_cons, List.map_append]
    exact (hkey.cons rfl rfl).cons rfl rfl
  | createTable key definitions =>
    have hbody : Level .semicolon (.openParen ::
        ((bodyLexemes definitions).map Lexeme.token ++ [.closeParen])) :=
      (balanced_bodyLexemes h).level_parens (by decide)
    have hkey := (level_qualifiedLexemes rfl [' '] key).append hbody
    rw [Statement.phrase]
    simp only [List.map_cons, List.map_append]
    exact (hkey.cons rfl rfl).cons rfl rfl
  | commentOnTable key text =>
    have hback : Level .semicolon [.word "IS", .string text] := (hnil.cons rfl rfl).cons rfl rfl
    have hkey := (level_qualifiedLexemes rfl [' '] key).append hback
    exact ((hkey.cons rfl rfl).cons rfl rfl).cons rfl rfl
  | commentOnColumn key column text =>
    have hback : Level .semicolon [.dot, .quoted column, .word "IS", .string text] :=
      (((hnil.cons rfl rfl).cons rfl rfl).cons rfl rfl).cons rfl rfl
    have hkey := (level_qualifiedLexemes rfl [' '] key).append hback
    exact ((hkey.cons rfl rfl).cons rfl rfl).cons rfl rfl

theorem Statement.chain_phrase (s : Statement) (h : s.Readable) : Chain s.phrase [] := by
  have hword {w : String} {ls : List Lexeme} (hls : Detached ls) (hw : isWord w = true) :
      Detached (keyword [' '] w :: ls) := detached_keyword hw hls
  have hfirst {w : String} {ls : List Lexeme} (hls : Detached ls) (hw : isWord w = true) :
      Chain (keyword [] w :: ls) [] := hls.after (whole_keyword .nil hw)
  cases s with
  | createSchema name =>
    have hname : Detached [quotedName [' '] name] := detached_quotedName detached_nil
    exact hfirst (hword (hword (hword (hword hname (by decide)) (by decide)) (by decide))
      (by decide)) (by decide)
  | createType key values =>
    have hvalues : Detached (inParens (listed quotedLiteral values) ++ []) :=
      detached_inParens (chain_listed (fun _ s hg => whole_quotedLiteral hg s) values)
        detached_nil.chain
    rw [List.append_nil] at hvalues
    have henum := hword (w := "AS") (hword (w := "ENUM") hvalues (by decide)) (by decide)
    exact hfirst (hword (detached_qualified key henum) (by decide)) (by decide)
  | createTable key definitions =>
    have hopen : (openParen [' ']).Whole := ⟨closedGap_space, .openParen⟩
    have hclose : Detached [closeParen (bodyGap definitions)] := by
      refine ⟨detached_nil.after ⟨closedGap_bodyGap definitions, .closeParen⟩, ?_⟩
      cases definitions <;> exact stops_cons (by decide) _
    have hbody := chain_join (chain_bodyLexemes h) hclose
    have hparens := detached_of_space (chain_mark hopen (fun _ => rfl) hbody) rfl
    exact hfirst (hword (detached_qualified key hparens) (by decide)) (by decide)
  | commentOnTable key text =>
    have hback := hword (w := "IS") (detached_quotedLiteral (s := text) detached_nil) (by decide)
    exact hfirst (hword (hword (detached_qualified key hback) (by decide)) (by decide)) (by decide)
  | commentOnColumn key column text =>
    have hdot : Lexeme.Whole dot := ⟨.nil, .dot⟩
    have his := hword (w := "IS") (detached_quotedLiteral (s := text) detached_nil) (by decide)
    have hcolumn := chain_mark hdot (fun _ => rfl) (his.after (whole_quotedName .nil column))
    have hkey : Chain (qualifiedLexemes [' '] key ++
        [dot, quotedName [] column, keyword [' '] "IS", quotedLiteral [' '] text]) [] := by
      refine Chain.append_iff.2 ⟨(chain_qualifiedLexemes closedGap_space key).change_rest ?_, hcolumn⟩
      intro l hl d hd
      cases hl
      cases hd
      rfl
    exact hfirst (hword (hword (detached_of_space hkey rfl) (by decide)) (by decide)) (by decide)

theorem Statement.chain_lexemes (s : Statement) (h : s.Readable) (rest : List Char) :
    Chain s.lexemes rest := by
  have hphrase := (s.chain_phrase h).stop (stops_cons (c := ';') (by decide) rest)
  exact Chain.append_iff.2 ⟨hphrase, ⟨.nil, .semicolon⟩, fun _ _ => rfl, trivial⟩

theorem Statement.lexemes_text (s : Statement) (h : s.Readable) :
    Script.lexemes s.text.toList = .ok (s.lexemes, []) := by
  refine lexemes_eq_ok_iff.2 ⟨?_, s.chain_lexemes h [], .closed .nil⟩
  rw [List.append_nil, s.written_lexemes h]

/-! ## Scripts -/

/-- Statements with the white space in front of each. -/
abbrev Spread := List (List Char × Statement)

namespace Spread

def lexemes (ps : Spread) : List Lexeme :=
  ps.flatMap fun p => regap p.1 p.2.lexemes

def texts (ps : Spread) : List (List Char) :=
  ps.map fun p => p.2.text.toList

/-- All statements can be read and only white space stands between them. -/
def Legible (ps : Spread) : Prop :=
  ∀ p ∈ ps, p.2.Readable ∧ ∀ c ∈ p.1, Text.isBlank c = true

theorem chain_lexemes {ps : Spread} (h : ps.Legible) (rest : List Char) :
    Chain ps.lexemes rest := by
  induction ps with
  | nil => trivial
  | cons p ps ih =>
    obtain ⟨hp, hgap⟩ := h p List.mem_cons_self
    have hps := ih fun q hq => h q (List.mem_cons_of_mem p hq)
    exact Chain.append_iff.2 ⟨(p.2.chain_lexemes hp _).regap (closedGap_of_blanks hgap), hps⟩

theorem isBare_text {s : Statement} (h : s.Readable) : isBare s.text.toList = false := by
  rw [← s.written_lexemes h]
  cases s <;> rfl

theorem trim_ended {ps : Spread} (h : ps.Legible) :
    ((ended (segments .semicolon 0 ps.lexemes [])).map fun s => Text.trim s.text).filter
      (fun text => !isBare text) = ps.texts := by
  induction ps with
  | nil => rfl
  | cons p ps ih =>
    obtain ⟨gap, s⟩ := p
    obtain ⟨hs, hgap⟩ := h (gap, s) List.mem_cons_self
    have hlevel := s.level_phrase hs
    rw [← map_token_regap gap] at hlevel
    have hregap : regap gap s.lexemes = regap gap s.phrase ++ [semicolon] :=
      regap_append s.phrase_ne_nil _
    have hlexemes : lexemes ((gap, s) :: ps) = regap gap s.phrase ++ semicolon :: lexemes ps := by
      simp [lexemes, hregap]
    have hclose : (Segment.close ⟨regap gap s.phrase, []⟩).text =
        written (regap gap s.lexemes) ++ [] := by
      rw [hregap]
      rfl
    have htrim : Text.trim (written (regap gap s.lexemes) ++ []) = written s.lexemes :=
      trim_written_regap (s.chain_lexemes hs []) s.flush_lexemes hgap (by simp)
    rw [hlexemes, segments_append hlevel.outside hlevel.balanced.depth rfl,
      ended_cons _ (segments_ne_nil _ _ _ _), List.map_cons, show semicolon.gap = [] from rfl, hclose,
      htrim, s.written_lexemes hs, List.filter_cons, isBare_text hs,
      ih fun q hq => h q (List.mem_cons_of_mem _ hq)]
    rfl

theorem map_text_statements {ps : Spread} (h : ps.Legible) :
    (statements (written ps.lexemes)).map Script.Statement.text = ps.texts := by
  have hstatements := map_text_statements_of_chain (chain_lexemes h []) quiet_nil
  rw [List.append_nil] at hstatements
  rw [hstatements, trim_ended h]

end Spread

/-- The statements of a block, set apart by line breaks. -/
def Block.spread (gap : List Char) : Block → Spread
  | [] => []
  | s :: ss => (gap, s) :: ss.map fun s => (['\n'], s)

def spreadBlocks : List Block → Spread
  | [] => []
  | b :: bs => b.spread [] ++ bs.flatMap (Block.spread ['\n', '\n'])

theorem written_regap_statement (gap : List Char) {s : Statement} (h : s.Readable) :
    written (regap gap s.lexemes) = gap ++ s.text.toList := by
  rw [written_regap s.flush_lexemes.ne_nil, verbatim_of_flush s.flush_lexemes, s.written_lexemes h]

theorem written_spread {b : Block} (gap : List Char) (hne : b ≠ []) (h : ∀ s ∈ b, s.Readable) :
    written (b.spread gap).lexemes = gap ++ b.text.toList := by
  have hbreak : "\n".toList = ['\n'] := rfl
  cases b with
  | nil => exact absurd rfl hne
  | cons s ss =>
    have hmore (ts : List Statement) (hts : ∀ t ∈ ts, t.Readable) :
        written (Spread.lexemes (ts.map fun t => (['\n'], t))) =
          ts.flatMap fun t => '\n' :: t.text.toList := by
      induction ts with
      | nil => rfl
      | cons t ts ih =>
        have ht := written_regap_statement ['\n'] (hts t List.mem_cons_self)
        have hts' := ih fun u hu => hts u (List.mem_cons_of_mem t hu)
        rw [Spread.lexemes] at hts' ⊢
        rw [List.map_cons, List.flatMap_cons, written_append, hts', ht]
        rfl
    have hs := written_regap_statement gap (h s List.mem_cons_self)
    have hss := hmore ss fun t ht => h t (List.mem_cons_of_mem s ht)
    rw [Spread.lexemes] at hss
    rw [Block.spread, Spread.lexemes, List.flatMap_cons, written_append, hs, hss, Block.text,
      String.toList_intercalate, hbreak, List.map_map, List.map_cons, intercalate_cons,
      List.flatMap_map, List.append_assoc]
    rfl

theorem written_spreadBlocks {bs : List Block} (hne : ∀ b ∈ bs, b ≠ [])
    (h : ∀ b ∈ bs, ∀ s ∈ b, s.Readable) :
    written (spreadBlocks bs).lexemes = (scriptText bs).toList := by
  have hbreak : "\n\n".toList = ['\n', '\n'] := rfl
  cases bs with
  | nil => rfl
  | cons b bs =>
    have hmore (cs : List Block) (hcs : ∀ c ∈ cs, c ∈ b :: bs) :
        written (Spread.lexemes (cs.flatMap (Block.spread ['\n', '\n']))) =
          cs.flatMap fun c => ['\n', '\n'] ++ c.text.toList := by
      induction cs with
      | nil => rfl
      | cons c cs ih =>
        have hmem := hcs c List.mem_cons_self
        have hc := written_spread ['\n', '\n'] (hne c hmem) (h c hmem)
        have hcs' := ih fun d hd => hcs d (List.mem_cons_of_mem c hd)
        rw [Spread.lexemes] at hc hcs' ⊢
        rw [List.flatMap_cons, List.flatMap_append, written_append, hc, hcs', List.flatMap_cons]
    have hb := written_spread [] (hne b List.mem_cons_self) (h b List.mem_cons_self)
    have hbs := hmore bs fun c hc => List.mem_cons_of_mem b hc
    rw [Spread.lexemes] at hb hbs
    rw [spreadBlocks, Spread.lexemes, List.flatMap_append, written_append, hb, hbs, scriptText,
      String.toList_intercalate, hbreak, List.map_map, List.map_cons, intercalate_cons,
      List.flatMap_map]
    rfl

theorem texts_spread (gap : List Char) (b : Block) :
    (b.spread gap).texts = b.map fun s => s.text.toList := by
  cases b <;> simp [Block.spread, Spread.texts]

theorem legible_spread {gap : List Char} {b : Block} (hgap : ∀ c ∈ gap, Text.isBlank c = true)
    (h : ∀ s ∈ b, s.Readable) : (b.spread gap).Legible := by
  intro p hp
  cases b with
  | nil => cases hp
  | cons s ss =>
    rcases List.mem_cons.1 hp with rfl | hp
    · exact ⟨h s List.mem_cons_self, hgap⟩
    · obtain ⟨t, ht, rfl⟩ := List.mem_map.1 hp
      have hbreak : ∀ c ∈ ['\n'], Text.isBlank c = true := List.all_eq_true.1 (by decide)
      exact ⟨h t (List.mem_cons_of_mem s ht), hbreak⟩

/-- A generated script is split into its statements. -/
theorem map_text_statements_scriptText {bs : List Block} (hne : ∀ b ∈ bs, b ≠ [])
    (h : ∀ b ∈ bs, ∀ s ∈ b, s.Readable) :
    (statements (scriptText bs).toList).map Script.Statement.text =
      bs.flatten.map fun s => s.text.toList := by
  have hlegible : (spreadBlocks bs).Legible := by
    cases bs with
    | nil => exact fun p hp => by cases hp
    | cons b bs =>
      intro p hp
      rcases List.mem_append.1 hp with hp | hp
      · exact legible_spread (by simp) (h b List.mem_cons_self) p hp
      · obtain ⟨c, hc, hp⟩ := List.mem_flatMap.1 hp
        exact legible_spread (List.all_eq_true.1 (by decide)) (h c (List.mem_cons_of_mem b hc)) p hp
  rw [← written_spreadBlocks hne h, Spread.map_text_statements hlegible]
  cases bs with
  | nil => rfl
  | cons b bs =>
    have hb : List.map (fun p => p.2.text.toList) (b.spread []) = b.map fun s => s.text.toList :=
      texts_spread [] b
    have hbs : List.map (fun p => p.2.text.toList) (bs.flatMap (Block.spread ['\n', '\n'])) =
        bs.flatten.map fun s => s.text.toList := by
      rw [List.map_flatMap, List.map_flatten, List.flatMap_def]
      exact congrArg List.flatten (List.map_congr_left fun c _ => texts_spread _ c)
    rw [spreadBlocks, Spread.texts, List.map_append, hb, hbs, List.flatten_cons, List.map_append]

end SchemaDdl.Ddl
