import SchemaDdl.Proofs.Ddl.Wording
import SchemaDdl.Proofs.Splitting.Agreement

/-!
# Generated statements are legible

The lexemes of a generated statement make up a chain, so the lexer reads them back, and outside its
parentheses a statement has no semicolon and a definition no comma, so the splitters cut a script
into the statements and a body into the definitions.
-/

namespace SchemaDdl.Ddl

open Script

theorem closedGap_space : ClosedGap [' '] :=
  .blank rfl .nil

theorem whole_keyword {gap : List Char} {w : String} (hgap : ClosedGap gap)
    (hw : isWord w = true) : (keyword gap w).Whole :=
  ⟨hgap, spells_word hw⟩

theorem whole_quotedName {gap : List Char} (hgap : ClosedGap gap) (s : String) :
    (quotedName gap s).Whole :=
  ⟨hgap, spells_identifier s⟩

theorem whole_quotedLiteral {gap : List Char} (hgap : ClosedGap gap) (s : String) :
    (quotedLiteral gap s).Whole :=
  ⟨hgap, spells_literal s⟩

/-! ## Joining chains -/

/-- Lexemes that can be read behind any token. -/
structure Detached (ls : List Lexeme) : Prop where
  chain : Chain ls []
  stops : Stops (written ls)

theorem chain_join {xs ys : List Lexeme} (hxs : Chain xs []) (hys : Detached ys) :
    Chain (xs ++ ys) [] := by
  refine Chain.append_iff.2 ⟨hxs.stop ?_, hys.chain⟩
  rw [List.append_nil]
  exact hys.stops

theorem Detached.after {l : Lexeme} {ls : List Lexeme} (hls : Detached ls) (hl : l.Whole) :
    Chain (l :: ls) [] := by
  refine ⟨hl, ?_, hls.chain⟩
  rw [List.append_nil]
  exact hls.stops l.token

/-- A punctuation mark ends wherever it stands. -/
theorem chain_mark {l : Lexeme} {ls : List Lexeme} (hl : l.Whole)
    (hmark : ∀ d, l.token.runsInto d = false) (hls : Chain ls []) : Chain (l :: ls) [] :=
  ⟨hl, fun d _ => hmark d, hls⟩

theorem detached_nil : Detached [] :=
  ⟨trivial, stops_nil⟩

/-- A space stops every token. -/
theorem detached_of_space {ls : List Lexeme} {cs : List Char} (h : Chain ls [])
    (hspace : written ls = ' ' :: cs) : Detached ls := by
  refine ⟨h, ?_⟩
  rw [hspace]
  exact stops_cons (by decide) cs

theorem detached_keyword {w : String} {ls : List Lexeme} (hw : isWord w = true)
    (hls : Detached ls) : Detached (keyword [' '] w :: ls) :=
  detached_of_space (hls.after (whole_keyword closedGap_space hw)) rfl

theorem detached_quotedName {s : String} {ls : List Lexeme} (hls : Detached ls) :
    Detached (quotedName [' '] s :: ls) :=
  detached_of_space (hls.after (whole_quotedName closedGap_space s)) rfl

theorem detached_quotedLiteral {s : String} {ls : List Lexeme} (hls : Detached ls) :
    Detached (quotedLiteral [' '] s :: ls) :=
  detached_of_space (hls.after (whole_quotedLiteral closedGap_space s)) rfl

theorem chain_qualifiedLexemes {gap : List Char} (hgap : ClosedGap gap) (key : QualifiedName) :
    Chain (qualifiedLexemes gap key) [] := by
  have hdot : Lexeme.Whole dot := ⟨.nil, .dot⟩
  have hname : Chain [quotedName [] key.name] [] := detached_nil.after (whole_quotedName .nil _)
  refine ⟨whole_quotedName hgap _, ?_, chain_mark hdot (fun _ => rfl) hname⟩
  intro d hd
  cases hd
  rfl

theorem detached_qualified (key : QualifiedName) {ls : List Lexeme} (hls : Detached ls) :
    Detached (qualifiedLexemes [' '] key ++ ls) :=
  detached_of_space (chain_join (chain_qualifiedLexemes closedGap_space key) hls) rfl

theorem chain_listed {mk : List Char → String → Lexeme}
    (hmk : ∀ g s, ClosedGap g → (mk g s).Whole) (ss : List String) : Chain (listed mk ss) [] := by
  have hcomma : Lexeme.Whole comma := ⟨.nil, .comma⟩
  have hmore (ss : List String) : Detached (ss.flatMap fun s => [comma, mk [' '] s]) := by
    induction ss with
    | nil => exact detached_nil
    | cons s ss ih =>
      have hs := ih.after (hmk [' '] s closedGap_space)
      exact ⟨chain_mark hcomma (fun _ => rfl) hs, stops_cons (by decide) _⟩
  cases ss with
  | nil => trivial
  | cons s ss => exact (hmore ss).after (hmk [] s .nil)

theorem chain_quotedNames (ss : List String) : Chain (listed quotedName ss) [] :=
  chain_listed (fun _ s hg => whole_quotedName hg s) ss

theorem detached_inParens {xs ls : List Lexeme} (hxs : Chain xs []) (hls : Chain ls []) :
    Detached (inParens xs ++ ls) := by
  have hopen : (openParen [' ']).Whole := ⟨closedGap_space, .openParen⟩
  have hclose : (closeParen []).Whole := ⟨.nil, .closeParen⟩
  have hback : Detached (closeParen [] :: ls) :=
    ⟨chain_mark hclose (fun _ => rfl) hls, stops_cons (by decide) _⟩
  refine detached_of_space ?_ rfl
  rw [inParens, List.cons_append, List.append_assoc]
  exact chain_mark hopen (fun _ => rfl) (chain_join hxs hback)

theorem detached_keywords {ws : List String} {ls : List Lexeme} (h : ∀ w ∈ ws, isWord w = true)
    (hls : Detached ls) : Detached (ws.map (keyword [' ']) ++ ls) := by
  induction ws with
  | nil => exact hls
  | cons w ws ih =>
    have htail := ih fun v hv => h v (List.mem_cons_of_mem w hv)
    exact detached_keyword (h w List.mem_cons_self) htail

theorem detached_action {event : String} {ls : List Lexeme} (hevent : isWord event = true)
    (a : Option Action) (hls : Detached ls) : Detached (actionLexemes event a ++ ls) := by
  cases a with
  | none => exact hls
  | some a =>
    have hkeywords : Detached (a.keywords.map (keyword [' ']) ++ ls) := by
      refine detached_keywords ?_ hls
      cases a <;> decide
    exact detached_keyword (by decide) (detached_keyword hevent hkeywords)

theorem detached_pasted {s : String} {ls : List Lexeme} (h : Excerpt s.toList (lexed s))
    (hls : Detached ls) : Detached (regap [' '] (lexed s) ++ ls) := by
  refine ⟨chain_join (h.chain.regap closedGap_space) hls, ?_⟩
  rw [written_append, written_pasted h]
  exact stops_cons (by decide) _

/-! ## Definitions -/

theorem Definition.chain_lexemes (d : Definition) (h : d.Readable) : Chain d.lexemes [] := by
  cases d with
  | column name type notNull defaultValue =>
    obtain ⟨htype, hdefault⟩ := h
    have hback : Detached (defaultValue.toList.flatMap fun e =>
        keyword [' '] "DEFAULT" :: regap [' '] (lexed e)) := by
      cases defaultValue with
      | none => exact detached_nil
      | some e =>
        have he := (hdefault e rfl).toExcerpt
        exact detached_keyword (by decide) (detached_pasted he detached_nil)
    refine (detached_pasted htype.toExcerpt ?_).after (whole_quotedName .nil name)
    cases notNull with
    | false => exact hback
    | true => exact detached_keyword (by decide) (detached_keyword (by decide) hback)
  | primaryKey columns =>
    have hcolumns := detached_inParens (chain_quotedNames columns) detached_nil.chain
    rw [List.append_nil] at hcolumns
    exact (detached_keyword (by decide) hcolumns).after (whole_keyword .nil (by decide))
  | unique name =>
    have hname := detached_inParens (chain_quotedNames [name]) detached_nil.chain
    rw [List.append_nil] at hname
    exact hname.after (whole_keyword .nil (by decide))
  | foreignKey name source target targetColumn onDelete onUpdate =>
    have hactions : Detached (actionLexemes "DELETE" onDelete ++ actionLexemes "UPDATE" onUpdate) := by
      have hupdate : Detached (actionLexemes "UPDATE" onUpdate ++ []) :=
        detached_action (by decide) onUpdate detached_nil
      rw [List.append_nil] at hupdate
      exact detached_action (by decide) onDelete hupdate
    have htarget := detached_inParens (chain_quotedNames [targetColumn]) hactions.chain
    have hreferences := detached_keyword (w := "REFERENCES") (by decide)
      (detached_qualified target htarget)
    have hsource := detached_inParens (chain_quotedNames [source]) hreferences.chain
    have hkey := detached_keyword (w := "KEY") (by decide) hsource
    have hforeign := detached_keyword (w := "FOREIGN") (by decide) hkey
    exact (detached_quotedName hforeign).after (whole_keyword .nil (by decide))

theorem balanced_listed {mk : List Char → String → Lexeme}
    (hmk : ∀ g s, (mk g s).token.control? = none) (ss : List String) :
    Balanced ((listed mk ss).map Lexeme.token) := by
  have hmore (ss : List String) :
      Balanced ((ss.flatMap fun s => [comma, mk [' '] s]).map Lexeme.token) := by
    induction ss with
    | nil => exact .nil
    | cons s ss ih =>
      have hs := ih.cons (t := (mk [' '] s).token) (by simp [hmk])
      exact hs.cons (t := .comma) (by decide)
  cases ss with
  | nil => exact .nil
  | cons s ss => exact (hmore ss).cons (by simp [hmk])

section Level

variable {separator : Token}

theorem level_inParens {ls : List Lexeme}
    (hseparator : separator ≠ .openParen ∧ separator ≠ .closeParen)
    (h : Balanced (ls.map Lexeme.token)) : Level separator ((inParens ls).map Lexeme.token) := by
  rw [inParens, List.map_cons, List.map_append]
  exact h.level_parens hseparator

theorem level_quotedNames (hseparator : separator ≠ .openParen ∧ separator ≠ .closeParen)
    (ss : List String) : Level separator ((inParens (listed quotedName ss)).map Lexeme.token) :=
  level_inParens hseparator (balanced_listed (fun _ _ => rfl) ss)

theorem level_qualifiedLexemes (hseparator : separator.control?.isSome = true) (gap : List Char)
    (key : QualifiedName) : Level separator ((qualifiedLexemes gap key).map Lexeme.token) :=
  ((level_nil.cons rfl hseparator).cons rfl hseparator).cons rfl hseparator

theorem level_actionLexemes (event : String) (a : Option Action) :
    Level .comma ((actionLexemes event a).map Lexeme.token) := by
  cases a with
  | none => exact level_nil
  | some a =>
    have hkeywords (ws : List String) :
        Level .comma ((ws.map (keyword [' '])).map Lexeme.token) := by
      induction ws with
      | nil => exact level_nil
      | cons w ws ih => exact ih.cons rfl rfl
    exact ((hkeywords a.keywords).cons rfl rfl).cons rfl rfl

end Level

theorem level_pasted {s : String} (h : Excerpt s.toList (lexed s)) (g : List Char) :
    Level .comma ((regap g (lexed s)).map Lexeme.token) := by
  rw [map_token_regap]
  exact h.level

theorem Definition.level_lexemes (d : Definition) (h : d.Readable) :
    Level .comma (d.lexemes.map Lexeme.token) := by
  cases d with
  | column name type notNull defaultValue =>
    obtain ⟨htype, hdefault⟩ := h
    rw [Definition.lexemes, List.map_cons, List.map_append, List.map_append]
    refine ((level_pasted htype.toExcerpt _).append (.append ?_ ?_)).cons rfl rfl
    · cases notNull with
      | false => exact level_nil
      | true => exact (level_nil.cons rfl rfl).cons rfl rfl
    · cases defaultValue with
      | none => exact level_nil
      | some e =>
        rw [Option.toList_some, List.flatMap_singleton, List.map_cons]
        exact (level_pasted (hdefault e rfl).toExcerpt _).cons rfl rfl
  | primaryKey columns =>
    exact ((level_quotedNames (by decide) columns).cons rfl rfl).cons rfl rfl
  | unique name => exact (level_quotedNames (by decide) [name]).cons rfl rfl
  | foreignKey name source target targetColumn onDelete onUpdate =>
    have hactions := (level_actionLexemes "DELETE" onDelete).append
      (level_actionLexemes "UPDATE" onUpdate)
    have htarget := (level_quotedNames (by decide) [targetColumn]).append hactions
    have hqualified := (level_qualifiedLexemes rfl [' '] target).append htarget
    have hreferences := hqualified.cons (t := .word "REFERENCES") rfl rfl
    have hsource := (level_quotedNames (by decide) [source]).append hreferences
    rw [Definition.lexemes]
    simp only [List.map_cons, List.map_append]
    exact (((hsource.cons rfl rfl).cons rfl rfl).cons rfl rfl).cons rfl rfl

/-! ## Table bodies -/

theorem blank_itemGap : ∀ c ∈ itemGap, Text.isBlank c = true := by
  apply List.all_eq_true.1
  decide

theorem closedGap_bodyGap (ds : List Definition) : ClosedGap (bodyGap ds) := by
  cases ds <;> exact closedGap_of_blanks (by simp [bodyGap, itemGap]; decide)

/-- A flush chain with white space around it. -/
theorem trim_written_regap {ls : List Lexeme} {g last : List Char} (hls : Chain ls [])
    (hflush : Flush ls) (hg : ∀ c ∈ g, Text.isBlank c = true)
    (hlast : ∀ c ∈ last, Text.isBlank c = true) :
    Text.trim (written (regap g ls) ++ last) = written ls := by
  rw [written_regap hflush.ne_nil, verbatim_of_flush hflush, Text.trim_append_blanks hlast,
    Text.trim_blanks_append hg, trim_written hls hflush]

theorem trim_segments_bodyLexemes {d : Definition} {ds : List Definition}
    (h : ∀ x ∈ d :: ds, x.Readable) :
    (segments .comma 0 (bodyLexemes (d :: ds)) ['\n']).map (fun s => Text.trim s.text) =
      (d :: ds).map fun x => x.text.toList := by
  have hd := h d List.mem_cons_self
  have hlevel := d.level_lexemes hd
  rw [← map_token_regap itemGap] at hlevel
  have htrim {last : List Char} (hlast : ∀ c ∈ last, Text.isBlank c = true) :
      Text.trim (Segment.text ⟨regap itemGap d.lexemes, last⟩) = d.text.toList := by
    rw [← d.written_lexemes hd]
    exact trim_written_regap (d.chain_lexemes hd) d.flush_lexemes blank_itemGap hlast
  induction ds generalizing d with
  | nil =>
    rw [bodyLexemes, List.flatMap_nil, List.append_nil,
      segments_of_standsOutside_eq_false hlevel.outside, List.map_singleton,
      htrim (List.all_eq_true.1 (by decide))]
    rfl
  | cons d' ds ih =>
    have hd' := h d' (by simp)
    have hlevel' := d'.level_lexemes hd'
    rw [← map_token_regap itemGap] at hlevel'
    have hrest := ih (fun x hx => h x (List.mem_cons_of_mem d hx)) hd' hlevel' fun hlast => by
      rw [← d'.written_lexemes hd']
      exact trim_written_regap (d'.chain_lexemes hd') d'.flush_lexemes blank_itemGap hlast
    rw [bodyLexemes_cons_cons, segments_append hlevel.outside hlevel.balanced.depth rfl,
      List.map_cons, hrest, show comma.gap = [] from rfl, htrim (by simp)]
    rfl

theorem chain_bodyLexemes {ds : List Definition} (h : ∀ d ∈ ds, d.Readable) :
    Chain (bodyLexemes ds) [] := by
  have hgap : ClosedGap itemGap := closedGap_of_blanks blank_itemGap
  induction ds with
  | nil => trivial
  | cons d ds ih =>
    have hd := (d.chain_lexemes (h d List.mem_cons_self)).regap hgap
    cases ds with
    | nil =>
      rw [bodyLexemes, List.flatMap_nil, List.append_nil]
      exact hd
    | cons d' ds =>
      have hrest := ih fun x hx => h x (List.mem_cons_of_mem d hx)
      have hcomma : Lexeme.Whole comma := ⟨.nil, .comma⟩
      rw [bodyLexemes_cons_cons]
      exact chain_join hd ⟨chain_mark hcomma (fun _ => rfl) hrest, stops_cons (by decide) _⟩

theorem balanced_bodyLexemes {ds : List Definition} (h : ∀ d ∈ ds, d.Readable) :
    Balanced ((bodyLexemes ds).map Lexeme.token) := by
  induction ds with
  | nil => exact .nil
  | cons d ds ih =>
    have hd := (d.level_lexemes (h d List.mem_cons_self)).balanced
    rw [← map_token_regap itemGap] at hd
    cases ds with
    | nil =>
      rw [bodyLexemes, List.flatMap_nil, List.append_nil]
      exact hd
    | cons d' ds =>
      have hrest := ih fun x hx => h x (List.mem_cons_of_mem d hx)
      rw [bodyLexemes_cons_cons, List.map_append]
      exact hd.append (hrest.cons (t := .comma) (by decide))

/-- The body of a generated table is cut into the texts of its definitions. -/
theorem listItems_body {ds : List Definition} (h : ∀ d ∈ ds, d.Readable) :
    listItems (written (bodyLexemes ds) ++ bodyGap ds) = ds.map fun d => d.text.toList := by
  have hgap := closedGap_bodyGap ds
  have hchain : Chain (bodyLexemes ds) (bodyGap ds) := by
    refine (chain_bodyLexemes h).stop ?_
    cases ds <;> exact stops_cons (by decide) _
  rw [listItems_of_chain hchain (FinalGap.closed hgap).quiet]
  cases ds with
  | nil => rfl
  | cons d ds =>
    rw [show bodyGap (d :: ds) = ['\n'] from rfl, trim_segments_bodyLexemes h,
      List.filter_eq_self.2]
    intro text htext
    obtain ⟨x, hx, rfl⟩ := List.mem_map.1 htext
    rw [decide_eq_true_iff, ← x.written_lexemes (h x hx)]
    exact written_ne_nil (x.chain_lexemes (h x hx)) x.flush_lexemes.ne_nil

end SchemaDdl.Ddl
