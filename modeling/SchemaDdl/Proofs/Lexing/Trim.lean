import SchemaDdl.Proofs.Lexing.Chain

/-!
# Trimmed texts

White space around a text changes none of its tokens, and a text that breaks off inside a comment
or a quoted text breaks off there with any white space behind it.
-/

namespace SchemaDdl.Text

theorem exists_trimStart (cs : List Char) :
    ∃ before, cs = before ++ trimStart cs ∧ ∀ c ∈ before, isBlank c = true :=
  ⟨cs.takeWhile isBlank, List.takeWhile_append_dropWhile.symm,
    fun _ hc => List.all_eq_true.1 List.all_takeWhile _ hc⟩

theorem exists_trimEnd (cs : List Char) :
    ∃ after, cs = trimEnd cs ++ after ∧ ∀ c ∈ after, isBlank c = true := by
  obtain ⟨before, hcs, hbefore⟩ := exists_trimStart cs.reverse
  refine ⟨before.reverse, ?_, fun c hc => hbefore c (List.mem_reverse.1 hc)⟩
  have := congrArg List.reverse hcs
  rwa [List.reverse_reverse, List.reverse_append] at this

/-- Trimming takes white space off both ends. -/
theorem exists_trim (cs : List Char) :
    ∃ before after, cs = before ++ (trim cs ++ after) ∧ (∀ c ∈ before, isBlank c = true) ∧
      ∀ c ∈ after, isBlank c = true := by
  obtain ⟨before, hbefore, hblank⟩ := exists_trimStart cs
  obtain ⟨after, hafter, hblank'⟩ := exists_trimEnd (trimStart cs)
  refine ⟨before, after, ?_, hblank, hblank'⟩
  rw [trim, ← hafter]
  exact hbefore

theorem isBlank_of_head?_trimStart {cs : List Char} {c : Char} (h : (trimStart cs).head? = some c) :
    isBlank c = false := by
  have hhead := List.head?_dropWhile_not isBlank cs
  rw [trimStart] at h
  rw [h] at hhead
  simpa using hhead

theorem isBlank_of_head?_trim {cs : List Char} {c : Char} (h : (trim cs).head? = some c) :
    isBlank c = false := by
  obtain ⟨after, hafter, -⟩ := exists_trimEnd (trimStart cs)
  have hstart : (trimStart cs).head? = some c := by
    rw [hafter, List.head?_append, ← trim, h]
    rfl
  exact isBlank_of_head?_trimStart hstart

theorem trim_blanks_append {blanks : List Char} (h : ∀ c ∈ blanks, isBlank c = true)
    (cs : List Char) : trim (blanks ++ cs) = trim cs := by
  rw [trim, trim, trimStart, trimStart, List.dropWhile_append_of_pos h]

theorem trimEnd_append_blanks {blanks : List Char} (h : ∀ c ∈ blanks, isBlank c = true)
    (cs : List Char) : trimEnd (cs ++ blanks) = trimEnd cs := by
  rw [trimEnd, trimEnd, dropEndWhile, dropEndWhile, List.reverse_append,
    List.dropWhile_append_of_pos fun c hc => h c (List.mem_reverse.1 hc)]

theorem trimStart_eq_nil_iff {cs : List Char} : trimStart cs = [] ↔ cs.all isBlank = true := by
  induction cs with
  | nil => simp [trimStart]
  | cons c cs ih => cases hc : isBlank c <;> simp_all [trimStart]

theorem trim_concat {c : Char} (hc : isBlank c = false) (cs : List Char) :
    trim (cs ++ [c]) = trimStart cs ++ [c] := by
  have hstart : trimStart (cs ++ [c]) = trimStart cs ++ [c] := by
    rw [trimStart, List.dropWhile_append]
    cases h : List.dropWhile isBlank cs <;> simp [trimStart, h, hc]
  rw [trim, hstart, trimEnd, dropEndWhile]
  simp [hc]

theorem trim_append_blanks {blanks : List Char} (h : ∀ c ∈ blanks, isBlank c = true)
    (cs : List Char) : trim (cs ++ blanks) = trim cs := by
  have hblanks : blanks.dropWhile isBlank = [] := trimStart_eq_nil_iff.2 (List.all_eq_true.2 h)
  rw [trim, trimStart, List.dropWhile_append, hblanks]
  cases hcs : cs.dropWhile isBlank with
  | nil => simp [trim, trimStart, hcs]
  | cons c ds => simp only [List.isEmpty_cons, Bool.false_eq_true, if_false,
      trimEnd_append_blanks h, trim, trimStart, hcs]

theorem trim_trim (cs : List Char) : trim (trim cs) = trim cs := by
  obtain ⟨before, after, hcs, hbefore, hafter⟩ := exists_trim cs
  have htrim := congrArg trim hcs
  rw [trim_blanks_append hbefore, trim_append_blanks hafter] at htrim
  exact htrim.symm

/-- A text without white space at either end stays as it is. -/
theorem trim_of_ends {c : Char} {cs : List Char} (hc : isBlank c = false)
    (hlast : ∀ d, (c :: cs).getLast? = some d → isBlank d = false) : trim (c :: cs) = c :: cs := by
  rcases List.eq_nil_or_concat cs with rfl | ⟨ds, d, rfl⟩
  · simp [trim, trimStart, trimEnd, dropEndWhile, hc]
  · rw [List.concat_eq_append, ← List.cons_append] at hlast ⊢
    have hd : isBlank d = false := hlast d List.getLast?_concat
    rw [trim_concat hd, trimStart, List.dropWhile_cons, hc]
    rfl

theorem trim_eq_nil_iff {cs : List Char} : trim cs = [] ↔ cs.all isBlank = true := by
  constructor
  · intro h
    obtain ⟨before, after, hcs, hbefore, hafter⟩ := exists_trim cs
    rw [hcs, h, List.all_eq_true]
    intro c hc
    rcases List.mem_append.1 hc with hc | hc
    · exact hbefore c hc
    · exact hafter c hc
  · intro h
    rw [trim, trimStart_eq_nil_iff.2 h]
    rfl

end SchemaDdl.Text

namespace SchemaDdl.Script

/-- The tokens of a text, wherever they stand in it. -/
def tokens (cs : List Char) : Except LexError (List Token) :=
  (lex cs).map (List.map Lexeme.token)

theorem lex_of_chain {ls : List Lexeme} {rest : List Char} (h : Chain ls rest)
    (hrest : FinalGap rest) : lex (written ls ++ rest) = .ok ls := by
  rw [lex, h.lexemes_append, hrest.lexemes_eq]
  simp [Except.map]

theorem lex_of_torn {ls : List Lexeme} {rest : List Char} {e : LexError} (h : Chain ls rest)
    (hrest : Torn e rest) : lex (written ls ++ rest) = .error e := by
  rw [lex, h.lexemes_append, hrest.lexemes_eq]
  rfl

theorem tokens_of_chain {ls : List Lexeme} {rest : List Char} (h : Chain ls rest)
    (hrest : FinalGap rest) : tokens (written ls ++ rest) = .ok (ls.map Lexeme.token) := by
  rw [tokens, lex_of_chain h hrest]
  rfl

theorem tokens_of_torn {ls : List Lexeme} {rest : List Char} {e : LexError} (h : Chain ls rest)
    (hrest : Torn e rest) : tokens (written ls ++ rest) = .error e := by
  rw [tokens, lex_of_torn h hrest]
  rfl

theorem FinalGap.tokens_eq {g : List Char} (h : FinalGap g) : tokens g = .ok [] := by
  rw [tokens, lex, h.lexemes_eq]
  rfl

theorem lex_eq_error_iff {cs : List Char} {e : LexError} :
    lex cs = .error e ↔ tokens cs = .error e := by
  cases h : lex cs <;> simp [tokens, h, Except.map]

theorem closedGap_of_blanks {cs : List Char} (h : ∀ c ∈ cs, Text.isBlank c = true) :
    ClosedGap cs := by
  induction cs with
  | nil => exact .nil
  | cons c cs ih =>
    exact .blank (h c List.mem_cons_self) (ih fun d hd => h d (List.mem_cons_of_mem c hd))

theorem ClosedGap.append_torn {g rest : List Char} {e : LexError} (h : ClosedGap g)
    (h' : Torn e rest) : Torn e (g ++ rest) := by
  cases h' with
  | comment h' hb =>
    have := Torn.comment (h.append h') hb
    simpa using this
  | identifier h' hb =>
    have := Torn.identifier (h.append h') hb
    simpa using this
  | string h' hb =>
    have := Torn.string (h.append h') hb
    simpa using this

/-! ## White space behind a text -/

theorem FinalGap.concat {g : List Char} {c : Char} (h : FinalGap g)
    (hc : Text.isBlank c = true) : FinalGap (g ++ [c]) := by
  cases h with
  | closed h => exact .closed (h.append (.blank hc .nil))
  | @line g body h hb =>
    by_cases hn : c = '\n'
    · subst hn
      have := h.append (.line hb .nil)
      exact .closed (by simpa using this)
    · have hb' : '\n' ∉ body ++ [c] := by simp [hb, Ne.symm hn]
      have := FinalGap.line h hb'
      simpa using this

theorem quotedText_concat {quote c : Char} {cs : List Char} (h : quotedText quote cs = none)
    (hc : c ≠ quote) : quotedText quote (cs ++ [c]) = none := by
  fun_induction quotedText quote cs with
  | case1 => simp [quotedText, hc]
  | case2 => cases h
  | case3 d hd => simp [quotedText, hd, hc]
  | case4 d e cs hd he ih =>
    rw [Option.map_eq_none_iff] at h
    simp [quotedText, hd, he, ih h]
  | case5 => cases h
  | case6 d e cs hd ih =>
    rw [Option.map_eq_none_iff] at h
    have := ih h
    rw [List.cons_append] at this
    simp [quotedText, hd, this]

theorem blockComment_concat {c : Char} {cs : List Char} (h : blockComment cs = none)
    (hc : c ≠ '/') : blockComment (cs ++ [c]) = none := by
  fun_induction blockComment cs with
  | case1 => cases h
  | case2 d cs hd ih =>
    rw [Option.map_eq_none_iff] at h
    rw [List.cons_append, blockComment, ih h]
    · rfl
    · intro ds hstar heq
      cases cs with
      | nil =>
        cases heq
        exact hc rfl
      | cons e cs =>
        cases heq
        exact hd cs hstar rfl
  | case3 => simp [blockComment]

theorem Torn.concat {rest : List Char} {e : LexError} {c : Char} (h : Torn e rest)
    (hc : Text.isBlank c = true) : Torn e (rest ++ [c]) := by
  have hne {d : Char} (hd : Text.isBlank d = false) : c ≠ d := ne_of_isBlank hc hd
  cases h with
  | comment hg hb =>
    have := Torn.comment hg (blockComment_concat hb (hne (by decide)))
    simpa using this
  | identifier hg hb =>
    have := Torn.identifier hg (quotedText_concat hb (hne (by decide)))
    simpa using this
  | string hg hb =>
    have := Torn.string hg (quotedText_concat hb (hne (by decide)))
    simpa using this

/-- More text behind a chain does not run into it. -/
theorem Chain.append_stop {ls : List Lexeme} {rest rest' : List Char} (h : Chain ls rest)
    (hrest' : Stops rest') : Chain ls (rest ++ rest') := by
  induction ls with
  | nil => trivial
  | cons l ls ih =>
    obtain ⟨hl, hend, hls⟩ := h
    refine ⟨hl, fun d hd => ?_, ih hls⟩
    rw [← List.append_assoc] at hd
    cases hw : written ls ++ rest with
    | nil =>
      rw [hw, List.nil_append] at hd
      exact hrest' l.token d hd
    | cons x xs =>
      rw [hw] at hd
      exact hend d (by rw [hw]; exact hd)

theorem lex_concat {c : Char} (hc : Text.isBlank c = true) (cs : List Char) :
    lex (cs ++ [c]) = lex cs := by
  have hstop : Stops [c] := stops_cons (isStop_of_isBlank hc) []
  obtain ⟨ls, rest, rfl, hls, hrest | ⟨e, hrest⟩⟩ := exists_chain cs
  · rw [List.append_assoc, lex_of_chain (hls.append_stop hstop) (hrest.concat hc),
      lex_of_chain hls hrest]
  · rw [List.append_assoc, lex_of_torn (hls.append_stop hstop) (hrest.concat hc),
      lex_of_torn hls hrest]

theorem lex_append_blanks {blanks : List Char} (h : ∀ c ∈ blanks, Text.isBlank c = true)
    (cs : List Char) : lex (cs ++ blanks) = lex cs := by
  induction blanks generalizing cs with
  | nil => rw [List.append_nil]
  | cons c blanks ih =>
    rw [List.append_cons, ih fun d hd => h d (List.mem_cons_of_mem c hd)]
    exact lex_concat (h c List.mem_cons_self) cs

/-! ## White space in front of a text -/

/-- Puts more in front of the gap of the first lexeme. -/
def widen (g : List Char) : List Lexeme → List Lexeme
  | [] => []
  | l :: ls => { l with gap := g ++ l.gap } :: ls

@[simp] theorem map_token_widen (g : List Char) (ls : List Lexeme) :
    (widen g ls).map Lexeme.token = ls.map Lexeme.token := by
  cases ls <;> rfl

@[simp] theorem regap_widen (g g' : List Char) (ls : List Lexeme) :
    regap g (widen g' ls) = regap g ls := by
  cases ls <;> rfl

theorem lex_blanks_append {blanks : List Char} (h : ∀ c ∈ blanks, Text.isBlank c = true)
    (cs : List Char) : lex (blanks ++ cs) = (lex cs).map (widen blanks) := by
  have hblanks := closedGap_of_blanks h
  obtain ⟨ls, rest, rfl, hls, hrest⟩ := exists_chain cs
  cases ls with
  | nil =>
    rw [written_nil, List.nil_append]
    rcases hrest with hrest | ⟨e, hrest⟩
    · rw [lex, lex, hrest.lexemes_eq, (hblanks.append_final hrest).lexemes_eq]
      rfl
    · rw [lex, lex, hrest.lexemes_eq, (hblanks.append_torn hrest).lexemes_eq]
      rfl
  | cons l ls =>
    have hls' : Chain (widen blanks (l :: ls)) rest :=
      ⟨⟨hblanks.append hls.1.gap, hls.1.text⟩, hls.2⟩
    have hwritten : blanks ++ (written (l :: ls) ++ rest) =
        written (widen blanks (l :: ls)) ++ rest := by
      simp [widen]
    rw [hwritten]
    rcases hrest with hrest | ⟨e, hrest⟩
    · rw [lex_of_chain hls' hrest, lex_of_chain hls hrest]
      rfl
    · rw [lex_of_torn hls' hrest, lex_of_torn hls hrest]
      rfl

/-- Trimming a text takes white space off its first gap and changes nothing else. -/
theorem exists_lex_trim (cs : List Char) : ∃ g, lex cs = (lex (Text.trim cs)).map (widen g) := by
  obtain ⟨before, after, hcs, hbefore, hafter⟩ := Text.exists_trim cs
  refine ⟨before, ?_⟩
  calc lex cs = lex (before ++ (Text.trim cs ++ after)) := congrArg lex hcs
    _ = (lex (Text.trim cs ++ after)).map (widen before) := lex_blanks_append hbefore _
    _ = (lex (Text.trim cs)).map (widen before) := by rw [lex_append_blanks hafter]

theorem tokens_trim (cs : List Char) : tokens (Text.trim cs) = tokens cs := by
  obtain ⟨g, hg⟩ := exists_lex_trim cs
  rw [tokens, tokens, hg]
  cases lex (Text.trim cs) with
  | error e => rfl
  | ok ls => exact congrArg Except.ok (map_token_widen g ls).symm

end SchemaDdl.Script
