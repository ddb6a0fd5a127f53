import Mathlib.Data.List.TakeWhile
import SchemaDdl.Proofs.Splitting.Stretches

/-!
# Lines of statements

The line of a statement counts the newlines of the script in front of its first character. A loop that
keeps the count while it reads the script, through quotes, comments and pairs of characters, finds the
same statements on the same lines.
-/

namespace SchemaDdl.Script

/-! ## What is no statement -/

theorem dropEndWhile_cons {p : Char → Bool} {c : Char} (h : p c = false) (cs : List Char) :
    ∃ ds, Text.dropEndWhile p (c :: cs) = c :: ds := by
  rw [Text.dropEndWhile, List.reverse_cons, List.dropWhile_append]
  split
  · exact ⟨[], by simp [h]⟩
  · exact ⟨_, by rw [List.reverse_append]; rfl⟩

/-- Whether only semicolons are left of a trimmed stretch. -/
def isSemicolons (text : List Char) : Bool :=
  Text.trim (Text.dropEndWhile (· == ';') text) == []

theorem isSemicolons_cons {c : Char} (hc : c ≠ ';') (hblank : Text.isBlank c = false) (cs : List Char) :
    isSemicolons (c :: cs) = false := by
  obtain ⟨ds, hds⟩ := dropEndWhile_cons (p := (· == ';')) (beq_eq_false_iff_ne.2 hc) cs
  rw [isSemicolons, hds, beq_eq_false_iff_ne, ne_eq, Text.trim_eq_nil_iff, List.all_cons, hblank]
  simp

/-! ## Counting on the way -/

/-- How far a script is read: the region and depth, the line, and the stretch that has begun with the
line of its first character that is not blank. -/
structure Progress where
  region : Region := .plain
  depth : Nat := 0
  line : Nat := 1
  start : Option Nat := none
  current : List Char := []

namespace Progress

/-- The statement that the stretch is so far, unless semicolons are all there is. -/
def statement? (p : Progress) : Option Statement :=
  if isSemicolons (Text.trim p.current) then none
  else some ⟨p.start.getD p.line, Text.trim p.current⟩

/-- The line where the stretch starts if `c` comes next. -/
def startAt (p : Progress) (c : Char) : Option Nat :=
  p.start.or (if Text.isBlank c then none else some p.line)

/-- Two characters that form one piece count no line. -/
def pair (p : Progress) (c d : Char) : Progress :=
  { p with region := p.region.afterPair c, start := p.startAt c, current := p.current ++ [c, d] }

/-- One character more, which may be live. -/
def one (p : Progress) (c : Char) : Progress where
  region := p.region.afterOne c
  depth := (Piece.single p.region c).depthAfter p.depth
  line := if c == '\n' then p.line + 1 else p.line
  start := p.startAt c
  current := p.current ++ [c]

/-- Whether `c` ends the stretch. -/
def endsWith (p : Progress) (c : Char) : Bool :=
  p.depth == 0 && (Piece.single p.region c).isLive ';'

/-- The next stretch begins. -/
def restart (p : Progress) : Progress :=
  { p with start := none, current := [] }

/-- Hands out the statements one by one, each when its last character has been read. -/
def run : Progress → List Char → List Statement
  | p, [] => p.statement?.toList
  | p, [c] =>
    if p.endsWith c then (p.one c).statement?.toList ++ (p.one c).restart.statement?.toList
    else (p.one c).statement?.toList
  | p, c :: d :: cs =>
    if p.region.joins c d then run (p.pair c d) cs
    else if p.endsWith c then (p.one c).statement?.toList ++ run (p.one c).restart (d :: cs)
    else run (p.one c) (d :: cs)

/-- The stretch that has begun, with what completes it, and those behind it. -/
def ahead (p : Progress) (cs : List Char) : List (List Char) :=
  (stretches.terminated (cut ';' p.depth (pieces p.region cs))).modifyHead (p.current ++ ·)

section Ahead

variable {p : Progress} {c d : Char} {cs : List Char}

theorem ahead_nil : p.ahead [] = [p.current] := by
  simp [ahead, pieces, cut, stretches.terminated]

theorem ahead_of_stays {piece : Piece} {rest : List Piece} (q : Progress)
    (hstays : (p.depth == 0 && piece.isLive ';') = false) (hdepth : q.depth = piece.depthAfter p.depth)
    (hcurrent : q.current = p.current ++ piece.chars) (hcs : pieces q.region cs = rest) :
    (stretches.terminated (cut ';' p.depth (piece :: rest))).modifyHead (p.current ++ ·) =
      q.ahead cs := by
  rw [cut_of_stays hstays, terminated_modifyHead, ahead, hdepth, hcurrent, hcs,
    List.modifyHead_modifyHead]
  refine congrArg (List.modifyHead · _) (funext fun s => ?_)
  exact (List.append_assoc _ _ _).symm

theorem ahead_pair (h : p.region.joins c d = true) :
    p.ahead (c :: d :: cs) = (p.pair c d).ahead cs := by
  rw [ahead, pieces_pair h]
  exact ahead_of_stays _ (Bool.and_false _) rfl rfl rfl

theorem ahead_one (hjoins : ∀ d, cs.head? = some d → p.region.joins c d = false)
    (h : p.endsWith c = false) : p.ahead (c :: cs) = (p.one c).ahead cs := by
  rw [ahead, pieces_single hjoins]
  exact ahead_of_stays _ h rfl rfl rfl

theorem plain_of_endsWith (h : p.endsWith c = true) :
    c = ';' ∧ p.region.afterOne c = .plain ∧ p.depth = 0 := by
  rw [endsWith, Bool.and_eq_true, beq_iff_eq] at h
  obtain ⟨hc, hplain⟩ := eq_of_isLive_single h.2
  exact ⟨hc, hplain, h.1⟩

theorem depth_one_of_endsWith (h : p.endsWith c = true) : (p.one c).depth = 0 := by
  obtain ⟨rfl, -, hdepth⟩ := plain_of_endsWith h
  simp [one, Piece.depthAfter, Piece.isLive, Piece.single, hdepth]

theorem ahead_of_endsWith (h : p.endsWith c = true) :
    p.ahead (c :: cs) = (p.current ++ [';']) :: (p.one c).restart.ahead cs := by
  obtain ⟨rfl, hplain, hdepth⟩ := plain_of_endsWith h
  have hnext : (p.one ';').restart.ahead cs =
      stretches.terminated (cut ';' 0 (pieces .plain cs)) := by
    rw [ahead, restart, depth_one_of_endsWith h]
    simp only [one, hplain, List.nil_append]
    exact congrFun List.modifyHead_id _
  rw [ahead, (cut_of_live (by decide) h).2 cs, terminated_cons _ (cut_ne_nil _ _ _), hnext]
  rfl

end Ahead

end Progress

/-- The line of the first character that is not blank, if there is one. -/
def startLine (line : Nat) (cs : List Char) : Option Nat :=
  if cs.all Text.isBlank then none else some (line + newlines (cs.takeWhile Text.isBlank))

/-- Behind a character that is not blank, the rest of a piece does not matter. -/
theorem startLine_append (line : Nat) (cs : List Char) {c : Char} {ds : List Char}
    (h : Text.isBlank c = true → ds = []) :
    startLine line (cs ++ c :: ds) =
      (startLine line cs).or (if Text.isBlank c then none else some (line + newlines cs)) := by
  induction cs generalizing line with
  | nil =>
    cases hc : Text.isBlank c with
    | true => simp [startLine, hc, h hc]
    | false => simp [startLine, hc, newlines]
  | cons e cs ih =>
    cases he : Text.isBlank e with
    | true =>
      have hline (xs : List Char) : line + newlines (e :: xs) = line + newlines [e] + newlines xs := by
        rw [← List.singleton_append, newlines_append, Nat.add_assoc]
      have hstep (xs : List Char) : startLine line (e :: xs) = startLine (line + newlines [e]) xs := by
        rw [startLine, startLine, List.all_cons, he, Bool.true_and, List.takeWhile_cons, he, if_pos rfl,
          hline]
      rw [List.cons_append, hstep, hstep, ih, hline cs]
    | false => simp [startLine, he]

theorem isSemicolons_trim {cs : List Char} (h : cs.find? (!Text.isBlank ·) ≠ some ';') :
    isSemicolons (Text.trim cs) = isBare (Text.trim cs) := by
  rw [List.find?_not_eq_head?_dropWhile] at h
  cases hcs : Text.trimStart cs with
  | nil =>
    rw [Text.trim, hcs]
    rfl
  | cons c ds =>
    have hblank := Text.isBlank_of_head?_trimStart (congrArg List.head? hcs)
    have hc : c ≠ ';' := by simpa [show cs.dropWhile Text.isBlank = _ from hcs] using h
    obtain ⟨es, hes⟩ := dropEndWhile_cons hblank ds
    have htrim : Text.trim cs = c :: es := by
      rw [Text.trim, hcs]
      exact hes
    rw [htrim, isSemicolons_cons hc hblank]
    simp [isBare, hc]

theorem isSemicolons_trim_concat {cs : List Char} (h : cs.find? (!Text.isBlank ·) ≠ some ';') :
    isSemicolons (Text.trim (cs ++ [';'])) = isBare (Text.trim (cs ++ [';'])) := by
  rw [List.find?_not_eq_head?_dropWhile] at h
  rw [isBare_trim_concat, Text.trim_concat (by decide)]
  cases hcs : Text.trimStart cs with
  | nil =>
    rw [Text.trimStart_eq_nil_iff.1 hcs]
    rfl
  | cons c ds =>
    have hc : c ≠ ';' := by simpa [show cs.dropWhile Text.isBlank = _ from hcs] using h
    have hall : cs.all Text.isBlank = false := by
      rw [Bool.eq_false_iff, ne_eq, ← Text.trimStart_eq_nil_iff, hcs]
      exact List.cons_ne_nil c ds
    rw [hall, List.cons_append]
    exact isSemicolons_cons hc (Text.isBlank_of_head?_trimStart (congrArg List.head? hcs)) _

namespace Progress

/-- What a loop that counts on the way keeps: the stretch that has begun on `line` is counted so far,
and white space alone leaves the state as it was. -/
structure Counts (p : Progress) (line : Nat) : Prop where
  line_eq : p.line = line + newlines p.current
  start_eq : p.start = startLine line p.current
  fresh : p.current.all Text.isBlank = true → p.region = .plain ∧ p.depth = 0
  head : p.current.find? (!Text.isBlank ·) ≠ some ';'

section Counts

variable {p : Progress} {line : Nat} {c d : Char} {cs : List Char}

theorem Counts.startAt_eq (h : p.Counts line) {ds : List Char} (hds : Text.isBlank c = true → ds = []) :
    p.startAt c = startLine line (p.current ++ c :: ds) := by
  rw [startLine_append line p.current hds, startAt, h.start_eq, h.line_eq]

theorem statement?_eq (hstart : p.start = startLine line p.current)
    (hbare : isSemicolons (Text.trim p.current) = isBare (Text.trim p.current)) :
    p.statement? = statementAt line p.current := by
  rw [statement?, statementAt_eq, hbare, hstart, startLine]
  cases hall : p.current.all Text.isBlank with
  | true =>
    rw [Text.trim_eq_nil_iff.2 hall]
    rfl
  | false => rfl

theorem newlines_concat (cs : List Char) (c : Char) :
    newlines (cs ++ [c]) = if c == '\n' then newlines cs + 1 else newlines cs := by
  by_cases hc : c = '\n' <;> simp [newlines, hc]

theorem Counts.line_one (h : p.Counts line) : (p.one c).line = line + newlines (p.current ++ [c]) := by
  rw [newlines_concat, Progress.one, h.line_eq]
  split <;> rfl

theorem Counts.one (h : p.Counts line) (hends : p.endsWith c = false) : (p.one c).Counts line where
  line_eq := h.line_one
  start_eq := h.startAt_eq fun _ => rfl
  fresh hall := by
    obtain ⟨hcurrent, hc⟩ := List.forall_mem_append.1 (List.all_eq_true.1 hall)
    obtain ⟨hregion, hdepth⟩ := h.fresh (List.all_eq_true.2 hcurrent)
    have hc := List.forall_mem_singleton.1 hc
    have hne {x : Char} (hx : Text.isBlank x = false) : c ≠ x := ne_of_isBlank hc hx
    have hlive (x : Char) : (Piece.single .plain c).isLive x = (c == x) := by
      simp [Piece.isLive, Piece.single, Region.afterOne, hne (x := '\'') (by decide),
        hne (x := '"') (by decide)]
    simp [Progress.one, hregion, hdepth, Region.afterOne, Piece.depthAfter, hlive,
      hne (x := '\'') (by decide), hne (x := '"') (by decide), hne (x := '(') (by decide),
      hne (x := ')') (by decide)]
  head hfirst := by
    rw [Progress.one, List.find?_append, Option.or_eq_some_iff] at hfirst
    rcases hfirst with hfirst | ⟨hnone, hc⟩
    · exact h.head hfirst
    · have hall : p.current.all Text.isBlank = true := by simpa using hnone
      obtain ⟨hregion, hdepth⟩ := h.fresh hall
      obtain rfl : c = ';' := List.mem_singleton.1 (List.mem_of_find?_eq_some hc) ▸ rfl
      rw [endsWith, hregion, hdepth] at hends
      cases hends

theorem visible_of_joins {r : Region} (h : r.joins c d = true) :
    Text.isBlank c = false ∧ c ≠ ';' ∧ newlines [c, d] = 0 := by
  cases r with
  | plain =>
    simp only [Region.joins, Bool.or_eq_true, Bool.and_eq_true, beq_iff_eq] at h
    rcases h with ((⟨rfl, rfl⟩ | ⟨rfl, rfl⟩) | ⟨rfl, rfl⟩) | ⟨rfl, rfl⟩ <;> decide
  | single | double | blockComment =>
    simp only [Region.joins, Bool.and_eq_true, beq_iff_eq] at h
    obtain ⟨rfl, rfl⟩ := h
    decide
  | lineComment => cases h

theorem Counts.pair (h : p.Counts line) (hjoins : p.region.joins c d = true) :
    (p.pair c d).Counts line := by
  obtain ⟨hblank, hsemicolon, hlines⟩ := visible_of_joins hjoins
  constructor
  · rw [Progress.pair, newlines_append, hlines]
    exact h.line_eq
  · refine h.startAt_eq fun hc => ?_
    rw [hblank] at hc
    cases hc
  · intro hall
    have hc : Text.isBlank c = true := List.all_eq_true.1 hall c (by simp [Progress.pair])
    rw [hblank] at hc
    cases hc
  · intro hfirst
    rw [Progress.pair, List.find?_append, Option.or_eq_some_iff, List.find?_cons, hblank] at hfirst
    rcases hfirst with hfirst | ⟨-, hc⟩
    · exact h.head hfirst
    · exact hsemicolon (Option.some.inj hc)

theorem Counts.restart (h : p.Counts line) (hends : p.endsWith c = true) :
    (p.one c).restart.Counts (line + newlines (p.current ++ [c])) where
  line_eq := h.line_one
  start_eq := rfl
  fresh _ := ⟨(plain_of_endsWith hends).2.1, depth_one_of_endsWith hends⟩
  head := by
    rw [Progress.restart]
    exact fun h => nomatch h

theorem Counts.statement?_eq (h : p.Counts line) : p.statement? = statementAt line p.current :=
  Progress.statement?_eq h.start_eq (isSemicolons_trim h.head)

theorem Counts.statement?_one (h : p.Counts line) (hends : p.endsWith c = true) :
    (p.one c).statement? = statementAt line (p.current ++ [c]) := by
  obtain ⟨rfl, -⟩ := plain_of_endsWith hends
  exact Progress.statement?_eq (h.startAt_eq fun _ => rfl) (isSemicolons_trim_concat h.head)

theorem numberedStatements_ahead (hends : p.endsWith c = true) :
    numberedStatements line (p.ahead (c :: cs)) = (statementAt line (p.current ++ [c])).toList ++
      numberedStatements (line + newlines (p.current ++ [c])) ((p.one c).restart.ahead cs) := by
  obtain ⟨rfl, -⟩ := plain_of_endsWith hends
  rw [ahead_of_endsWith hends, numberedStatements]

/-- A loop that counts on the way finds every statement on its line. -/
theorem Counts.run_eq (h : p.Counts line) (cs : List Char) :
    p.run cs = numberedStatements line (p.ahead cs) := by
  fun_induction Progress.run p cs generalizing line with
  | case1 p =>
    rw [ahead_nil, numberedStatements, numberedStatements, h.statement?_eq, List.append_nil]
  | case2 p c hends =>
    have hnext := (h.restart hends).statement?_eq
    rw [numberedStatements_ahead hends, ahead_nil, numberedStatements, numberedStatements,
      h.statement?_one hends, hnext, List.append_nil]
  | case3 p c hends =>
    have hends := Bool.eq_false_iff.2 hends
    rw [ahead_one (by simp) hends, ahead_nil, numberedStatements, numberedStatements,
      (h.one hends).statement?_eq, List.append_nil]
  | case4 p c d cs hjoins ih => rw [ahead_pair hjoins, ih (h.pair hjoins)]
  | case5 p c d cs hjoins hends ih =>
    rw [numberedStatements_ahead hends, h.statement?_one hends, ih (h.restart hends)]
  | case6 p c d cs hjoins hends ih =>
    have hends := Bool.eq_false_iff.2 hends
    have hjoins (e : Char) (he : (d :: cs).head? = some e) : p.region.joins c e = false := by
      cases he
      exact Bool.eq_false_iff.2 hjoins
    rw [ahead_one hjoins hends, ih (h.one hends)]

theorem counts_start : ({} : Progress).Counts 1 where
  line_eq := rfl
  start_eq := rfl
  fresh _ := ⟨rfl, rfl⟩
  head := fun h => nomatch h

theorem run_start (script : List Char) : ({} : Progress).run script = statements script := by
  rw [counts_start.run_eq, ahead]
  exact congrArg (numberedStatements 1) (congrFun List.modifyHead_id _)

end Counts

end Progress

/-! ## Statements -/

/-- Splitting a script into statements loses nothing and numbers lines rightly: the stretches make up
the script, each that is neither blank nor a lone semicolon is one statement, trimmed, on the line of
its first character, and the loop that counts lines on the way finds the same. A statement is split
into itself, and behind a semicolon that ends a statement the script starts afresh. -/
theorem statements_numbered (script : List Char) :
    (stretches script).flatten = script ∧
    statements script = ((stretches script).zipIdx.filterMap fun s =>
      if isBare (Text.trim s.1) then none else
        some ⟨1 + newlines (((stretches script).take s.2).flatten ++ s.1.takeWhile Text.isBlank),
          Text.trim s.1⟩) ∧
    ({} : Progress).run script = statements script ∧
    (∀ s ∈ statements script, statements s.text = [⟨1, s.text⟩]) ∧
    (EndsStatement script → ∀ more, statements (script ++ more) =
      statements script ++ (statements more).map (Statement.lower (newlines script))) := by
  refine ⟨flatten_stretches script, ?_, Progress.run_start script, ?_, fun h => statements_append h⟩
  · rw [statements, numberedStatements_eq]
    refine congrArg (List.filterMap · _) (funext fun s => ?_)
    rw [newlines_append, ← Nat.add_assoc]
    exact statementAt_eq _ s.1
  · intro s hs
    rw [statements, numberedStatements_eq, List.mem_filterMap] at hs
    obtain ⟨⟨stretch, i⟩, hstretch, hat⟩ := hs
    have hmem : stretch ∈ stretches script := List.fst_mem_of_mem_zipIdx hstretch
    dsimp only at hat
    rw [statementAt_eq] at hat
    cases hbare : isBare (Text.trim stretch) with
    | true => simp [hbare] at hat
    | false =>
      rw [hbare] at hat
      cases hat
      exact statements_of_isStretch (isStretch_of_mem_stretches hmem) hbare

/-- The newline in front and the one in the quotes are counted, and the quoted semicolon ends nothing. -/
theorem statements_numbered_quoted :
    (⟨2, "'\n;';".toList⟩ ∈ statements "\n'\n;';".toList ∧
      statements "'\n;';".toList = [⟨1, "'\n;';".toList⟩]) ∧
    EndsStatement "\n'\n;';".toList ∧
    statements ("\n'\n;';".toList ++ "\nb".toList) = [⟨2, "'\n;';".toList⟩, ⟨4, "b".toList⟩] := by
  have hmem : ⟨2, "'\n;';".toList⟩ ∈ statements "\n'\n;';".toList := by decide
  have hends : EndsStatement "\n'\n;';".toList :=
    ⟨["\n'\n;';".toList], [], by decide, by simp, by simp⟩
  obtain ⟨-, -, -, hself, hmore⟩ := statements_numbered "\n'\n;';".toList
  refine ⟨⟨hmem, hself _ hmem⟩, hends, ?_⟩
  rw [hmore hends]
  decide

end SchemaDdl.Script
