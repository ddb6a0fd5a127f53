import SchemaDdl.Proofs.Ddl.Wording
import SchemaDdl.Proofs.Lexing.Spans
import SchemaDdl.Proofs.Splitting.Stretches

/-!
# Quoting

A quoted text is one token whatever it says, and the splitters pass over it: where they cut what
stands around it does not depend on it.
-/

namespace SchemaDdl.Text

theorem dropWhile_append_cons {p : Char → Bool} {y : Char} (h : p y = false) (xs ys : List Char) :
    (xs ++ y :: ys).dropWhile p = xs.dropWhile p ++ y :: ys := by
  induction xs with
  | nil => rw [List.nil_append, List.dropWhile_cons, h]; rfl
  | cons x xs ih => cases hx : p x <;> simp [hx, ih]

theorem takeWhile_append_cons {p : Char → Bool} {y : Char} (h : p y = false) (xs ys : List Char) :
    (xs ++ y :: ys).takeWhile p = xs.takeWhile p := by
  induction xs with
  | nil => rw [List.nil_append, List.takeWhile_cons, h]; rfl
  | cons x xs ih => cases hx : p x <;> simp [hx, ih]

/-- White space is trimmed off up to a visible text, but not off it. -/
theorem trim_around {c : Char} (h : isBlank c = false) (before middle after : List Char) :
    trim (before ++ (c :: (middle ++ [c]) ++ after)) =
      trimStart before ++ (c :: (middle ++ [c]) ++ trimEnd after) := by
  have hstart : trimStart (before ++ (c :: (middle ++ [c]) ++ after)) =
      trimStart before ++ c :: (middle ++ [c] ++ after) :=
    dropWhile_append_cons h before _
  have hend : (trimStart before ++ c :: (middle ++ [c] ++ after)).reverse =
      after.reverse ++ c :: (trimStart before ++ c :: middle).reverse := by
    simp
  rw [trim, hstart, trimEnd, dropEndWhile, hend, dropWhile_append_cons h]
  simp [trimEnd, dropEndWhile]

theorem trimStart_suffix (cs : List Char) : trimStart cs <:+ cs :=
  List.dropWhile_suffix isBlank

theorem trimEnd_prefix (cs : List Char) : trimEnd cs <+: cs := by
  obtain ⟨after, h, -⟩ := exists_trimEnd cs
  exact ⟨after, h.symm⟩

end SchemaDdl.Text

namespace SchemaDdl.Script

/-! ## One token -/

/-- A spelling that the text behind it does not run into is a token, and the text is read behind it. -/
theorem Spells.spanned_append {t : Token} {text rest : List Char} (h : Spells t text)
    (hrest : t.EndsAt rest) : spanned (text ++ rest) = (spanned rest).map fun ss =>
      ⟨t, 0, byteLength text⟩ :: ss.map (.shift (byteLength text)) := by
  have hread := lexemes_cons (l := ⟨[], text, t⟩) ⟨.nil, h⟩ hrest
  rw [List.nil_append] at hread
  rw [spanned, spanned, lex, lex, hread]
  cases lexemes rest with
  | error e => rfl
  | ok p =>
    have hspans : spans 0 (⟨[], text, t⟩ :: p.1) = ⟨t, 0, byteLength text⟩ ::
        (spans 0 p.1).map (.shift (byteLength text)) := by
      simp [spans, map_shift_spans]
    exact congrArg Except.ok hspans

/-! ## Regions around a text -/

/-- Where the splitters are behind a text. -/
def regionAfter : Region → List Char → Region
  | r, [] => r
  | r, [c] => r.afterOne c
  | r, c :: d :: cs =>
    if r.joins c d then regionAfter (r.afterPair c) cs else regionAfter (r.afterOne c) (d :: cs)

/-- Texts that do not join are read one after the other. -/
theorem pieces_append {r : Region} {a b : List Char}
    (h : ∀ c d, a.getLast? = some c → b.head? = some d → ∀ r : Region, r.joins c d = false) :
    pieces r (a ++ b) = pieces r a ++ pieces (regionAfter r a) b := by
  fun_induction regionAfter r a with
  | case1 r => rfl
  | case2 r c =>
    rw [List.singleton_append, pieces_single fun d hd => h c d rfl hd r]
    rfl
  | case3 r c d cs hjoins ih =>
    rw [List.cons_append, List.cons_append, pieces_pair hjoins, pieces_pair hjoins, ih fun x y hx => ?_]
    · rfl
    · exact h x y (by simp [List.getLast?_cons, hx])
  | case4 r c d cs hjoins ih =>
    have hpieces (cs : List Char) :
        pieces r (c :: d :: cs) = .single r c :: pieces (r.afterOne c) (d :: cs) := by
      rw [pieces, if_neg hjoins]
    rw [List.cons_append] at ih
    rw [List.cons_append, List.cons_append, hpieces, hpieces, ih fun x y hx => ?_]
    · rfl
    · exact h x y (by rw [List.getLast?_cons_cons]; exact hx)

theorem Opens.joins_eq_false {q c : Char} {r' : Region} (h : Opens q r') (hc : c ≠ q) (r : Region) :
    r.joins c q = false := by
  cases h <;> cases r <;> simp [Region.joins, hc]

/-- Behind some pieces a cut has finished some parts and has begun one more. -/
theorem exists_cut_append (sep : Char) (depth : Nat) (xs : List Piece) :
    ∃ front before d, ∀ ys, cut sep depth (xs ++ ys) =
      front ++ (cut sep d ys).modifyHead (before ++ ·) := by
  induction xs generalizing depth with
  | nil => exact ⟨[], [], depth, fun ys => (congrFun List.modifyHead_id (cut sep depth ys)).symm⟩
  | cons x xs ih =>
    cases hlive : depth == 0 && x.isLive sep with
    | true =>
      obtain ⟨front, before, d, h⟩ := ih 0
      refine ⟨[] :: front, before, d, fun ys => ?_⟩
      rw [List.cons_append, cut, hlive, if_pos rfl, h, List.cons_append]
    | false =>
      obtain ⟨front, before, d, h⟩ := ih (x.depthAfter depth)
      cases front with
      | nil =>
        refine ⟨[], x.chars ++ before, d, fun ys => ?_⟩
        rw [List.cons_append, cut_of_stays hlive, h, List.nil_append, List.modifyHead_modifyHead]
        refine congrArg (List.modifyHead · _) (funext fun s => ?_)
        exact (List.append_assoc _ _ _).symm
      | cons f front =>
        refine ⟨(x.chars ++ f) :: front, before, d, fun ys => ?_⟩
        rw [List.cons_append, cut_of_stays hlive, h]
        rfl

/-- What a cut finds around a text that is read quietly: the last part in front of it and the first
part behind it are one part with it. -/
theorem exists_cut_around {sep : Char} (hsep : sep ∈ controls) {p q : List Char}
    (hp : regionAfter .plain p = .plain) :
    ∃ front before parts, [sep].intercalate (front ++ [before]) = p ∧ [sep].intercalate parts = q ∧
      parts ≠ [] ∧ ∀ text, QuietlyRead .plain text q →
        (∀ c d, p.getLast? = some c → (text ++ q).head? = some d → ∀ r : Region, r.joins c d = false) →
        cut sep 0 (pieces .plain (p ++ (text ++ q))) =
          front ++ parts.modifyHead fun part => before ++ (text ++ part) := by
  obtain ⟨front, before, d, hcut⟩ := exists_cut_append sep 0 (pieces .plain p)
  refine ⟨front, before, cut sep d (pieces .plain q), ?_, ?_, cut_ne_nil _ _ _,
    fun text htext hjoins => ?_⟩
  · have hfront := hcut []
    rw [List.append_nil, cut, List.modifyHead_cons, List.append_nil] at hfront
    rw [← hfront, intercalate_cut, flatMap_chars_pieces]
  · rw [intercalate_cut, flatMap_chars_pieces]
  · rw [pieces_append hjoins, hp, hcut, htext.cut_eq hsep, List.modifyHead_modifyHead]
    rfl

theorem suffix_intercalate (sep : List Char) (front : List (List Char)) (last : List Char) :
    last <:+ sep.intercalate (front ++ [last]) := by
  induction front with
  | nil => simp
  | cons s front ih =>
    obtain ⟨t, ts, hrest⟩ := List.exists_cons_of_ne_nil
      (List.append_ne_nil_of_right_ne_nil front (List.cons_ne_nil last []))
    rw [List.cons_append, hrest, List.intercalate_cons_cons, ← hrest]
    exact ih.trans (List.suffix_append _ _)

theorem prefix_intercalate (sep first : List Char) (parts : List (List Char)) :
    first <+: sep.intercalate (first :: parts) := by
  cases parts with
  | nil => simp
  | cons s parts =>
    rw [List.intercalate_cons_cons, List.append_assoc]
    exact List.prefix_append _ _

/-! ## Around a quoted text -/

theorem isBare_eq_false_of_one_lt_length {text : List Char} (h : 1 < text.length) :
    isBare text = false := by
  match text, h with
  | _ :: _ :: _, _ => simp [isBare]

section Around

variable {quote : Char} {r : Region} (h : Opens quote r) {p q : List Char}
include h

/-- A quoted text is visible on both ends, and lies within one part, around the same text whatever
it says. -/
theorem Opens.exists_cut_quoted {sep : Char} (hsep : sep ∈ controls)
    (hp : regionAfter .plain p = .plain) (hlast : p.getLast? ≠ some quote)
    (hq : q.head? ≠ some quote) :
    ∃ front before parts, [sep].intercalate (front ++ [before]) = p ∧ [sep].intercalate parts = q ∧
      parts ≠ [] ∧ ∀ s, cut sep 0 (pieces .plain (p ++ ((Ddl.quoted quote s).toList ++ q))) =
        front ++ parts.modifyHead fun part => before ++ ((Ddl.quoted quote s).toList ++ part) := by
  obtain ⟨front, before, parts, hbefore, hparts, hne, hcut⟩ := exists_cut_around (q := q) hsep hp
  refine ⟨front, before, parts, hbefore, hparts, hne, fun s => hcut _ ?_ fun c d hc hd => ?_⟩
  · rw [Ddl.quoted, String.toList_ofList]
    exact h.quietlyRead_outside (Ddl.quotedText_doubled quote s.toList) hq
  · rw [Ddl.quoted, String.toList_ofList] at hd
    cases hd
    exact h.joins_eq_false fun hcq => hlast (hcq ▸ hc)

theorem Opens.isBlank_eq_false : Text.isBlank quote = false := by
  cases h <;> decide

theorem Opens.trim_quoted (s : String) (before after : List Char) :
    Text.trim (before ++ ((Ddl.quoted quote s).toList ++ after)) =
      Text.trimStart before ++ ((Ddl.quoted quote s).toList ++ Text.trimEnd after) := by
  rw [Ddl.quoted, String.toList_ofList]
  exact Text.trim_around h.isBlank_eq_false before (Ddl.doubled quote s.toList) after

theorem Opens.newlines_quoted (s : String) :
    newlines (Ddl.quoted quote s).toList = newlines s.toList := by
  have hquote : quote ≠ '\n' := by cases h <;> decide
  have hdoubled (cs : List Char) : newlines (Ddl.doubled quote cs) = newlines cs := by
    induction cs with
    | nil => rfl
    | cons c cs ih =>
      rw [newlines, newlines] at ih
      by_cases hc : c = quote
      · simp [Ddl.doubled, newlines, hc, hquote, ih]
      · simp [Ddl.doubled, newlines, hc, List.count_cons, ih]
  rw [Ddl.quoted, String.toList_ofList, List.cons_append, ← List.singleton_append, newlines_append,
    newlines_append, hdoubled]
  simp [newlines, hquote]

/-- A stretch that a quoted text lies in holds a statement. -/
theorem Opens.statementAt_quoted (line : Nat) (s : String) (before after : List Char) :
    statementAt line (before ++ ((Ddl.quoted quote s).toList ++ after)) =
      some ⟨line + newlines (before.takeWhile Text.isBlank),
        Text.trimStart before ++ ((Ddl.quoted quote s).toList ++ Text.trimEnd after)⟩ := by
  have hbare : isBare (Text.trimStart before ++ ((Ddl.quoted quote s).toList ++ Text.trimEnd after)) =
      false := by
    refine isBare_eq_false_of_one_lt_length ?_
    simp [Ddl.quoted]
    omega
  have hblanks : (before ++ ((Ddl.quoted quote s).toList ++ after)).takeWhile Text.isBlank =
      before.takeWhile Text.isBlank := by
    rw [Ddl.quoted, String.toList_ofList]
    exact Text.takeWhile_append_cons h.isBlank_eq_false before _
  rw [statementAt_eq, h.trim_quoted, hbare, hblanks]
  rfl

/-- The stretches around a quoted text: it lies within one of them. -/
theorem Opens.exists_stretches_quoted (hp : regionAfter .plain p = .plain)
    (hlast : p.getLast? ≠ some quote) (hq : q.head? ≠ some quote) :
    ∃ front before after back, before <:+ p ∧ after <+: q ∧
      ∀ s, stretches (p ++ ((Ddl.quoted quote s).toList ++ q)) =
        front ++ (before ++ ((Ddl.quoted quote s).toList ++ after)) :: back := by
  obtain ⟨front, before, parts, hbefore, hparts, hne, hcut⟩ :=
    h.exists_cut_quoted (by decide : ';' ∈ controls) hp hlast hq
  obtain ⟨after, back, hterminated⟩ : ∃ after back, stretches.terminated parts = after :: back := by
    cases parts with
    | nil => exact absurd rfl hne
    | cons part parts => cases parts <;> exact ⟨_, _, rfl⟩
  refine ⟨front.map (· ++ [';']), before, after, back, hbefore ▸ suffix_intercalate [';'] front before,
    ?_, fun s => ?_⟩
  · rw [← hparts, ← flatten_terminated, hterminated, List.flatten_cons]
    exact List.prefix_append _ _
  · have hhead : parts.modifyHead (fun part => before ++ ((Ddl.quoted quote s).toList ++ part)) =
        parts.modifyHead (before ++ (Ddl.quoted quote s).toList ++ ·) :=
      congrArg (List.modifyHead · parts) (funext fun part => (List.append_assoc _ _ _).symm)
    rw [stretches, hcut, terminated_append front (by simpa using hne), hhead, terminated_modifyHead,
      hterminated, List.modifyHead_cons, List.append_assoc]

/-- The statements around a quoted text: it lies within one of them, and those behind it are further
down by the newlines in it. -/
theorem Opens.exists_statements_quoted (hp : regionAfter .plain p = .plain)
    (hlast : p.getLast? ≠ some quote) (hq : q.head? ≠ some quote) :
    ∃ front line before after, ∃ back : List Statement, before <:+ p ∧ after <+: q ∧
      ∀ s, statements (p ++ ((Ddl.quoted quote s).toList ++ q)) =
        front ++ ⟨line, before ++ ((Ddl.quoted quote s).toList ++ after)⟩ ::
          back.map (Statement.lower (newlines s.toList)) := by
  obtain ⟨front, before, after, back, hbefore, hafter, hstretches⟩ :=
    h.exists_stretches_quoted hp hlast hq
  let first := 1 + newlines front.flatten
  refine ⟨numberedStatements 1 front, first + newlines (before.takeWhile Text.isBlank),
    Text.trimStart before, Text.trimEnd after, numberedStatements (first + newlines (before ++ after)) back,
    (Text.trimStart_suffix before).trans hbefore, (Text.trimEnd_prefix after).trans hafter,
    fun s => ?_⟩
  have hline : first + newlines (before ++ ((Ddl.quoted quote s).toList ++ after)) =
      newlines s.toList + (first + newlines (before ++ after)) := by
    simp only [newlines_append, h.newlines_quoted]
    omega
  rw [statements, hstretches, numberedStatements_append, numberedStatements, h.statementAt_quoted,
    hline, numberedStatements_add]
  rfl

/-- The list items around a quoted text: it lies within one of them. -/
theorem Opens.exists_listItems_quoted (hp : regionAfter .plain p = .plain)
    (hlast : p.getLast? ≠ some quote) (hq : q.head? ≠ some quote) :
    ∃ front before after back, before <:+ p ∧ after <+: q ∧
      ∀ s, listItems (p ++ ((Ddl.quoted quote s).toList ++ q)) =
        front ++ (before ++ ((Ddl.quoted quote s).toList ++ after)) :: back := by
  obtain ⟨front, before, parts, hbefore, hparts, hne, hcut⟩ :=
    h.exists_cut_quoted (by decide : ',' ∈ controls) hp hlast hq
  obtain ⟨after, back, rfl⟩ := List.exists_cons_of_ne_nil hne
  have hsuffix : before <:+ p := hbefore ▸ suffix_intercalate [','] front before
  have hafter : after <+: q := hparts ▸ prefix_intercalate [','] after back
  refine ⟨(front.map Text.trim).filter (· ≠ []), Text.trimStart before, Text.trimEnd after,
    (back.map Text.trim).filter (· ≠ []), (Text.trimStart_suffix before).trans hsuffix,
    (Text.trimEnd_prefix after).trans hafter, fun s => ?_⟩
  rw [listItems, hcut, List.modifyHead_cons, List.map_append, List.map_cons, h.trim_quoted,
    List.filter_append, List.filter_cons_of_pos]
  simp [Ddl.quoted]

end Around

end SchemaDdl.Script

namespace SchemaDdl.Ddl

open Script

/-- No text gets out of its quotes. As an identifier and as a literal it is one token, and what stands
behind it is read as it is read alone. Around it the splitters cut at the same places whatever it says:
it lies within one statement or one item, and only moves the statements behind it down by its own
newlines. -/
theorem quoted_opaque :
    (∀ (s : String) (rest : List Char), rest.head? ≠ some '"' →
      spanned ((identifier s).toList ++ rest) = (spanned rest).map fun ss =>
        ⟨.quoted s, 0, byteLength (identifier s).toList⟩ ::
          ss.map (.shift (byteLength (identifier s).toList))) ∧
    (∀ (s : String) (rest : List Char), rest.head? ≠ some '\'' →
      spanned ((literal s).toList ++ rest) = (spanned rest).map fun ss =>
        ⟨.string s, 0, byteLength (literal s).toList⟩ ::
          ss.map (.shift (byteLength (literal s).toList))) ∧
    ∀ quote ∈ ['"', '\''], ∀ p q : List Char, regionAfter .plain p = .plain →
      p.getLast? ≠ some quote → q.head? ≠ some quote →
        (∃ front line before after, ∃ back : List Script.Statement, before <:+ p ∧ after <+: q ∧
          ∀ s, statements (p ++ ((quoted quote s).toList ++ q)) =
            front ++ ⟨line, before ++ ((quoted quote s).toList ++ after)⟩ ::
              back.map (Script.Statement.lower (newlines s.toList))) ∧
        ∃ front before after back, before <:+ p ∧ after <+: q ∧
          ∀ s, listItems (p ++ ((quoted quote s).toList ++ q)) =
            front ++ (before ++ ((quoted quote s).toList ++ after)) :: back := by
  refine ⟨fun s rest hrest => (spells_identifier s).spanned_append ?_,
    fun s rest hrest => (spells_literal s).spanned_append ?_, fun quote hquote p q hp hlast hq => ?_⟩
  · exact (Token.endsAt_of_head?_ne fun d => rfl).2 hrest
  · exact (Token.endsAt_of_head?_ne fun d => rfl).2 hrest
  · obtain ⟨r, h⟩ : ∃ r, Opens quote r := by
      simp only [List.mem_cons, List.not_mem_nil, or_false] at hquote
      rcases hquote with rfl | rfl
      · exact ⟨_, .double⟩
      · exact ⟨_, .single⟩
    exact ⟨h.exists_statements_quoted hp hlast hq, h.exists_listItems_quoted hp hlast hq⟩

/-- A quote and a semicolon in the quotes, and any text at all between two statements. -/
theorem quoted_opaque_semicolon :
    (";".toList.head? ≠ some '"' ∧
      spanned ((identifier "a\";").toList ++ ";".toList) =
        .ok [⟨.quoted "a\";", 0, 6⟩, ⟨.semicolon, 6, 7⟩]) ∧
    '\'' ∈ ['"', '\''] ∧ regionAfter .plain "a;b ".toList = .plain ∧
    "a;b ".toList.getLast? ≠ some '\'' ∧ ";c".toList.head? ≠ some '\'' ∧
    ∃ front line before after, ∃ back : List Script.Statement,
      ∀ s, statements ("a;b ".toList ++ ((quoted '\'' s).toList ++ ";c".toList)) =
        front ++ ⟨line, before ++ ((quoted '\'' s).toList ++ after)⟩ ::
          back.map (Script.Statement.lower (newlines s.toList)) := by
  obtain ⟨hidentifier, -, haround⟩ := quoted_opaque
  refine ⟨⟨by decide, ?_⟩, by decide, by decide, by decide, by decide, ?_⟩
  · have hsemicolon : spanned ";".toList = .ok [⟨.semicolon, 0, 1⟩] :=
      spanned_eq_ok_iff.2 ⟨[⟨[], [';'], .semicolon⟩], [], rfl,
        ⟨⟨.nil, .semicolon⟩, Token.endsAt_nil _, trivial⟩, .closed .nil, rfl⟩
    rw [hidentifier _ _ (by decide), hsemicolon]
    rfl
  · obtain ⟨⟨front, line, before, after, back, -, -, hstatements⟩, -⟩ :=
      haround '\'' (by decide) "a;b ".toList ";c".toList (by decide) (by decide) (by decide)
    exact ⟨front, line, before, after, back, hstatements⟩

end SchemaDdl.Ddl
