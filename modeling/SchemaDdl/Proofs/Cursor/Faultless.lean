import SchemaDdl.Proofs.Cursor.Indexed

/-!
# Reading without a fault

A script is read with cursors and with an index of its tables. Whatever the script, no index is out of
range, no slice cuts a character in two or ends before it starts, no difference is below zero and no
loop stands still, and what is read is what the lexemes are read as.
-/

namespace SchemaDdl.Script

open Attempt

namespace Cursor

/-- Reads the next statement into the draft. -/
def readNext (options : Options) (d : Draft) (s : Statement) : Attempt ParseError Draft := do
  let entry ← (readStatement options d.definesTable s.text).adapt (.malformed s.line)
  return entry.elim d d.add

def parse (ids : Ids) (options : Options) (script : String) : Attempt ParseError Model := do
  let draft ← (statements script.toList).foldlM (readNext options) {}
  Indexed.resolve ids draft

theorem readNext_follows (options : Options) (d : Draft) (s : Statement) :
    Follows Eq (readNext options d s) (d.readNext options s) := by
  have hread : d.readNext options s =
      (Script.readStatement options d.definesTable s.text).mapError (.malformed s.line) >>=
        fun entry => .ok (entry.elim d d.add) := by
    rw [Draft.readNext]
    cases Script.readStatement options d.definesTable s.text <;> rfl
  rw [hread]
  refine ((readStatement_follows options d.definesTable s.text).adapt _).bind ?_
  rintro entry _ rfl
  exact .ok rfl

theorem parse_eq (ids : Ids) (options : Options) (script : String) :
    parse ids options script = Attempt.of (Script.parse ids options script) := by
  have hstep (d d' : Draft) (s : Statement) (hd : d = d') :
      Follows Eq (readNext options d s) (Draft.readNext options d' s) := by
    rw [hd]
    exact readNext_follows options d' s
  have hdraft : Follows Eq ((statements script.toList).foldlM (readNext options) {})
      (Draft.ofStatements options (statements script.toList)) :=
    .foldlM hstep rfl _
  refine follows_eq_iff.1 (hdraft.and_eq_ok.bind ?_)
  rintro d _ ⟨rfl, hd⟩
  exact resolve_follows ids (Draft.ofStatements_sound hd).keys

end Cursor

/-! ## Passes -/

/-- Wherever a cursor stands in its text, a pass that is not the last one takes a token. -/
def Consumes {α ρ : Type} (pass : α × Cursor → Attempt String (Turn (α × Cursor) ρ)) : Prop :=
  ∀ text c, Cursor.ofText text = pure c → ∀ n ≤ c.tokens.length, ∀ a a' c',
    pass (a, c.advance n) = pure (.again (a', c')) → c'.left < (c.advance n).left

theorem exists_views_advance {text : List Char} {c : Cursor} (h : Cursor.ofText text = pure c) {n : Nat}
    (hn : n ≤ c.tokens.length) : ∃ (t : LexedText) (ls : List Lexeme), t.Views (c.advance n) ls := by
  have hread := Cursor.ofText_follows text
  rw [h] at hread
  generalize (lex text).mapError LexError.message = e at hread
  cases hread with
  | ok hholds =>
    obtain ⟨t, -, rfl, hviews⟩ := hholds
    refine ⟨t, _, hviews.advance ?_⟩
    rwa [hviews.tokens_eq, length_spans] at hn

theorem consumes_of_advances {α β ρ : Type} {s : LexedText → ρ → β → Prop}
    {pass : α × Cursor → Attempt String (Turn (α × Cursor) ρ)}
    {g : α × List Lexeme → Except String β}
    (hpass : ∀ (t : LexedText) a c ls, t.Views c ls → Advances (fun state => state.2.left) t.Captures
      (s t) g (a, c) (a, ls) (pass (a, c))) : Consumes pass := by
  intro text c h n hn a a' c' hagain
  obtain ⟨t, ls, hviews⟩ := exists_views_advance h hn
  have hadvances := hpass t a _ ls hviews
  rw [hagain] at hadvances
  cases hadvances with
  | again _ hlt _ => exact hlt

/-- Every script is read without a fault. A parenthesis is matched by the one at which the depth is back
at 0 for the first time, or by none if the depth stays above 0, and the loops over names, clauses, enum
values and actions take a token in every pass but the last. -/
theorem parse_faultless :
    (∀ ids options script,
      Cursor.parse ids options script = Attempt.of (parse ids options script)) ∧
    (∀ c : Cursor, c.peek = some .openParen →
      (∀ close, c.matchingParen = some close ↔ ∃ n, close = c.position + n ∧ Closes 0 c.rest n) ∧
      (c.matchingParen = none ↔ ∀ n < c.rest.length, depthThrough 0 (c.rest.take (n + 1)) ≠ 0)) ∧
    (∀ separator what, Consumes (Cursor.namesPass separator what)) ∧
    (∀ strict, Consumes (Cursor.clausePass strict)) ∧
    Consumes Cursor.enumPass ∧ Consumes Cursor.actionsPass := by
  refine ⟨Cursor.parse_eq, fun c h => ?_, fun separator what => ?_, fun strict => ?_, ?_, ?_⟩
  · have hparen := Cursor.inParen_rest h
    exact ⟨fun close => closing_eq_some_iff hparen, closing_eq_none_iff hparen⟩
  · exact consumes_of_advances fun _ ns _ _ h => h.namesPass separator what ns
  · exact consumes_of_advances fun _ column _ _ h => h.clausePass strict column
  · exact consumes_of_advances fun _ values _ _ h => h.enumPass values
  · exact consumes_of_advances fun _ actions _ _ h => h.actionsPass actions

/-- The first script has characters of more than one byte in names, in a default and in a comment.
Behind the names of two tables a parenthesis is closed and one is not, and of two enum values a pass
takes the first and the comma. -/
theorem parse_faultless_bytes :
    let tokens (text : String) := (spanned text.toList).toOption.getD []
    let behindName (text : String) : Cursor := ⟨text.toList, tokens text, 1⟩
    let closed := behindName "t (a numeric(1, 2), b int);"
    let unclosed := behindName "t (a numeric(1, 2), b int;"
    let script := "CREATE TABLE größe (ä text DEFAULT 'ß', é int CHECK (é > 0));" ++
      "COMMENT ON COLUMN größe.ä IS '→';"
    let values : Cursor := ⟨"'ß', 'b')".toList,
      [⟨.string "ß", 0, 4⟩, ⟨.comma, 4, 5⟩, ⟨.string "b", 6, 9⟩, ⟨.closeParen, 9, 10⟩], 0⟩
    (∃ m, parse .positional {} script = .ok m ∧ Cursor.parse .positional {} script = pure m ∧
      m.tables.map (fun t => t.columns.map Column.comment) = [[some "→", none]]) ∧
    (closed.peek = some .openParen ∧ closed.matchingParen = some 12 ∧
      ∃ n, 12 = 1 + n ∧ Closes 0 closed.rest n) ∧
    (unclosed.peek = some .openParen ∧ unclosed.matchingParen = none ∧
      depthThrough 0 (unclosed.rest.take (10 + 1)) ≠ 0) ∧
    Cursor.ofText "'ß', 'b')".toList = pure values ∧
      Cursor.enumPass ([], values) = pure (.again (["ß"], values.advance 2)) ∧
      (values.advance 2).left < values.left := by
  intro tokens behindName closed unclosed script values
  have hcomments : ((parse .positional {} script).toOption.map fun m : Model =>
      m.tables.map fun t => t.columns.map Column.comment) = some [[some "→", none]] := by
    decide +kernel
  have hclosed : closed.peek = some .openParen := by decide +kernel
  have hmatch : closed.matchingParen = some 12 := by decide +kernel
  have hunclosed : unclosed.peek = some .openParen := by decide +kernel
  have hnone : unclosed.matchingParen = none := by decide +kernel
  have htokens : spanned "'ß', 'b')".toList = .ok values.tokens :=
    toOption_eq_some_iff.1 (by decide +kernel)
  have hvalues : Cursor.ofText "'ß', 'b')".toList = pure values := by
    rw [Cursor.ofText, Scanner.tokenize_eq, htokens]
    rfl
  have hpass : Cursor.enumPass ([], values) = pure (.again (["ß"], values.advance 2)) := rfl
  obtain ⟨hparse, hparens, -, -, henum, -⟩ := parse_faultless
  obtain ⟨m, hm, hcomment⟩ := Option.map_eq_some_iff.1 hcomments
  have hok : parse .positional {} script = .ok m := toOption_eq_some_iff.1 hm
  refine ⟨⟨m, hok, by rw [hparse, hok]; rfl, hcomment⟩,
    ⟨hclosed, hmatch, ((hparens closed hclosed).1 12).1 hmatch⟩,
    ⟨hunclosed, hnone, (hparens unclosed hunclosed).2.1 hnone 10 (by decide +kernel)⟩,
    hvalues, hpass, ?_⟩
  exact henum _ values hvalues 0 (Nat.zero_le _) [] ["ß"] _ hpass

end SchemaDdl.Script
