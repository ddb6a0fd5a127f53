import SchemaDdl.Script.Token

/-!
# Lexemes

A lexeme is a token with its spelling and with the gap before it: white space and comments. The
gaps and spellings, together with the gap behind the last lexeme, make up the text again, so type
names and default expressions are lifted out of a statement word for word.
-/

namespace SchemaDdl.Script

structure Lexeme where
  gap : List Char
  text : List Char
  token : Token
  deriving DecidableEq, Repr

/-- The rest of a line comment with the line break that ends it, and what follows. -/
def lineComment : List Char → List Char × List Char
  | [] => ([], [])
  | c :: cs =>
    if c == '\n' then ([c], cs)
    else
      let (comment, rest) := lineComment cs
      (c :: comment, rest)

/-- The rest of a block comment with the mark that ends it, and what follows. -/
def blockComment : List Char → Option (List Char × List Char)
  | '*' :: '/' :: cs => some (['*', '/'], cs)
  | c :: cs => (blockComment cs).map fun (comment, rest) => (c :: comment, rest)
  | [] => none

structure QuotedText where
  value : List Char
  text : List Char
  rest : List Char

/-- Reads up to the closing quote. A doubled quote stands for one. -/
def quotedText (quote : Char) : List Char → Option QuotedText
  | [] => none
  | [c] => if c == quote then some ⟨[], [c], []⟩ else none
  | c :: d :: cs =>
    if c == quote then
      if d == quote then
        (quotedText quote cs).map fun q => ⟨c :: q.value, c :: d :: q.text, q.rest⟩
      else some ⟨[], [c], d :: cs⟩
    else (quotedText quote (d :: cs)).map fun q => ⟨c :: q.value, c :: q.text, q.rest⟩

theorem length_lineComment_le (cs : List Char) : (lineComment cs).2.length ≤ cs.length := by
  fun_induction lineComment cs with
  | case1 => simp
  | case2 => simp
  | case3 c cs h comment rest heq ih =>
    rw [heq] at ih
    exact Nat.le_trans ih (Nat.le_succ _)

theorem length_blockComment_lt {cs comment rest : List Char}
    (h : blockComment cs = some (comment, rest)) : rest.length < cs.length := by
  fun_induction blockComment cs generalizing comment rest with
  | case1 cs =>
    cases h
    exact Nat.lt_succ_of_lt (Nat.lt_succ_self _)
  | case2 c cs hc ih =>
    obtain ⟨⟨a, b⟩, hab, heq⟩ := Option.map_eq_some_iff.1 h
    have := ih hab
    simp_all
    omega
  | case3 => simp at h

theorem length_quotedText_lt {quote : Char} {cs : List Char} {q : QuotedText}
    (h : quotedText quote cs = some q) : q.rest.length < cs.length := by
  fun_induction quotedText quote cs generalizing q <;>
    grind [Option.map_eq_some_iff, List.length_cons]

/-- White space and comments at the start of a text, and what follows them. -/
def gap (cs : List Char) : Except LexError (List Char × List Char) :=
  match cs with
  | [] => .ok ([], [])
  | '-' :: '-' :: cs =>
    let comment := lineComment cs
    have := length_lineComment_le cs
    (gap comment.2).map fun (g, rest) => ('-' :: '-' :: comment.1 ++ g, rest)
  | '/' :: '*' :: cs =>
    match h : blockComment cs with
    | none => .error .unterminatedComment
    | some (comment, behind) =>
      have := length_blockComment_lt h
      (gap behind).map fun (g, rest) => ('/' :: '*' :: comment ++ g, rest)
  | c :: cs =>
    if Text.isBlank c then (gap cs).map fun (g, rest) => (c :: g, rest)
    else .ok ([], c :: cs)
termination_by cs.length

structure Spelled where
  token : Token
  text : List Char
  rest : List Char

/-- A token whose spelling is `c` and the characters after it that satisfy `p`. -/
def spelledWhile (p : Char → Bool) (mk : String → Token) (c : Char) (cs : List Char) : Spelled :=
  let text := c :: cs.takeWhile p
  ⟨mk (String.ofList text), text, cs.dropWhile p⟩

def spelledQuoted (mk : String → Token) (error : LexError) (quote : Char) (cs : List Char) :
    Except LexError Spelled :=
  match quotedText quote cs with
  | some q => .ok ⟨mk (String.ofList q.value), quote :: q.text, q.rest⟩
  | none => .error error

/-- The token that starts with `c`, a character that is not blank and starts no comment. -/
def spelled (c : Char) (cs : List Char) : Except LexError Spelled :=
  if c == '(' then .ok ⟨.openParen, [c], cs⟩
  else if c == ')' then .ok ⟨.closeParen, [c], cs⟩
  else if c == ',' then .ok ⟨.comma, [c], cs⟩
  else if c == '.' then .ok ⟨.dot, [c], cs⟩
  else if c == ';' then .ok ⟨.semicolon, [c], cs⟩
  else if c == '"' then spelledQuoted .quoted .unterminatedIdentifier c cs
  else if c == '\'' then spelledQuoted .string .unterminatedString c cs
  else if c.isDigit then .ok (spelledWhile continuesNumber .number c cs)
  else if startsWord c then .ok (spelledWhile continuesWord .word c cs)
  else .ok ⟨.symbol c, [c], cs⟩

theorem exists_of_map_eq_ok {ε α β : Type} {f : α → β} {e : Except ε α} {b : β}
    (h : e.map f = .ok b) : ∃ a, e = .ok a ∧ f a = b := by
  cases e with
  | error e => cases h
  | ok a => exact ⟨a, rfl, Except.ok.inj h⟩

theorem length_gap_le {cs g rest : List Char} (h : gap cs = .ok (g, rest)) :
    rest.length ≤ cs.length := by
  fun_induction gap cs generalizing g rest with
  | case1 => simp_all
  | case2 cs comment =>
    rename_i hle ih
    obtain ⟨p, hp, heq⟩ := exists_of_map_eq_ok h
    cases heq
    exact Nat.le_trans (Nat.le_trans (ih hp) hle) (Nat.le_add_right _ 2)
  | case3 => simp at h
  | case4 cs comment behind hb hlt ih =>
    obtain ⟨p, hp, heq⟩ := exists_of_map_eq_ok h
    cases heq
    exact Nat.le_trans (Nat.le_trans (ih hp) (Nat.le_of_lt hlt)) (Nat.le_add_right _ 2)
  | case5 c cs _ _ hc ih =>
    obtain ⟨p, hp, heq⟩ := exists_of_map_eq_ok h
    cases heq
    exact Nat.le_succ_of_le (ih hp)
  | case6 => simp_all

theorem length_spelled_le {c : Char} {cs : List Char} {s : Spelled} (h : spelled c cs = .ok s) :
    s.rest.length ≤ cs.length := by
  have hq {mk e} (hs : spelledQuoted mk e c cs = .ok s) : s.rest.length ≤ cs.length := by
    unfold spelledQuoted at hs
    split at hs
    · rename_i q hq
      cases hs
      exact Nat.le_of_lt (length_quotedText_lt hq)
    · cases hs
  have hw {p mk} (hs : spelledWhile p mk c cs = s) : s.rest.length ≤ cs.length := by
    subst hs
    exact (List.dropWhile_sublist p).length_le
  unfold spelled at h
  repeat' split at h
  all_goals first
    | exact hq h
    | exact hw (Except.ok.inj h)
    | (cases h; exact Nat.le_refl _)

/-- The lexemes of a text and the gap behind the last one. -/
def lexemes (cs : List Char) : Except LexError (List Lexeme × List Char) :=
  match hg : gap cs with
  | .error e => .error e
  | .ok (g, []) => .ok ([], g)
  | .ok (g, c :: rest) =>
    match hs : spelled c rest with
    | .error e => .error e
    | .ok s =>
      have : s.rest.length < cs.length := by
        have h1 := length_spelled_le hs
        have h2 := length_gap_le hg
        simp only [List.length_cons] at h2
        omega
      (lexemes s.rest).map fun (ls, last) => (⟨g, s.text, s.token⟩ :: ls, last)
termination_by cs.length

/-- The lexemes of a text, without the gap behind them. -/
def lex (cs : List Char) : Except LexError (List Lexeme) :=
  (lexemes cs).map Prod.fst

def byteLength : List Char → Nat
  | [] => 0
  | c :: cs => c.utf8Size + byteLength cs

structure Span where
  token : Token
  start : Nat
  stop : Nat
  deriving DecidableEq, Repr

/-- The tokens with their byte offsets, counted from `offset`. -/
def spans (offset : Nat) : List Lexeme → List Span
  | [] => []
  | l :: ls =>
    let start := offset + byteLength l.gap
    let stop := start + byteLength l.text
    ⟨l.token, start, stop⟩ :: spans stop ls

/-- The text of the lexemes with the gaps inside, but without the one in front. -/
def verbatim : List Lexeme → List Char
  | [] => []
  | l :: ls => l.text ++ ls.flatMap fun m => m.gap ++ m.text

end SchemaDdl.Script
