import SchemaDdl.Proofs.Cursor.Scanner
import SchemaDdl.Proofs.Paired
import SchemaDdl.Proofs.Reading.Phrases

/-!
# A cursor over tokens

The captures as a cursor makes them that holds a text, its tokens with their byte offsets and a
position among them. Each looks tokens up by index and cuts texts out by offsets, and each captures
what is captured from the front of the lexemes.
-/

namespace SchemaDdl.Script

open Attempt

/-- The difference of two numbers, if it is not below zero. -/
def sub? (a b : Nat) : Option Nat :=
  if b ≤ a then some (a - b) else none

structure Cursor where
  source : List Char
  tokens : List Span
  position : Nat

namespace Cursor

/-- The token `n` places behind the next one. -/
def peekNth (c : Cursor) (n : Nat) : Option Token :=
  c.tokens[c.position + n]?.map Span.token

def peek (c : Cursor) : Option Token :=
  c.peekNth 0

def advance (c : Cursor) (n : Nat) : Cursor :=
  { c with position := c.position + n }

/-- Moves on, but not over the end. -/
def skip (c : Cursor) (n : Nat) : Cursor :=
  { c with position := min (c.position + n) c.tokens.length }

/-- How many tokens are left. -/
def left (c : Cursor) : Nat :=
  c.tokens.length - c.position

/-- The next token as it is written, cut out of the text. -/
def describeNext (c : Cursor) : Attempt String String :=
  match c.tokens[c.position]? with
  | none => return "end of statement"
  | some s => do
    let text ← found (slice? c.source s.start s.stop)
    return "`" ++ String.ofList text ++ "`"

def fail {α : Type} (c : Cursor) (what : String) : Attempt String α := do
  let next ← c.describeNext
  throw s!"expected {what}, found {next}"

/-- Whether the keywords stand `n` places behind the next token. -/
def hasKeywords (c : Cursor) (n : Nat) : List String → Bool
  | [] => true
  | k :: ks => (c.peekNth n).any (Token.isKeyword k) && c.hasKeywords (n + 1) ks

/-- Takes the whole keyword sequence or nothing. -/
def eatKeywords? (c : Cursor) (ks : List String) : Option Cursor :=
  if c.hasKeywords 0 ks then some (c.advance ks.length) else none

def expectKeywords (c : Cursor) (ks : List String) : Attempt String Cursor :=
  match c.eatKeywords? ks with
  | some c => return c
  | none => c.fail (" ".intercalate ks)

def eat? (c : Cursor) (t : Token) : Option Cursor :=
  if c.peek == some t then some (c.advance 1) else none

def expect (c : Cursor) (t : Token) (what : String) : Attempt String Cursor :=
  match c.eat? t with
  | some c => return c
  | none => c.fail what

def ident (c : Cursor) (what : String) : Attempt String (String × Cursor) :=
  match c.peek.bind Token.name? with
  | some n => return (n, c.advance 1)
  | none => c.fail what

def string (c : Cursor) (what : String) : Attempt String (String × Cursor) :=
  match c.peek with
  | some (.string s) => return (s, c.advance 1)
  | _ => c.fail what

/-- Reads one more name if a separator is next. -/
def namesPass (separator : Token) (what : String) (state : List String × Cursor) :
    Attempt String (Turn (List String × Cursor) (List String × Cursor)) :=
  match state.2.eat? separator with
  | none => return .done state
  | some c => do
    let (n, c) ← c.ident what
    return .again (state.1 ++ [n], c)

def names (c : Cursor) (separator : Token) (what : String) : Attempt String (List String × Cursor) := do
  let (first, c) ← c.ident what
  repeatedly (fun state => state.2.left) (namesPass separator what) ([first], c)

def identList (c : Cursor) (what : String) : Attempt String (List String × Cursor) := do
  let c ← c.expect .openParen s!"`(` before {what}"
  let (ns, c) ← c.names .comma what
  let c ← c.expect .closeParen s!"`)` after {what}"
  return (ns, c)

def referentialAction (c : Cursor) : Attempt String (Action × Cursor) :=
  match Action.all.findSome? fun a => (c.eatKeywords? a.keywords).map fun c => (a, c) with
  | some capture => return capture
  | none => c.fail "NO ACTION, RESTRICT, CASCADE, SET NULL or SET DEFAULT"

/-- Whether nothing but an optional semicolon is left. -/
def isDone (c : Cursor) : Bool :=
  match c.peek with
  | none => true
  | some t => t == .semicolon && c.position + 1 == c.tokens.length

def finish (c : Cursor) (what : String) : Attempt String Unit :=
  if c.isDone then return () else c.fail ("end of " ++ what)

end Cursor

/-- The last part of a dotted name is the name and the part before it the schema. -/
def keyOfParts? (parts : List String) : Option QualifiedName :=
  match parts.reverse with
  | [] => none
  | [name] => some ⟨defaultSchema, name⟩
  | name :: schema :: _ => some ⟨schema, name⟩

def Cursor.qualified (c : Cursor) (what : String) : Attempt String (QualifiedName × Cursor) := do
  let (parts, c) ← c.names .dot what
  match keyOfParts? parts with
  | some key => return (key, c)
  | none => throw what

/-- The last part of a dotted name is a column, and the parts before it name the table. -/
def columnOfParts? (parts : List String) : Option (QualifiedName × String) :=
  if parts.length < 2 then none
  else (keyOfParts? parts.dropLast).map fun key => (key, parts.getLast?.getD "")

theorem keyOfParts?_cons (first : String) (more : List String) :
    keyOfParts? (first :: more) = some (.ofParts first more) := by
  fun_induction QualifiedName.ofParts first more with
  | case1 => rfl
  | case2 => rfl
  | case3 first part next rest ih =>
    rw [← ih, keyOfParts?, keyOfParts?, List.reverse_cons]
    rcases hparts : (part :: next :: rest).reverse with _ | ⟨name, _ | ⟨schema, more⟩⟩
    · simp at hparts
    · exact absurd (congrArg List.length hparts) (by simp)
    · rfl

theorem columnOfParts?_cons (first : String) (more : List String) :
    columnOfParts? (first :: more) = QualifiedName.columnOfParts? first more := by
  cases more with
  | nil => rfl
  | cons part more =>
    rw [columnOfParts?, if_neg (by simp), List.dropLast_cons_of_ne_nil (List.cons_ne_nil part more),
      keyOfParts?_cons, List.getLast?_cons_cons, List.getLast?_eq_some_getLast (List.cons_ne_nil part more)]
    rfl

theorem follows_inContext {α β : Type} {r : α → β → Prop} {x : Attempt String α} {e : Except String β}
    (h : Follows r x e) (context : String) :
    Follows r (x.inContext context) (inContext context e) :=
  h.adapt _

theorem takeKeywords_eq_some {ks : List String} {ls rest : List Lexeme}
    (h : takeKeywords ks ls = some rest) : ks.length ≤ ls.length ∧ rest = ls.drop ks.length := by
  fun_induction takeKeywords ks ls with
  | case1 ls =>
    cases h
    exact ⟨Nat.zero_le _, rfl⟩
  | case2 => cases h
  | case3 k ks l ls hk ih =>
    obtain ⟨hle, rfl⟩ := ih h
    exact ⟨Nat.succ_le_succ hle, rfl⟩
  | case4 => cases h

/-! ## What a cursor views -/

/-- A text that is read into lexemes, with the gap behind them. -/
structure LexedText where
  lexemes : List Lexeme
  last : List Char

namespace LexedText

def text (t : LexedText) : List Char :=
  written t.lexemes ++ t.last

/-- The cursor stands in the text in front of its last lexemes `ls`. -/
structure Views (t : LexedText) (c : Cursor) (ls : List Lexeme) : Prop where
  source_eq : c.source = t.text
  tokens_eq : c.tokens = spans 0 t.lexemes
  behind : ∃ front, t.lexemes = front ++ ls ∧ c.position = front.length

/-- The same is captured, and the cursor views what is left. -/
structure Captures {α : Type} (t : LexedText) (x : α × Cursor) (y : α × List Lexeme) : Prop where
  fst_eq : x.1 = y.1
  views : t.Views x.2 y.2

namespace Views

variable {t : LexedText} {c : Cursor} {ls : List Lexeme} (h : t.Views c ls)
include h

theorem length_tokens : c.tokens.length = c.position + ls.length := by
  obtain ⟨front, hlexemes, hposition⟩ := h.behind
  rw [h.tokens_eq, length_spans, hlexemes, List.length_append, hposition]

theorem left_eq : c.left = ls.length := by
  rw [Cursor.left, h.length_tokens, Nat.add_sub_cancel_left]

theorem peekNth_eq (n : Nat) : c.peekNth n = ls[n]?.map Lexeme.token := by
  obtain ⟨front, hlexemes, hposition⟩ := h.behind
  rw [Cursor.peekNth, ← List.getElem?_map, h.tokens_eq, map_token_spans, hlexemes, hposition,
    List.map_append, List.getElem?_append_right (by simp), List.length_map, Nat.add_sub_cancel_left,
    List.getElem?_map]

theorem peek_eq : c.peek = ls.head?.map Lexeme.token := by
  rw [Cursor.peek, h.peekNth_eq, List.head?_eq_getElem?]

theorem advance {n : Nat} (hn : n ≤ ls.length) : t.Views (c.advance n) (ls.drop n) := by
  obtain ⟨front, hlexemes, hposition⟩ := h.behind
  refine ⟨h.source_eq, h.tokens_eq, front ++ ls.take n, ?_, ?_⟩
  · rw [hlexemes, List.append_assoc, List.take_append_drop]
  · rw [Cursor.advance, List.length_append, List.length_take, hposition, Nat.min_eq_left hn]

theorem skip {n : Nat} (hn : n ≤ ls.length) : t.Views (c.skip n) (ls.drop n) := by
  have hskip : c.skip n = c.advance n := by
    rw [Cursor.skip, h.length_tokens, Nat.min_eq_left (Nat.add_le_add_left hn _), Cursor.advance]
  rw [hskip]
  exact h.advance hn

theorem getElem?_tokens {i : Nat} {l : Lexeme} {front back : List Lexeme}
    (ht : t.lexemes = front ++ l :: back) (hi : i = front.length) :
    c.tokens[i]? = some (l.spanBehind 0 front) := by
  rw [h.tokens_eq, ht, spans_append, hi, List.getElem?_append_right (by simp), length_spans,
    Nat.sub_self]
  simp [spans, Lexeme.spanBehind, Nat.add_assoc]

theorem describeNext_eq : c.describeNext = pure (describeNext ls) := by
  obtain ⟨front, hlexemes, hposition⟩ := h.behind
  cases ls with
  | nil =>
    have hnone : c.tokens[c.position]? = none := by
      rw [List.getElem?_eq_none_iff, h.length_tokens]
      exact Nat.le_refl _
    rw [Cursor.describeNext, hnone]
    rfl
  | cons l ls =>
    have hslice : slice? c.source (byteLength (written front ++ l.gap))
        (byteLength (written front ++ l.gap ++ l.text)) = some l.text := by
      refine slice?_eq_some_iff.2 ⟨written front ++ l.gap, written ls ++ t.last, ?_, rfl, rfl⟩
      rw [h.source_eq, text, hlexemes]
      simp
    rw [Cursor.describeNext, h.getElem?_tokens hlexemes hposition]
    dsimp only [Lexeme.spanBehind]
    rw [Nat.zero_add, Nat.zero_add, hslice]
    rfl

theorem fail {α β : Type} {r : α → β → Prop} (what : String) :
    Follows r (c.fail what) (expected what ls) := by
  rw [Cursor.fail, h.describeNext_eq]
  exact .error _

/-! ### Captures -/

theorem hasKeywords_eq (n : Nat) (ks : List String) :
    c.hasKeywords n ks = (takeKeywords ks (ls.drop n)).isSome := by
  induction ks generalizing n with
  | nil => rfl
  | cons k ks ih =>
    rw [Cursor.hasKeywords, h.peekNth_eq, ih, ← List.head?_drop, ← List.tail_drop]
    cases ls.drop n with
    | nil => rfl
    | cons l ls => cases hk : l.token.isKeyword k <;> simp [takeKeywords, hk]

theorem eatKeywords? (ks : List String) :
    Option.Rel t.Views (c.eatKeywords? ks) (takeKeywords ks ls) := by
  rw [Cursor.eatKeywords?, h.hasKeywords_eq, List.drop_zero]
  cases htake : takeKeywords ks ls with
  | none => exact .none
  | some rest =>
    obtain ⟨hle, rfl⟩ := takeKeywords_eq_some htake
    exact .some (h.advance hle)

theorem expectKeywords (ks : List String) :
    Follows t.Views (c.expectKeywords ks) (expectKeywords ks ls) := by
  rw [Cursor.expectKeywords, Script.expectKeywords]
  refine rel_elim (h.eatKeywords? ks) (fun c rest hrest => ?_) ?_
  · exact .ok hrest
  · exact h.fail _

theorem eat? (token : Token) : Option.Rel t.Views (c.eat? token) (takeToken token ls) := by
  rw [Cursor.eat?, h.peek_eq]
  cases ls with
  | nil => exact .none
  | cons l ls =>
    have hnext : t.Views (c.advance 1) ls := h.advance (Nat.succ_le_succ (Nat.zero_le _))
    rw [takeToken]
    by_cases hl : l.token = token
    · simpa [hl] using Option.Rel.some hnext
    · simp [hl]

theorem expect (token : Token) (what : String) :
    Follows t.Views (c.expect token what) (expectToken token what ls) := by
  rw [Cursor.expect, expectToken]
  refine rel_elim (h.eat? token) (fun c rest hrest => ?_) ?_
  · exact .ok hrest
  · exact h.fail what

theorem ident (what : String) : Follows t.Captures (c.ident what) (name what ls) := by
  rw [Cursor.ident, h.peek_eq]
  cases ls with
  | nil => exact h.fail what
  | cons l ls =>
    have hnext : t.Views (c.advance 1) ls := h.advance (Nat.succ_le_succ (Nat.zero_le _))
    rw [name]
    dsimp only [List.head?_cons, Option.map_some, Option.bind_some]
    cases l.token.name? with
    | none => exact h.fail what
    | some n => exact .ok ⟨rfl, hnext⟩

theorem string (what : String) : Follows t.Captures (c.string what) (stringLiteral what ls) := by
  rw [Cursor.string, h.peek_eq]
  cases ls with
  | nil => exact h.fail what
  | cons l ls =>
    have hnext : t.Views (c.advance 1) ls := h.advance (Nat.succ_le_succ (Nat.zero_le _))
    rw [stringLiteral]
    dsimp only [List.head?_cons, Option.map_some]
    cases l.token with
    | string s => exact .ok ⟨rfl, hnext⟩
    | _ => exact h.fail what

theorem referentialAction : Follows t.Captures c.referentialAction (action ls) := by
  have hfound := rel_findSome? (r := t.Captures) (fun a : Action =>
    rel_map (h.eatKeywords? a.keywords) fun c rest hrest => (⟨rfl, hrest⟩ : t.Captures (a, c) (a, rest)))
    Action.all
  rw [Cursor.referentialAction, action]
  refine rel_elim hfound (fun x y hxy => ?_) ?_
  · exact .ok hxy
  · exact h.fail _

theorem isDone_eq : c.isDone = isDone ls := by
  rw [Cursor.isDone, h.peek_eq, h.length_tokens]
  match ls with
  | [] => rfl
  | [l] => simp [Script.isDone]
  | l :: m :: ls => simp [Script.isDone]

theorem finish (what : String) : Follows Eq (c.finish what) (finish what ls) := by
  rw [Cursor.finish, Script.finish, h.isDone_eq]
  split
  · exact .ok rfl
  · exact h.fail _

end Views

end LexedText

/-- A loop over a cursor follows `g` if its passes come as far as `g`, wherever they stand. -/
theorem LexedText.Views.loop {t : LexedText} {α ρ β : Type} {s : ρ → β → Prop}
    {pass : α × Cursor → Attempt String (Turn (α × Cursor) ρ)}
    {g : α × List Lexeme → Except String β}
    (hpass : ∀ a c ls, t.Views c ls → Advances (fun state => state.2.left) t.Captures s g (a, c)
      (a, ls) (pass (a, c))) {c : Cursor} {ls : List Lexeme} (h : t.Views c ls) (a : α) :
    Follows s (Attempt.repeatedly (fun state => state.2.left) pass (a, c)) (g (a, ls)) := by
  refine .repeatedly (t := (a, ls)) ?_ (⟨rfl, h⟩ : t.Captures (a, c) (a, ls))
  rintro ⟨a, c⟩ ⟨_, ls⟩ ⟨rfl, h⟩
  exact hpass a c ls h

/-! ## Names -/

theorem moreNames_eq (separator : Token) (what : String) (ls : List Lexeme) :
    moreNames separator what ls = match takeToken separator ls with
      | none => .ok ([], ls)
      | some rest => do
        let (n, rest) ← name what rest
        let (ns, rest) ← moreNames separator what rest
        return (n :: ns, rest) := by
  match ls with
  | [] => rfl
  | [l] =>
    rw [moreNames, takeToken]
    cases l.token == separator <;> rfl
  | l :: m :: ls =>
    rw [moreNames, takeToken]
    cases l.token == separator with
    | false => rfl
    | true =>
      rw [if_pos rfl, if_pos rfl]
      dsimp only [name]
      cases m.token.name? <;> rfl

/-- The names so far and those that follow. -/
def namesFrom (separator : Token) (what : String) (p : List String × List Lexeme) :
    Except String (List String × List Lexeme) :=
  (moreNames separator what p.2).map fun q => (p.1 ++ q.1, q.2)

theorem namesFrom_eq (separator : Token) (what : String) (ns : List String) (ls : List Lexeme) :
    namesFrom separator what (ns, ls) = match takeToken separator ls with
      | none => .ok (ns, ls)
      | some rest => name what rest >>= fun p => namesFrom separator what (ns ++ [p.1], p.2) := by
  rw [namesFrom, moreNames_eq]
  cases takeToken separator ls with
  | none => exact congrArg (fun ns => Except.ok (ns, ls)) (List.append_nil ns)
  | some rest =>
    dsimp only
    rcases name what rest with e | ⟨n, behind⟩
    · rfl
    · change Except.map _ (moreNames separator what behind >>= _) =
        namesFrom separator what (ns ++ [n], behind)
      rw [namesFrom]
      cases moreNames separator what behind with
      | error e => rfl
      | ok q => exact congrArg (fun ns => Except.ok (ns, q.2)) (List.append_cons ns n q.1)

namespace LexedText.Views

variable {t : LexedText} {c : Cursor} {ls : List Lexeme} (h : t.Views c ls)
include h

theorem namesPass (separator : Token) (what : String) (ns : List String) :
    Advances (fun state => state.2.left) t.Captures t.Captures (namesFrom separator what) (ns, c)
      (ns, ls) (Cursor.namesPass separator what (ns, c)) := by
  rw [Cursor.namesPass]
  have hfrom := namesFrom_eq separator what ns ls
  refine rel_cases (h.eat? separator) (fun hls => ?_) fun c' rest hls hrest => ?_
  · exact .done (b := (ns, ls)) ⟨rfl, h⟩ (by rw [hfrom, hls])
  · rw [hls] at hfrom
    refine .bind (hrest.ident what) hfrom fun x y hxy hname hg => .again ⟨?_, hxy.views⟩ ?_ hg
    · rw [hxy.fst_eq]
    · obtain ⟨l, rfl, -⟩ := takeToken_eq_some_iff.1 hls
      obtain ⟨m, rfl, -⟩ := name_eq_ok_iff.1 hname
      dsimp only
      rw [hxy.views.left_eq, h.left_eq, List.length_cons, List.length_cons]
      omega

theorem names (separator : Token) (what : String) :
    Follows t.Captures (c.names separator what)
      ((Script.names separator what ls).map fun p => (p.1.1 :: p.1.2, p.2)) := by
  have hnames : (Script.names separator what ls).map (fun p => (p.1.1 :: p.1.2, p.2)) =
      name what ls >>= fun p => namesFrom separator what ([p.1], p.2) := by
    rw [Script.names]
    rcases name what ls with e | ⟨n, behind⟩
    · rfl
    · change Except.map _ (moreNames separator what behind >>= _) =
        namesFrom separator what ([n], behind)
      rw [namesFrom]
      cases moreNames separator what behind <;> rfl
  rw [hnames]
  refine (h.ident what).bind fun x y hxy => ?_
  rw [← hxy.fst_eq]
  exact loop (fun ns _ _ h => h.namesPass separator what ns) hxy.views [x.1]

theorem identList (what : String) : Follows t.Captures (c.identList what) (nameList what ls) := by
  have hlist : nameList what ls = expectToken .openParen s!"`(` before {what}" ls >>= fun rest =>
      (Script.names .comma what rest).map (fun p => (p.1.1 :: p.1.2, p.2)) >>= fun p =>
        expectToken .closeParen s!"`)` after {what}" p.2 >>= fun rest => .ok (p.1, rest) := by
    simp only [map_bind]
    rfl
  rw [Cursor.identList, hlist]
  refine (h.expect .openParen _).bind fun c rest hrest => ?_
  refine (hrest.names .comma what).bind fun x y hxy => ?_
  refine (hxy.views.expect .closeParen _).bind fun c rest hrest => ?_
  exact .ok ⟨hxy.fst_eq, hrest⟩

theorem qualified (what : String) : Follows t.Captures (c.qualified what) (qualifiedName what ls) := by
  have hname : qualifiedName what ls =
      (Script.names .dot what ls).map (fun p => (p.1.1 :: p.1.2, p.2)) >>= fun p =>
        match keyOfParts? p.1 with
        | some key => .ok (key, p.2)
        | none => .error what := by
    simp only [map_bind, keyOfParts?_cons]
    rfl
  rw [Cursor.qualified, hname]
  refine (h.names .dot what).bind fun x y hxy => ?_
  rw [← hxy.fst_eq]
  dsimp only
  cases keyOfParts? x.1 with
  | some key => exact .ok ⟨rfl, hxy.views⟩
  | none => exact .error what

end LexedText.Views

end SchemaDdl.Script
