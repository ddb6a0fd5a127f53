import SchemaDdl.Script.Draft
import SchemaDdl.Script.Lexeme

/-!
# Captures

A capture reads a part of a statement from the front of its lexemes and hands back the rest. It
fails with a message that names what was expected and what was found instead.
-/

namespace SchemaDdl.Script

def Lexeme.quotedText (l : Lexeme) : String :=
  "`" ++ String.ofList l.text ++ "`"

/-- The next lexeme as it is written. -/
def describeNext : List Lexeme → String
  | [] => "end of statement"
  | l :: _ => l.quotedText

def expected {α : Type} (what : String) (ls : List Lexeme) : Except String α :=
  .error s!"expected {what}, found {describeNext ls}"

/-- Puts the kind of statement in front of a failure. -/
def inContext {α : Type} (context : String) (e : Except String α) : Except String α :=
  e.mapError fun message => s!"{context}: {message}"

/-- Takes the whole keyword sequence or nothing. -/
def takeKeywords : List String → List Lexeme → Option (List Lexeme)
  | [], ls => some ls
  | _ :: _, [] => none
  | k :: ks, l :: ls => if l.token.isKeyword k then takeKeywords ks ls else none

def skipKeywords (ks : List String) (ls : List Lexeme) : List Lexeme :=
  (takeKeywords ks ls).getD ls

def expectKeywords (ks : List String) (ls : List Lexeme) : Except String (List Lexeme) :=
  match takeKeywords ks ls with
  | some rest => .ok rest
  | none => expected (" ".intercalate ks) ls

def takeToken (t : Token) : List Lexeme → Option (List Lexeme)
  | [] => none
  | l :: ls => if l.token == t then some ls else none

def expectToken (t : Token) (what : String) (ls : List Lexeme) : Except String (List Lexeme) :=
  match takeToken t ls with
  | some rest => .ok rest
  | none => expected what ls

def name (what : String) : List Lexeme → Except String (String × List Lexeme)
  | [] => expected what []
  | l :: ls =>
    match l.token.name? with
    | some n => .ok (n, ls)
    | none => expected what (l :: ls)

/-- Further names, each behind a separator. -/
def moreNames (separator : Token) (what : String) :
    List Lexeme → Except String (List String × List Lexeme)
  | [] => .ok ([], [])
  | [l] => if l.token == separator then expected what [] else .ok ([], [l])
  | l :: m :: ls =>
    if l.token == separator then
      match m.token.name? with
      | some n => do
        let (ns, rest) ← moreNames separator what ls
        return (n :: ns, rest)
      | none => expected what (m :: ls)
    else .ok ([], l :: m :: ls)

/-- One name or more, with separators between them. -/
def names (separator : Token) (what : String) (ls : List Lexeme) :
    Except String ((String × List String) × List Lexeme) := do
  let (first, rest) ← name what ls
  let (more, rest) ← moreNames separator what rest
  return ((first, more), rest)

def qualifiedName (what : String) (ls : List Lexeme) :
    Except String (QualifiedName × List Lexeme) := do
  let ((first, more), rest) ← names .dot what ls
  return (.ofParts first more, rest)

def stringLiteral (what : String) : List Lexeme → Except String (String × List Lexeme)
  | [] => expected what []
  | l :: ls =>
    match l.token with
    | .string s => .ok (s, ls)
    | _ => expected what (l :: ls)

/-- Names between parentheses, with commas between them. -/
def nameList (what : String) (ls : List Lexeme) : Except String (List String × List Lexeme) := do
  let rest ← expectToken .openParen s!"`(` before {what}" ls
  let ((first, more), rest) ← names .comma what rest
  let rest ← expectToken .closeParen s!"`)` after {what}" rest
  return (first :: more, rest)

def action (ls : List Lexeme) : Except String (Action × List Lexeme) :=
  let found := Action.all.findSome? fun a => (takeKeywords a.keywords ls).map fun rest => (a, rest)
  match found with
  | some capture => .ok capture
  | none => expected "NO ACTION, RESTRICT, CASCADE, SET NULL or SET DEFAULT" ls

/-- The inside of a parenthesis whose opening has just been taken. -/
structure Enclosed where
  inner : List Lexeme
  close : Lexeme
  rest : List Lexeme

/-- Looks for the closing parenthesis that matches; `depth` more are open inside. -/
def enclosed (depth : Nat) : List Lexeme → Option Enclosed
  | [] => none
  | l :: ls =>
    if l.token == .closeParen && depth == 0 then some ⟨[], l, ls⟩
    else (enclosed (l.token.depthAfter depth) ls).map fun e => { e with inner := l :: e.inner }

/-- The text between the two parentheses. -/
def Enclosed.body (e : Enclosed) : List Char :=
  (e.inner.flatMap fun l => l.gap ++ l.text) ++ e.close.gap

/-- Whether nothing but an optional semicolon is left. -/
def isDone : List Lexeme → Bool
  | [] => true
  | [l] => l.token == .semicolon
  | _ => false

def finish (what : String) (ls : List Lexeme) : Except String Unit :=
  if isDone ls then .ok () else expected ("end of " ++ what) ls

/-- The first rule whose keywords stand at the front, with what follows them. -/
def dispatch {κ : Type} (rules : List (List String × κ)) (ls : List Lexeme) :
    Option (κ × List Lexeme) :=
  rules.findSome? fun rule => (takeKeywords rule.1 ls).map fun rest => (rule.2, rest)

theorem length_takeKeywords {ks : List String} {ls rest : List Lexeme}
    (h : takeKeywords ks ls = some rest) : rest.length + ks.length = ls.length := by
  fun_induction takeKeywords ks ls with
  | case1 => simp_all
  | case2 => simp at h
  | case3 k ks l ls hk ih =>
    have := ih h
    simp only [List.length_cons]
    omega
  | case4 => simp at h

theorem length_takeKeywords_lt {k : String} {ks : List String} {ls rest : List Lexeme}
    (h : takeKeywords (k :: ks) ls = some rest) : rest.length < ls.length := by
  have := length_takeKeywords h
  simp only [List.length_cons] at this
  omega

end SchemaDdl.Script
