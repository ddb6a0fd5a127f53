import SchemaDdl.Json.Basic

/-!
# JSON tokens

White space separates tokens. A string token has no value if it holds half a surrogate pair, but its
escapes and characters must be correct all the same.
-/

namespace SchemaDdl.Json

inductive Token where
  | openArray
  | closeArray
  | openObject
  | closeObject
  | comma
  | colon
  | string (value : Option String)
  | scalar (value : Json)

def isSpace (c : Char) : Bool :=
  c == ' ' || c == '\t' || c == '\n' || c == '\r'

def hexValue? (c : Char) : Option Nat :=
  if c.isDigit then some (c.toNat - '0'.toNat)
  else if 'a' ≤ c && c ≤ 'f' then some (c.toNat - 'a'.toNat + 10)
  else if 'A' ≤ c && c ≤ 'F' then some (c.toNat - 'A'.toNat + 10)
  else none

/-- The value of a four-digit escape. -/
def hex4? (a b c d : Char) : Option Nat := do
  return (((← hexValue? a) * 16 + (← hexValue? b)) * 16 + (← hexValue? c)) * 16 + (← hexValue? d)

def simpleEscape? (c : Char) : Option Char :=
  match c with
  | '"' => some '"'
  | '\\' => some '\\'
  | '/' => some '/'
  | 'b' => some '\x08'
  | 'f' => some '\x0c'
  | 'n' => some '\n'
  | 'r' => some '\r'
  | 't' => some '\t'
  | _ => none

/-- A unit of a string body: a character, or a sixteen-bit code from an escape. -/
inductive StringUnit where
  | char (c : Char)
  | code (n : Nat)

/-- The units of a string up to the closing quote, and what follows it. -/
def stringUnits : List Char → Option (List StringUnit × List Char)
  | [] => none
  | '"' :: cs => some ([], cs)
  | '\\' :: 'u' :: a :: b :: c :: d :: cs => do
    let n ← hex4? a b c d
    let (units, rest) ← stringUnits cs
    return (.code n :: units, rest)
  | '\\' :: e :: cs => do
    let c ← simpleEscape? e
    let (units, rest) ← stringUnits cs
    return (.char c :: units, rest)
  | c :: cs =>
    if c == '\\' || c.toNat < 0x20 then none
    else do
      let (units, rest) ← stringUnits cs
      return (.char c :: units, rest)

def isLeading (n : Nat) : Bool :=
  0xD800 ≤ n && n < 0xDC00

def isTrailing (n : Nat) : Bool :=
  0xDC00 ≤ n && n < 0xE000

/-- Joins surrogate pairs. Half a pair has no character. -/
def joinUnits : List StringUnit → Option (List Char)
  | [] => some []
  | .char c :: us => (joinUnits us).map (c :: ·)
  | .code n :: us =>
    if isLeading n then
      match us with
      | .code m :: us =>
        if isTrailing m then
          (joinUnits us).map (Char.ofNat (0x10000 + (n - 0xD800) * 0x400 + (m - 0xDC00)) :: ·)
        else none
      | _ => none
    else if isTrailing n then none
    else (joinUnits us).map (Char.ofNat n :: ·)

/-- The text behind the word `word`, if `cs` starts with it. -/
def afterWord? (word : String) (cs : List Char) : Option (List Char) :=
  if word.toList.isPrefixOf cs then some (cs.drop word.length) else none

def scalarOfNumber (t : Decimal.NumberText) : Json :=
  match Decimal.Number.ofText? t with
  | some n => .number n
  | none => .unreadable

/-- The token that starts with `c`, which is not white space. -/
def token? (c : Char) (cs : List Char) : Option (Token × List Char) :=
  match c with
  | '[' => some (.openArray, cs)
  | ']' => some (.closeArray, cs)
  | '{' => some (.openObject, cs)
  | '}' => some (.closeObject, cs)
  | ',' => some (.comma, cs)
  | ':' => some (.colon, cs)
  | '"' => (stringUnits cs).map fun (units, rest) =>
    (.string ((joinUnits units).map String.ofList), rest)
  | 'n' => (afterWord? "ull" cs).map fun rest => (.scalar .null, rest)
  | 't' => (afterWord? "rue" cs).map fun rest => (.scalar (.bool true), rest)
  | 'f' => (afterWord? "alse" cs).map fun rest => (.scalar (.bool false), rest)
  | c => (Decimal.numberText? (c :: cs)).map fun (t, rest) => (.scalar (scalarOfNumber t), rest)

/-- The tokens of a text. Every one takes a character, so a text of `n` characters has at most
`n`. -/
def tokensWithin : Nat → List Char → Option (List Token)
  | 0, cs => if cs.isEmpty then some [] else none
  | n + 1, cs =>
    match cs.dropWhile isSpace with
    | [] => some []
    | c :: rest => do
      let (t, rest) ← token? c rest
      let ts ← tokensWithin n rest
      return t :: ts

def tokens? (cs : List Char) : Option (List Token) :=
  tokensWithin (cs.length + 1) cs

end SchemaDdl.Json
