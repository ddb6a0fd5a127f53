import SchemaDdl.Decimal.Layout
import SchemaDdl.Json.Basic

/-!
# Printing JSON

Compact text has no white space. Pretty text has one item or member on a line, indented by two
spaces, and a space behind each colon; an empty array or object stays on its line. In strings only
the quote, the backslash and the control characters below U+0020 are escaped.
-/

namespace SchemaDdl.Json

def hexDigit (n : Nat) : Char :=
  Nat.digitChar (n % 16)

def escapedChar (c : Char) : List Char :=
  if c == '"' then ['\\', '"']
  else if c == '\\' then ['\\', '\\']
  else if c == '\x08' then ['\\', 'b']
  else if c == '\t' then ['\\', 't']
  else if c == '\n' then ['\\', 'n']
  else if c == '\x0c' then ['\\', 'f']
  else if c == '\r' then ['\\', 'r']
  else if c.toNat < 0x20 then ['\\', 'u', '0', '0', hexDigit (c.toNat / 16), hexDigit c.toNat]
  else [c]

def quotedChars (s : String) : List Char :=
  '"' :: s.toList.flatMap escapedChar ++ ['"']

def numberChars : Decimal.Number → List Char
  | .int i => (toString i).toList
  | .float f => (Decimal.floatText? f).getD "null".toList

mutual

def compactChars : Json → List Char
  | .null => "null".toList
  | .bool b => (toString b).toList
  | .number n => numberChars n
  | .string s => quotedChars s
  | .array items => '[' :: compactItems true items ++ [']']
  | .object members => '{' :: compactMembers true members ++ ['}']
  | .unreadable => "null".toList

def compactItems (first : Bool) : List Json → List Char
  | [] => []
  | j :: js => (if first then [] else [',']) ++ compactChars j ++ compactItems false js

def compactMembers (first : Bool) : List (String × Json) → List Char
  | [] => []
  | (k, j) :: ms =>
    (if first then [] else [',']) ++ quotedChars k ++ ':' :: compactChars j ++
      compactMembers false ms

end

/-- A line break and the indentation of the next line. -/
def newLine (indent : Nat) : List Char :=
  '\n' :: List.replicate (2 * indent) ' '

mutual

def prettyChars (indent : Nat) : Json → List Char
  | .array [] => ['[', ']']
  | .array (j :: js) => '[' :: prettyItems (indent + 1) (j :: js) ++ newLine indent ++ [']']
  | .object [] => ['{', '}']
  | .object (m :: ms) => '{' :: prettyMembers (indent + 1) (m :: ms) ++ newLine indent ++ ['}']
  | .null => "null".toList
  | .bool b => (toString b).toList
  | .number n => numberChars n
  | .string s => quotedChars s
  | .unreadable => "null".toList

def prettyItems (indent : Nat) : List Json → List Char
  | [] => []
  | [j] => newLine indent ++ prettyChars indent j
  | j :: k :: js => newLine indent ++ prettyChars indent j ++ ',' :: prettyItems indent (k :: js)

def prettyMembers (indent : Nat) : List (String × Json) → List Char
  | [] => []
  | [(k, j)] => newLine indent ++ quotedChars k ++ [':', ' '] ++ prettyChars indent j
  | (k, j) :: m :: ms =>
    newLine indent ++ quotedChars k ++ [':', ' '] ++ prettyChars indent j ++
      ',' :: prettyMembers indent (m :: ms)

end

def compact (j : Json) : String :=
  String.ofList (compactChars j)

def pretty (j : Json) : String :=
  String.ofList (prettyChars 0 j)

end SchemaDdl.Json
