import SchemaDdl.Text.Alphabetic
import SchemaDdl.Text.Numeric
import SchemaDdl.Text.Blank

/-!
# Tokens

A token of one statement or list item. Keywords are not reserved: a keyword is a word in that place,
in any ASCII case, and a quoted identifier is never one.
-/

namespace SchemaDdl.Script

inductive Token where
  | word (text : String)
  | quoted (name : String)
  | string (text : String)
  | number (text : String)
  | openParen
  | closeParen
  | comma
  | dot
  | semicolon
  | symbol (c : Char)
  deriving DecidableEq, Repr

/-- Equality of texts up to the case of ASCII letters. -/
def sameKeyword (a b : String) : Bool :=
  a.toList.map Char.toLower == b.toList.map Char.toLower

namespace Token

def isKeyword (keyword : String) : Token → Bool
  | .word w => sameKeyword w keyword
  | _ => false

def isAnyKeyword (keywords : List String) (t : Token) : Bool :=
  keywords.any fun k => t.isKeyword k

/-- The name that the token spells, bare or quoted. -/
def name? : Token → Option String
  | .word w => some w
  | .quoted n => some n
  | _ => none

/-- Parenthesis depth behind the token. A stray closing parenthesis leaves depth 0. -/
def depthAfter (depth : Nat) : Token → Nat
  | .openParen => depth + 1
  | .closeParen => depth - 1
  | _ => depth

end Token

def startsWord (c : Char) : Bool :=
  Text.isAlphabetic c || c == '_'

def continuesWord (c : Char) : Bool :=
  Text.isAlphabetic c || Text.isNumeric c || c == '_' || c == '$'

def continuesNumber (c : Char) : Bool :=
  c.isDigit || c == '.'

inductive LexError where
  | unterminatedString
  | unterminatedIdentifier
  | unterminatedComment
  deriving DecidableEq, Repr

def LexError.message : LexError → String
  | .unterminatedString => "unterminated string literal"
  | .unterminatedIdentifier => "unterminated quoted identifier"
  | .unterminatedComment => "unterminated block comment"

end SchemaDdl.Script
