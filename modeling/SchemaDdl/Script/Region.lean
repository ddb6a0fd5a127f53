/-!
# Quotes and comments

A script is read one piece at a time. A piece is a single character, or two characters that belong
together: a doubled quote or a comment mark. Only a single character that lies outside quotes and
comments is live, that is, can open or close a parenthesis or end a stretch of text.
-/

namespace SchemaDdl.Script

inductive Region where
  | plain
  | single
  | double
  | lineComment
  | blockComment
  deriving DecidableEq, Repr

namespace Region

/-- Whether `c` and the character `d` after it form one piece. -/
def joins : Region → Char → Char → Bool
  | .plain, c, d =>
    (c == '\'' && d == '\'') || (c == '"' && d == '"') || (c == '-' && d == '-') ||
      (c == '/' && d == '*')
  | .single, c, d => c == '\'' && d == '\''
  | .double, c, d => c == '"' && d == '"'
  | .lineComment, _, _ => false
  | .blockComment, c, d => c == '*' && d == '/'

/-- The region behind a two-character piece that starts with `c`. -/
def afterPair : Region → Char → Region
  | .plain, c => if c == '-' then .lineComment else if c == '/' then .blockComment else .plain
  | .blockComment, _ => .plain
  | r, _ => r

/-- The region behind the single character `c`. -/
def afterOne : Region → Char → Region
  | .plain, c => if c == '\'' then .single else if c == '"' then .double else .plain
  | .single, c => if c == '\'' then .plain else .single
  | .double, c => if c == '"' then .plain else .double
  | .lineComment, c => if c == '\n' then .plain else .lineComment
  | .blockComment, _ => .blockComment

end Region

structure Piece where
  chars : List Char
  live : Bool
  deriving DecidableEq, Repr

namespace Piece

def single (r : Region) (c : Char) : Piece :=
  ⟨[c], r.afterOne c == .plain⟩

def pair (c d : Char) : Piece :=
  ⟨[c, d], false⟩

def isLive (p : Piece) (c : Char) : Bool :=
  p.live && p.chars == [c]

/-- Parenthesis depth behind the piece. A stray closing parenthesis leaves depth 0. -/
def depthAfter (p : Piece) (depth : Nat) : Nat :=
  if p.isLive '(' then depth + 1 else if p.isLive ')' then depth - 1 else depth

end Piece

def pieces : Region → List Char → List Piece
  | _, [] => []
  | r, [c] => [.single r c]
  | r, c :: d :: cs =>
    if r.joins c d then .pair c d :: pieces (r.afterPair c) cs
    else .single r c :: pieces (r.afterOne c) (d :: cs)

/-- Cuts at every live `sep` at parenthesis depth 0. The separators themselves are left out. -/
def cut (sep : Char) : Nat → List Piece → List (List Char)
  | _, [] => [[]]
  | depth, p :: ps =>
    if depth == 0 && p.isLive sep then [] :: cut sep 0 ps
    else (cut sep (p.depthAfter depth) ps).modifyHead (p.chars ++ ·)

theorem flatMap_chars_pieces (r : Region) (cs : List Char) :
    (pieces r cs).flatMap Piece.chars = cs := by
  fun_induction pieces r cs <;> simp_all [Piece.single, Piece.pair]

theorem cut_ne_nil (sep : Char) (depth : Nat) (ps : List Piece) : cut sep depth ps ≠ [] := by
  induction ps generalizing depth with
  | nil => simp [cut]
  | cons p ps ih =>
    rw [cut]
    split
    · simp
    · cases h : cut sep (p.depthAfter depth) ps with
      | nil => exact absurd h (ih _)
      | cons => simp

/-- Nothing is lost: the stretches joined by the separator are the text again. -/
theorem intercalate_cut (sep : Char) (depth : Nat) (ps : List Piece) :
    [sep].intercalate (cut sep depth ps) = ps.flatMap Piece.chars := by
  induction ps generalizing depth with
  | nil => simp [cut]
  | cons p ps ih =>
    rw [cut]
    split
    · rename_i h
      have hp : p.chars = [sep] := by
        simp only [Piece.isLive, Bool.and_eq_true, beq_iff_eq] at h
        exact h.2.2
      cases hc : cut sep 0 ps with
      | nil => exact absurd hc (cut_ne_nil _ _ _)
      | cons s ss => simp [← ih 0, hc, hp, List.intercalate]
    · cases hc : cut sep (p.depthAfter depth) ps with
      | nil => exact absurd hc (cut_ne_nil _ _ _)
      | cons s ss =>
        rw [List.flatMap_cons, ← ih (p.depthAfter depth), hc]
        cases ss <;> simp [List.intercalate]

end SchemaDdl.Script
