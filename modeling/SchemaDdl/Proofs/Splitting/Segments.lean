import SchemaDdl.Proofs.Lexing.Trim
import SchemaDdl.Proofs.Splitting.Pieces

/-!
# Segments

A splitter cuts a chain of lexemes at the separator tokens that stand at parenthesis depth 0. What
it cuts out is a segment: the lexemes between two separators and the gap in front of the second.
-/

namespace SchemaDdl.Script

structure Segment where
  lexemes : List Lexeme
  rest : List Char
  deriving DecidableEq

namespace Segment

def text (s : Segment) : List Char :=
  written s.lexemes ++ s.rest

def tokens (s : Segment) : List Token :=
  s.lexemes.map Lexeme.token

def cons (l : Lexeme) (s : Segment) : Segment :=
  { s with lexemes := l :: s.lexemes }

@[simp] theorem text_cons (l : Lexeme) (s : Segment) :
    (s.cons l).text = l.gap ++ l.text ++ s.text := by
  simp [text, cons]

/-- The segment is read as its lexemes. -/
def Reads (s : Segment) : Prop :=
  Chain s.lexemes s.rest ∧ FinalGap s.rest

theorem Reads.tokens_eq {s : Segment} (h : s.Reads) : Script.tokens s.text = .ok s.tokens :=
  tokens_of_chain h.1 h.2

/-- The segment ends before a separator and is read as its lexemes. -/
def Closed (s : Segment) : Prop :=
  Chain s.lexemes s.rest ∧ ClosedGap s.rest

theorem Closed.reads {s : Segment} (h : s.Closed) : s.Reads :=
  ⟨h.1, .closed h.2⟩

end Segment

/-- The segments of lexemes in front of `rest`, cut at the separators at depth 0. -/
def segments (separator : Token) : Nat → List Lexeme → List Char → List Segment
  | _, [], rest => [⟨[], rest⟩]
  | depth, l :: ls, rest =>
    if depth = 0 ∧ l.token = separator then ⟨[], l.gap⟩ :: segments separator 0 ls rest
    else (segments separator (l.token.depthAfter depth) ls rest).modifyHead (Segment.cons l)

theorem segments_ne_nil (separator : Token) (depth : Nat) (ls : List Lexeme) (rest : List Char) :
    segments separator depth ls rest ≠ [] := by
  induction ls generalizing depth with
  | nil => simp [segments]
  | cons l ls ih =>
    rw [segments]
    split
    · simp
    · cases h : segments separator (l.token.depthAfter depth) ls rest with
      | nil => exact absurd h (ih _)
      | cons => simp

theorem Token.control?_eq_iff {t separator : Token} {c : Char} (h : separator.control? = some c) :
    t.control? = some c ↔ t = separator := by
  constructor
  · intro ht
    rw [← h] at ht
    cases t <;> cases separator <;> cases ht <;> first | rfl | cases h
  · rintro rfl
    exact h

theorem Token.mem_controls {t : Token} {c : Char} (h : t.control? = some c) : c ∈ controls := by
  cases t <;> cases h <;> decide

/-- The cut of a text follows its lexemes. -/
theorem Chain.cut_eq {ls : List Lexeme} {rest : List Char} (h : Chain ls rest)
    (hrest : Quiet (pieces .plain rest)) (separator : Token) {c : Char}
    (hsep : separator.control? = some c) (depth : Nat) :
    cut c depth (pieces .plain (written ls ++ rest)) =
      (segments separator depth ls rest).map Segment.text := by
  induction ls generalizing depth with
  | nil => exact cut_of_quiet (Token.mem_controls hsep) hrest depth
  | cons l ls ih =>
    obtain ⟨hl, hend, hls⟩ := h
    rw [written_cons, List.append_assoc, List.append_assoc,
      cut_lexeme (Token.mem_controls hsep) hl hend, segments, ih hls, ih hls]
    simp only [Token.control?_eq_iff hsep]
    split
    · simp [Segment.text]
    · cases segments separator (l.token.depthAfter depth) ls rest <;> simp

theorem Token.EndsAt.of_append {t : Token} {a b : List Char} (h : t.EndsAt (a ++ b)) :
    t.EndsAt a := by
  intro d hd
  apply h d
  cases a with
  | nil => cases hd
  | cons => exact hd

theorem Chain.of_append {ls : List Lexeme} {a b : List Char} (h : Chain ls (a ++ b)) :
    Chain ls a := by
  induction ls with
  | nil => trivial
  | cons l ls ih =>
    obtain ⟨hl, hend, hls⟩ := h
    rw [← List.append_assoc] at hend
    exact ⟨hl, hend.of_append, ih hls⟩

/-! ## Separators outside parentheses -/

/-- Parenthesis depth behind the tokens. -/
def depthThrough (depth : Nat) (ts : List Token) : Nat :=
  ts.foldl Token.depthAfter depth

/-- Whether the token stands among the tokens at depth 0. -/
def standsOutside (separator : Token) : Nat → List Token → Bool
  | _, [] => false
  | depth, t :: ts =>
    (depth == 0 && t == separator) || standsOutside separator (t.depthAfter depth) ts

theorem standsOutside_append (separator : Token) (depth : Nat) (xs ys : List Token) :
    standsOutside separator depth (xs ++ ys) =
      (standsOutside separator depth xs ||
        standsOutside separator (depthThrough depth xs) ys) := by
  induction xs generalizing depth with
  | nil => rfl
  | cons x xs ih =>
    rw [List.cons_append, standsOutside, standsOutside, ih, Bool.or_assoc]
    rfl

variable {separator : Token} {depth : Nat} {ls xs ys : List Lexeme} {l : Lexeme}

theorem segments_of_standsOutside_eq_false {rest : List Char}
    (h : standsOutside separator depth (ls.map Lexeme.token) = false) :
    segments separator depth ls rest = [⟨ls, rest⟩] := by
  induction ls generalizing depth with
  | nil => rfl
  | cons l ls ih =>
    simp only [List.map_cons, standsOutside, Bool.or_eq_false_iff, Bool.and_eq_false_imp,
      beq_iff_eq, beq_eq_false_iff_ne] at h
    obtain ⟨hl, hls⟩ := h
    rw [segments, if_neg fun hsep => hl hsep.1 hsep.2, ih hls]
    rfl

theorem segments_append {rest : List Char}
    (hxs : standsOutside separator depth (xs.map Lexeme.token) = false)
    (hdepth : depthThrough depth (xs.map Lexeme.token) = 0) (hl : l.token = separator) :
    segments separator depth (xs ++ l :: ys) rest =
      ⟨xs, l.gap⟩ :: segments separator 0 ys rest := by
  induction xs generalizing depth with
  | nil => rw [List.nil_append, segments, if_pos ⟨hdepth, hl⟩]
  | cons x xs ih =>
    simp only [List.map_cons, standsOutside, Bool.or_eq_false_iff, Bool.and_eq_false_imp,
      beq_iff_eq, beq_eq_false_iff_ne] at hxs
    obtain ⟨hx, hxs⟩ := hxs
    rw [List.cons_append, segments, if_neg fun hsep => hx hsep.1 hsep.2, ih hxs hdepth]
    rfl

/-- The first separator outside parentheses. -/
theorem exists_of_standsOutside
    (h : standsOutside separator depth (ls.map Lexeme.token) = true) :
    ∃ xs l ys, ls = xs ++ l :: ys ∧ l.token = separator ∧
      standsOutside separator depth (xs.map Lexeme.token) = false ∧
      depthThrough depth (xs.map Lexeme.token) = 0 := by
  induction ls generalizing depth with
  | nil => cases h
  | cons l ls ih =>
    by_cases hl : depth = 0 ∧ l.token = separator
    · exact ⟨[], l, ls, rfl, hl.2, rfl, hl.1⟩
    · have hl' : (depth == 0 && l.token == separator) = false := by simpa using hl
      rw [List.map_cons, standsOutside, hl', Bool.false_or] at h
      obtain ⟨xs, k, ys, rfl, hk, hxs, hdepth⟩ := ih h
      refine ⟨l :: xs, k, ys, rfl, hk, ?_, hdepth⟩
      rw [List.map_cons, standsOutside, hl', hxs]
      rfl

/-- Induction along the separators outside parentheses. -/
theorem segments_induction (separator : Token) {P : Nat → List Lexeme → Prop}
    (single : ∀ depth ls, standsOutside separator depth (ls.map Lexeme.token) = false → P depth ls)
    (more : ∀ depth xs l ys, standsOutside separator depth (xs.map Lexeme.token) = false →
      depthThrough depth (xs.map Lexeme.token) = 0 → l.token = separator → P 0 ys →
        P depth (xs ++ l :: ys)) (depth : Nat) (ls : List Lexeme) : P depth ls := by
  induction hn : ls.length using Nat.strongRecOn generalizing depth ls with
  | _ n ih =>
    cases h : standsOutside separator depth (ls.map Lexeme.token) with
    | false => exact single depth ls h
    | true =>
      obtain ⟨xs, l, ys, rfl, hl, hxs, hdepth⟩ := exists_of_standsOutside h
      refine more depth xs l ys hxs hdepth hl (ih ys.length ?_ 0 ys rfl)
      simp only [List.length_append, List.length_cons] at hn
      omega

/-- All segments of a chain are closed, except for what the chain stands in front of. -/
theorem Chain.exists_segments {rest : List Char} (separator : Token) (depth : Nat)
    (h : Chain ls rest) :
    ∃ front last, segments separator depth ls rest = front ++ [⟨last, rest⟩] ∧ Chain last rest ∧
      ∀ s ∈ front, s.Closed := by
  induction depth, ls using segments_induction separator with
  | single depth ls hls =>
    rw [segments_of_standsOutside_eq_false hls]
    exact ⟨[], ls, rfl, h, by simp⟩
  | more depth xs l ys hxs hdepth hl ih =>
    rw [segments_append hxs hdepth hl]
    obtain ⟨hchain, hl', -, hys⟩ := Chain.append_iff.1 h
    obtain ⟨front, last, heq, hlast, hfront⟩ := ih hys
    refine ⟨⟨xs, l.gap⟩ :: front, last, by rw [heq]; rfl, hlast, ?_⟩
    intro s hs
    rcases List.mem_cons.1 hs with rfl | hs
    · rw [written_cons, List.append_assoc] at hchain
      exact ⟨hchain.of_append, hl'.gap⟩
    · exact hfront s hs

/-- No separator stands outside parentheses in a segment. -/
theorem standsOutside_of_mem_segments {rest : List Char} {s : Segment}
    (hs : s ∈ segments separator 0 ls rest) : standsOutside separator 0 s.tokens = false := by
  generalize hdepth : 0 = depth at hs
  induction depth, ls using segments_induction separator with
  | single depth ls hls =>
    rw [segments_of_standsOutside_eq_false hls] at hs
    rw [List.mem_singleton.1 hs]
    exact hls
  | more depth xs l ys hxs hthrough hl ih =>
    rw [segments_append hxs hthrough hl] at hs
    rcases List.mem_cons.1 hs with rfl | hs
    · exact hxs
    · subst hdepth
      exact ih rfl hs

/-- The segments joined by the separator are the lexemes again. -/
theorem intercalate_segments (separator : Token) (depth : Nat) (ls : List Lexeme)
    (rest : List Char) :
    [separator].intercalate ((segments separator depth ls rest).map Segment.tokens) =
      ls.map Lexeme.token := by
  induction depth, ls using segments_induction separator with
  | single depth ls hls =>
    rw [segments_of_standsOutside_eq_false hls]
    simp [Segment.tokens]
  | more depth xs l ys hxs hthrough hl ih =>
    rw [segments_append hxs hthrough hl]
    cases h : segments separator 0 ys rest with
    | nil => exact absurd h (segments_ne_nil _ _ _ _)
    | cons s ss =>
      rw [h] at ih
      simp only [List.map_cons, List.map_append, ← ih, ← hl, Segment.tokens]
      simp [List.intercalate]

end SchemaDdl.Script
