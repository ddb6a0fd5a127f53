import SchemaDdl.Proofs.Splitting.Segments
import SchemaDdl.Script.Capture

/-!
# Balanced tokens

Tokens are balanced if every parenthesis has its partner among them. Behind balanced tokens the
depth is what it was before, and inside parentheses they hide whatever stands among them.
-/

namespace SchemaDdl.Script

@[simp] theorem depthThrough_nil (depth : Nat) : depthThrough depth [] = depth := rfl

@[simp] theorem depthThrough_cons (depth : Nat) (t : Token) (ts : List Token) :
    depthThrough depth (t :: ts) = depthThrough (t.depthAfter depth) ts := rfl

theorem depthThrough_append (depth : Nat) (xs ys : List Token) :
    depthThrough depth (xs ++ ys) = depthThrough (depthThrough depth xs) ys :=
  List.foldl_append

/-- The depth never falls below 0 and ends there. -/
structure Balanced (ts : List Token) : Prop where
  closed : standsOutside .closeParen 0 ts = false
  depth : depthThrough 0 ts = 0

/-- Tokens that close nothing before them go through at any greater depth alike. -/
theorem standsOutside_shift {depth : Nat} {ts : List Token}
    (h : standsOutside .closeParen depth ts = false) (k : Nat) :
    depthThrough (depth + k) ts = depthThrough depth ts + k ∧
      (0 < k → ∀ separator, standsOutside separator (depth + k) ts = false) := by
  induction ts generalizing depth with
  | nil => exact ⟨rfl, fun _ _ => rfl⟩
  | cons t ts ih =>
    simp only [standsOutside, Bool.or_eq_false_iff, Bool.and_eq_false_imp, beq_iff_eq,
      beq_eq_false_iff_ne] at h
    obtain ⟨ht, hts⟩ := h
    have hafter : t.depthAfter (depth + k) = t.depthAfter depth + k := by
      cases t with
      | closeParen =>
        have : depth ≠ 0 := fun h0 => ht h0 rfl
        simp only [Token.depthAfter]
        omega
      | openParen =>
        simp only [Token.depthAfter]
        omega
      | _ => rfl
    obtain ⟨hdepth, hstands⟩ := ih hts
    refine ⟨by rw [depthThrough_cons, depthThrough_cons, hafter, hdepth], fun hk separator => ?_⟩
    have hpos : (depth + k == 0) = false := by
      rw [beq_eq_false_iff_ne]
      omega
    rw [standsOutside, hpos, hafter, hstands hk separator]
    rfl

namespace Balanced

variable {xs ys : List Token}

theorem nil : Balanced [] :=
  ⟨rfl, rfl⟩

theorem through (h : Balanced xs) (depth : Nat) : depthThrough depth xs = depth := by
  have := (standsOutside_shift h.closed depth).1
  rwa [Nat.zero_add, h.depth, Nat.zero_add] at this

/-- Inside parentheses nothing stands outside. -/
theorem hidden (h : Balanced xs) (separator : Token) (depth : Nat) :
    standsOutside separator (depth + 1) xs = false := by
  have := (standsOutside_shift h.closed (depth + 1)).2 (Nat.succ_pos depth) separator
  rwa [Nat.zero_add] at this

theorem append (hx : Balanced xs) (hy : Balanced ys) : Balanced (xs ++ ys) := by
  constructor
  · rw [standsOutside_append, hx.closed, hx.depth, hy.closed]
    rfl
  · rw [depthThrough_append, hx.depth, hy.depth]

theorem cons {t : Token} (ht : t.control? ≠ some '(' ∧ t.control? ≠ some ')') (h : Balanced xs) :
    Balanced (t :: xs) := by
  have hopen : t ≠ .openParen := by
    rintro rfl
    exact ht.1 rfl
  have hclose : t ≠ .closeParen := by
    rintro rfl
    exact ht.2 rfl
  have hafter : t.depthAfter 0 = 0 := by
    cases t <;> first | rfl | exact absurd rfl hopen
  constructor
  · rw [standsOutside, hafter, h.closed, beq_eq_false_iff_ne.2 hclose]
    rfl
  · rw [depthThrough_cons, hafter, h.depth]

/-- Balanced tokens between parentheses. -/
theorem parens (h : Balanced xs) : Balanced (.openParen :: (xs ++ [.closeParen])) := by
  have hafter : Token.openParen.depthAfter 0 = 1 := rfl
  constructor
  · rw [standsOutside, hafter, standsOutside_append, h.hidden, h.through]
    rfl
  · rw [depthThrough_cons, hafter, depthThrough_append, h.through]
    rfl

/-- What is left behind tokens that end at depth 0. -/
theorem of_append (h : Balanced (xs ++ ys)) (hx : depthThrough 0 xs = 0) :
    Balanced xs ∧ Balanced ys := by
  obtain ⟨hclosed, hdepth⟩ := h
  rw [standsOutside_append, hx, Bool.or_eq_false_iff] at hclosed
  rw [depthThrough_append, hx] at hdepth
  exact ⟨⟨hclosed.1, hx⟩, hclosed.2, hdepth⟩

end Balanced

/-! ## Enclosed lexemes -/

theorem enclosed_eq_some {depth : Nat} {ls : List Lexeme} {e : Enclosed}
    (h : enclosed depth ls = some e) :
    ls = e.inner ++ e.close :: e.rest ∧ e.close.token = .closeParen ∧
      standsOutside .closeParen depth (e.inner.map Lexeme.token) = false ∧
      depthThrough depth (e.inner.map Lexeme.token) = 0 := by
  induction ls generalizing depth e with
  | nil => cases h
  | cons l ls ih =>
    rw [enclosed] at h
    split at h
    · rename_i hl
      simp only [Bool.and_eq_true, beq_iff_eq] at hl
      cases h
      exact ⟨rfl, hl.1, rfl, hl.2⟩
    · rename_i hl
      obtain ⟨e', he', rfl⟩ := Option.map_eq_some_iff.1 h
      obtain ⟨rfl, hclose, hstands, hdepth⟩ := ih he'
      refine ⟨rfl, hclose, ?_, hdepth⟩
      have hl' : (depth == 0 && l.token == .closeParen) = false := by
        rw [Bool.and_comm]
        simpa using hl
      rw [List.map_cons, standsOutside, hl', hstands]
      rfl

theorem enclosed_balanced {ls : List Lexeme} {e : Enclosed} (h : enclosed 0 ls = some e) :
    Balanced (e.inner.map Lexeme.token) :=
  ⟨(enclosed_eq_some h).2.2.1, (enclosed_eq_some h).2.2.2⟩

theorem enclosed_append {depth : Nat} {inner rest : List Lexeme} {close : Lexeme}
    (hinner : standsOutside .closeParen depth (inner.map Lexeme.token) = false)
    (hdepth : depthThrough depth (inner.map Lexeme.token) = 0) (hclose : close.token = .closeParen) :
    enclosed depth (inner ++ close :: rest) = some ⟨inner, close, rest⟩ := by
  induction inner generalizing depth with
  | nil =>
    rw [List.map_nil, depthThrough_nil] at hdepth
    rw [List.nil_append, enclosed, hclose, hdepth]
    rfl
  | cons l ls ih =>
    simp only [List.map_cons, standsOutside, Bool.or_eq_false_iff, depthThrough_cons] at hinner hdepth
    have hl : (l.token == .closeParen && depth == 0) = false := by
      rw [Bool.and_comm]
      exact hinner.1
    rw [List.cons_append, enclosed, hl, ih hinner.2 hdepth]
    rfl

/-! ## Segments of balanced lexemes -/

/-- Balanced tokens with no separator outside their parentheses. -/
structure Level (separator : Token) (ts : List Token) : Prop where
  balanced : Balanced ts
  outside : standsOutside separator 0 ts = false

section Level

variable {separator : Token} {xs ys ts : List Token}

theorem level_nil : Level separator [] :=
  ⟨.nil, rfl⟩

theorem Level.append (hx : Level separator xs) (hy : Level separator ys) :
    Level separator (xs ++ ys) := by
  refine ⟨hx.balanced.append hy.balanced, ?_⟩
  rw [standsOutside_append, hx.outside, hx.balanced.depth, hy.outside]
  rfl

theorem Level.of_append (h : Level separator (xs ++ ys)) (hx : depthThrough 0 xs = 0) :
    Level separator xs ∧ Level separator ys := by
  obtain ⟨hbalanced, houtside⟩ := h
  obtain ⟨hbx, hby⟩ := hbalanced.of_append hx
  rw [standsOutside_append, hx, Bool.or_eq_false_iff] at houtside
  exact ⟨⟨hbx, houtside.1⟩, hby, houtside.2⟩

theorem Level.cons {t : Token} (ht : t.control? = none)
    (hseparator : separator.control?.isSome = true) (h : Level separator ts) :
    Level separator (t :: ts) := by
  have hafter : t.depthAfter 0 = 0 := by
    cases t <;> first | rfl | cases ht
  have hne : (t == separator) = false := by
    rw [beq_eq_false_iff_ne]
    rintro rfl
    simp [ht] at hseparator
  refine ⟨h.balanced.cons (by simp [ht]), ?_⟩
  rw [standsOutside, hafter, hne, h.outside]
  rfl

/-- Parentheses hide the separators between them. -/
theorem Balanced.level_parens (hseparator : separator ≠ .openParen ∧ separator ≠ .closeParen)
    (h : Balanced ts) : Level separator (.openParen :: (ts ++ [.closeParen])) := by
  have hafter : Token.openParen.depthAfter 0 = 1 := rfl
  refine ⟨h.parens, ?_⟩
  rw [standsOutside, hafter, standsOutside_append, h.hidden, h.through,
    beq_eq_false_iff_ne.2 hseparator.1.symm]
  rfl

end Level

/-- Cutting balanced lexemes at the commas leaves balanced segments. -/
theorem level_of_mem_segments {ls : List Lexeme} {rest : List Char} {s : Segment}
    (h : Balanced (ls.map Lexeme.token)) (hs : s ∈ segments .comma 0 ls rest) :
    Level .comma s.tokens := by
  refine ⟨?_, standsOutside_of_mem_segments hs⟩
  generalize hdepth : 0 = depth at hs
  induction depth, ls using segments_induction .comma with
  | single depth ls hls =>
    rw [segments_of_standsOutside_eq_false hls] at hs
    rw [List.mem_singleton.1 hs]
    exact h
  | more depth xs l ys hxs hthrough hl ih =>
    subst hdepth
    rw [segments_append hxs hthrough hl] at hs
    rw [List.map_append] at h
    obtain ⟨hbx, hbl⟩ := h.of_append hthrough
    rcases List.mem_cons.1 hs with rfl | hs
    · exact hbx
    · rw [List.map_cons, hl, ← List.singleton_append] at hbl
      exact ih (hbl.of_append rfl).2 rfl hs

end SchemaDdl.Script
