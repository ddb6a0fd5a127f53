import SchemaDdl.Proofs.Cursor.Captures
import SchemaDdl.Proofs.Reading.Depth

/-!
# Closing parentheses by index

A cursor that stands in front of a parenthesis looks for the one that closes it by counting, and what
is between the two is cut out of the text by their offsets.
-/

namespace SchemaDdl.Script

open Attempt

/-- The index of the token at which the depth is back at 0. The first token has the index `index`. A
parenthesis that has nothing to close ends the search. -/
def closing (depth index : Nat) : List Token → Option Nat
  | [] => none
  | t :: ts =>
    if t == .closeParen then do
      let depth ← sub? depth 1
      if depth == 0 then some index else closing depth (index + 1) ts
    else closing (t.depthAfter depth) (index + 1) ts

namespace Cursor

/-- The tokens in front of the cursor. -/
def rest (c : Cursor) : List Token :=
  (c.tokens.drop c.position).map Span.token

/-- The index of the parenthesis that closes the one in front of the cursor. -/
def matchingParen (c : Cursor) : Option Nat :=
  closing 0 c.position c.rest

/-- The text between two tokens. -/
def innerText? (c : Cursor) (first last : Nat) : Option (List Char) := do
  let a ← c.tokens[first]?
  let b ← c.tokens[last]?
  slice? c.source a.stop b.start

end Cursor

/-! ## Closing parentheses -/

/-- A parenthesis is open, or one is opened next. -/
def InParen (depth : Nat) (ts : List Token) : Prop :=
  depth ≠ 0 ∨ ts.head? = some .openParen

/-- Only a parenthesis that closes brings the depth back to 0. -/
theorem InParen.eq_closeParen {depth : Nat} {t : Token} {ts : List Token}
    (h : InParen depth (t :: ts)) (hafter : t.depthAfter depth = 0) : t = .closeParen := by
  cases t with
  | openParen => exact absurd hafter (Nat.succ_ne_zero depth)
  | closeParen => rfl
  | _ =>
    obtain hdepth | hopen := h
    · exact absurd hafter hdepth
    · cases hopen

theorem closing_cons {depth : Nat} {t : Token} {ts : List Token} (h : InParen depth (t :: ts))
    (index : Nat) : closing depth index (t :: ts) =
      if t.depthAfter depth = 0 then some index
      else closing (t.depthAfter depth) (index + 1) ts := by
  rw [closing]
  by_cases hclose : t = .closeParen
  · subst hclose
    obtain ⟨depth, rfl⟩ := Nat.exists_eq_succ_of_ne_zero (h.resolve_right (by simp))
    have hsub : sub? (depth + 1) 1 = some depth := if_pos (Nat.le_add_left 1 depth)
    rw [if_pos (beq_self_eq_true _), hsub]
    cases depth <;> rfl
  · rw [if_neg (by simpa using hclose), if_neg fun hafter => hclose (h.eq_closeParen hafter)]

/-- The parenthesis behind the first `n` tokens brings the depth back to 0, and nothing before it does. -/
structure Closes (depth : Nat) (ts : List Token) (n : Nat) : Prop where
  token : ts[n]? = some .closeParen
  depth_eq : depthThrough depth (ts.take (n + 1)) = 0
  depth_ne : ∀ m < n, depthThrough depth (ts.take (m + 1)) ≠ 0

theorem closes_zero_iff {depth : Nat} {t : Token} {ts : List Token} :
    Closes depth (t :: ts) 0 ↔ t = .closeParen ∧ t.depthAfter depth = 0 := by
  constructor
  · intro h
    exact ⟨Option.some.inj h.token, h.depth_eq⟩
  · rintro ⟨rfl, hdepth⟩
    exact ⟨rfl, hdepth, fun m hm => absurd hm (Nat.not_lt_zero m)⟩

theorem closes_succ_iff {depth n : Nat} {t : Token} {ts : List Token} :
    Closes depth (t :: ts) (n + 1) ↔
      t.depthAfter depth ≠ 0 ∧ Closes (t.depthAfter depth) ts n := by
  constructor
  · intro h
    exact ⟨h.depth_ne 0 (Nat.succ_pos n), h.token, h.depth_eq,
      fun m hm => h.depth_ne (m + 1) (Nat.succ_lt_succ hm)⟩
  · rintro ⟨hafter, h⟩
    refine ⟨h.token, h.depth_eq, fun m hm => ?_⟩
    cases m with
    | zero => exact hafter
    | succ m => exact h.depth_ne m (Nat.lt_of_succ_lt_succ hm)

theorem closing_eq_some_iff {depth index close : Nat} {ts : List Token} (h : InParen depth ts) :
    closing depth index ts = some close ↔ ∃ n, close = index + n ∧ Closes depth ts n := by
  induction ts generalizing depth index with
  | nil =>
    refine ⟨fun hnone => (by cases hnone), ?_⟩
    rintro ⟨n, -, hn⟩
    cases hn.token
  | cons t ts ih =>
    rw [closing_cons h]
    by_cases hafter : t.depthAfter depth = 0
    · rw [if_pos hafter, Option.some_inj]
      constructor
      · rintro rfl
        exact ⟨0, rfl, closes_zero_iff.2 ⟨h.eq_closeParen hafter, hafter⟩⟩
      · rintro ⟨_ | n, rfl, hn⟩
        · rfl
        · exact absurd hafter (closes_succ_iff.1 hn).1
    · -- behind the first token a parenthesis is still open
      rw [if_neg hafter, ih (.inl hafter)]
      constructor
      · rintro ⟨n, rfl, hn⟩
        exact ⟨n + 1, Nat.add_right_comm index 1 n, closes_succ_iff.2 ⟨hafter, hn⟩⟩
      · rintro ⟨_ | n, rfl, hn⟩
        · exact absurd (closes_zero_iff.1 hn).2 hafter
        · exact ⟨n, (Nat.add_right_comm index 1 n).symm, (closes_succ_iff.1 hn).2⟩

/-- The search is in vain if the depth never comes back to 0. -/
theorem closing_eq_none_iff {depth index : Nat} {ts : List Token} (h : InParen depth ts) :
    closing depth index ts = none ↔ ∀ n < ts.length, depthThrough depth (ts.take (n + 1)) ≠ 0 := by
  induction ts generalizing depth index with
  | nil => exact ⟨fun _ n hn => absurd hn (Nat.not_lt_zero n), fun _ => rfl⟩
  | cons t ts ih =>
    rw [closing_cons h]
    by_cases hafter : t.depthAfter depth = 0
    · rw [if_pos hafter]
      exact ⟨fun hnone => (by cases hnone), fun hne => absurd hafter (hne 0 (Nat.succ_pos ts.length))⟩
    · rw [if_neg hafter, ih (.inl hafter)]
      constructor
      · intro hne n hn
        cases n with
        | zero => exact hafter
        | succ n => exact hne n (Nat.lt_of_succ_lt_succ hn)
      · exact fun hne n hn => hne (n + 1) (Nat.succ_lt_succ hn)

theorem Cursor.inParen_rest {c : Cursor} (h : c.peek = some .openParen) : InParen 0 c.rest := by
  refine .inr ?_
  rw [Cursor.rest, List.head?_map, List.head?_drop]
  exact h

/-- The search by index finds the parenthesis that ends what is enclosed. -/
theorem closing_succ_eq (depth index : Nat) (ls : List Lexeme) :
    closing (depth + 1) index (ls.map Lexeme.token) =
      (enclosed depth ls).map fun e => index + e.inner.length := by
  induction ls generalizing depth index with
  | nil => rfl
  | cons l ls ih =>
    rw [List.map_cons, closing_cons (.inl (Nat.succ_ne_zero depth)), enclosed]
    by_cases hclose : l.token = .closeParen ∧ depth = 0
    · obtain ⟨hl, rfl⟩ := hclose
      rw [hl]
      rfl
    · have hafter : l.token.depthAfter (depth + 1) = l.token.depthAfter depth + 1 := by
        cases hl : l.token with
        | closeParen => exact (Nat.sub_add_cancel (Nat.pos_of_ne_zero fun h => hclose ⟨hl, h⟩)).symm
        | _ => rfl
      rw [hafter, if_neg (Nat.succ_ne_zero _), ih, if_neg (by simpa using hclose), Option.map_map]
      simp [Function.comp_def, Nat.add_assoc, Nat.add_comm 1]

namespace LexedText.Views

variable {t : LexedText} {c c' : Cursor} {l : Lexeme} {ls : List Lexeme}

theorem rest_eq (h : t.Views c ls) : c.rest = ls.map Lexeme.token := by
  obtain ⟨front, hlexemes, hposition⟩ := h.behind
  rw [Cursor.rest, List.map_drop, h.tokens_eq, map_token_spans, hlexemes, hposition, List.map_append,
    List.drop_left' (List.length_map _)]

theorem matchingParen_eq (h : t.Views c (l :: ls)) (hl : l.token = .openParen) :
    c.matchingParen = (enclosed 0 ls).map fun e => c.position + 1 + e.inner.length := by
  rw [Cursor.matchingParen, h.rest_eq, List.map_cons, closing, hl]
  exact closing_succ_eq 0 (c.position + 1) ls

theorem innerText?_eq {e : Enclosed} (h : t.Views c (l :: (e.inner ++ e.close :: e.rest)))
    (h' : t.Views c' ls) :
    c'.innerText? c.position (c.position + 1 + e.inner.length) = some e.body := by
  obtain ⟨front, hlexemes, hposition⟩ := h.behind
  have hfirst : c.tokens[c.position]? = some (l.spanBehind 0 front) := h.getElem?_tokens hlexemes hposition
  have hlast : c.tokens[c.position + 1 + e.inner.length]? =
      some (e.close.spanBehind 0 (front ++ l :: e.inner)) :=
    h.getElem?_tokens
      (show t.lexemes = (front ++ l :: e.inner) ++ e.close :: e.rest by rw [hlexemes]; simp)
      (by rw [List.length_append, List.length_cons, hposition]; omega)
  have hslice : slice? c.source (byteLength (written front ++ l.gap ++ l.text))
      (byteLength (written (front ++ l :: e.inner) ++ e.close.gap)) = some e.body := by
    refine slice?_eq_some_iff.2 ⟨written front ++ l.gap ++ l.text,
      e.close.text ++ (written e.rest ++ t.last), ?_, rfl, ?_⟩
    · rw [h.source_eq, text, hlexemes]
      simp [Enclosed.body, written]
    · simp [Enclosed.body, written]
  have hsame : c'.innerText? c.position (c.position + 1 + e.inner.length) =
      c.innerText? c.position (c.position + 1 + e.inner.length) := by
    rw [Cursor.innerText?, Cursor.innerText?, h.source_eq, h'.source_eq, h.tokens_eq, h'.tokens_eq]
  rw [hsame, Cursor.innerText?, hfirst, hlast]
  simpa [Lexeme.spanBehind] using hslice

/-- Behind the name of a table, when its parenthesis is closed. -/
theorem tableBody (h : t.Views c (l :: ls)) {e : Enclosed} (henclosed : enclosed 0 ls = some e) :
    ∃ behind, found (sub? (c.position + 1 + e.inner.length + 1) c.position) =
        (pure behind : Attempt String Nat) ∧
      t.Views (c.skip behind) e.rest ∧
      (c.skip behind).innerText? c.position (c.position + 1 + e.inner.length) = some e.body := by
  obtain ⟨rfl, -, -, -⟩ := enclosed_eq_some henclosed
  have hskip := h.skip (n := e.inner.length + 2) (by simp)
  have hdrop : (l :: (e.inner ++ e.close :: e.rest)).drop (e.inner.length + 2) = e.rest := by
    rw [List.drop_succ_cons, List.append_cons]
    exact List.drop_left' (by simp)
  rw [hdrop] at hskip
  refine ⟨e.inner.length + 2, ?_, hskip, h.innerText?_eq hskip⟩
  rw [sub?, if_pos (by omega)]
  exact congrArg pure (by omega)

end LexedText.Views

end SchemaDdl.Script
