import SchemaDdl.Proofs.Lexing.Blanking
import SchemaDdl.Proofs.Splitting.Agreement

/-!
# Splitting with comments blanked

No separator stands in a comment, so a text and its blanked copy are cut at the same places. What is
cut out of the one is blanked in the other.
-/

namespace SchemaDdl.Script

/-- The same lexemes, with comments blanked between them and behind them. -/
structure Segment.Blanked (s s' : Segment) : Prop where
  lexemes : List.Forall₂ Lexeme.Blanked s.lexemes s'.lexemes
  rest : Script.Blanked s.rest s'.rest

section Segments

variable {s s' : Segment} {ss ss' : List Segment} {ls ls' : List Lexeme} {rest rest' : List Char}

theorem Segment.Blanked.text (h : s.Blanked s') (hs : Chain s.lexemes s.rest) :
    Script.Blanked s.text s'.text :=
  (hs.blanked h.lexemes h.rest).1

theorem Segment.Blanked.cons {l l' : Lexeme} (hl : l.Blanked l') (h : s.Blanked s') :
    (s.cons l).Blanked (s'.cons l') :=
  ⟨.cons hl h.lexemes, h.rest⟩

theorem Segment.Blanked.close (h : s.Blanked s') : s.close.Blanked s'.close :=
  ⟨List.rel_append h.lexemes (.cons ⟨h.rest, rfl, rfl⟩ .nil), .same []⟩

theorem segments_blanked (separator : Token) (depth : Nat) (hls : List.Forall₂ Lexeme.Blanked ls ls')
    (hrest : Blanked rest rest') :
    List.Forall₂ Segment.Blanked (segments separator depth ls rest)
      (segments separator depth ls' rest') := by
  induction hls generalizing depth with
  | nil => exact .cons ⟨.nil, hrest⟩ .nil
  | @cons l l' ls ls' hl _ ih =>
    rw [segments, segments, hl.token]
    split
    · exact .cons ⟨.nil, hl.gap⟩ (ih 0)
    · have hmore := ih (l.token.depthAfter depth)
      generalize segments separator (l.token.depthAfter depth) ls rest = ss at hmore ⊢
      generalize segments separator (l.token.depthAfter depth) ls' rest' = ss' at hmore ⊢
      cases hmore with
      | nil => exact .nil
      | cons hs hss => exact .cons (hs.cons hl) hss

theorem ended_blanked (h : List.Forall₂ Segment.Blanked ss ss') :
    List.Forall₂ Segment.Blanked (ended ss) (ended ss') := by
  induction h with
  | nil => exact .nil
  | cons hs hss ih =>
    cases hss with
    | nil => exact .cons hs .nil
    | cons ht hts => exact .cons hs.close ih

theorem forall₂_blanked_text (h : List.Forall₂ Segment.Blanked ss ss') {front : List Segment}
    (hss : ss = front ++ [⟨ls, rest⟩]) (hls : Chain ls rest) (hfront : ∀ s ∈ front, s.Closed) :
    List.Forall₂ Blanked (ss.map Segment.text) (ss'.map Segment.text) := by
  have hchain : ∀ s ∈ ss, Chain s.lexemes s.rest := by
    intro s hs
    rw [hss] at hs
    rcases List.mem_append.1 hs with hs | hs
    · exact (hfront s hs).1
    · rw [List.mem_singleton.1 hs]
      exact hls
  clear hss
  induction h with
  | nil => exact .nil
  | @cons s s' ss ss' hs _ ih =>
    obtain ⟨hchain, hmore⟩ := List.forall_mem_cons.1 hchain
    exact .cons (hs.text hchain) (ih hmore)

end Segments

section Text

variable {cs cs' : List Char}

/-- A text and its blanked copy are chains of the same tokens in front of a rest without separators. -/
theorem Blanked.exists_quiet_chains (h : Blanked cs cs') :
    ∃ ls rest ls' rest', cs = written ls ++ rest ∧ cs' = written ls' ++ rest' ∧ Chain ls rest ∧
      Chain ls' rest' ∧ List.Forall₂ Lexeme.Blanked ls ls' ∧ Blanked rest rest' ∧
      Quiet (pieces .plain rest) ∧ Quiet (pieces .plain rest') := by
  obtain ⟨ls, rest, ls', rest', rfl, rfl, hchain, hls, hrest, hend⟩ := h.exists_chains
  refine ⟨ls, rest, ls', rest', rfl, rfl, hchain, (hchain.blanked hls hrest).2, hls, hrest, ?_⟩
  rcases hend with hend | ⟨e, hend⟩
  · exact ⟨hend.quiet, (hend.blanked hrest).quiet⟩
  · exact ⟨hend.quiet, (hend.blanked hrest).quiet⟩

theorem Blanked.cut (h : Blanked cs cs') (separator : Token) {c : Char}
    (hc : separator.control? = some c) :
    List.Forall₂ Blanked (cut c 0 (pieces .plain cs)) (cut c 0 (pieces .plain cs')) := by
  obtain ⟨ls, rest, ls', rest', rfl, rfl, hchain, hchain', hls, hrest, hquiet, hquiet'⟩ :=
    h.exists_quiet_chains
  obtain ⟨front, last, hsplit, hlast, hfront⟩ := hchain.exists_segments separator 0
  rw [hchain.cut_eq hquiet separator hc, hchain'.cut_eq hquiet' separator hc]
  exact forall₂_blanked_text (segments_blanked separator 0 hls hrest) hsplit hlast hfront

theorem Blanked.stretches (h : Blanked cs cs') :
    List.Forall₂ Blanked (stretches cs) (stretches cs') := by
  obtain ⟨ls, rest, ls', rest', rfl, rfl, hchain, hchain', hls, hrest, hquiet, hquiet'⟩ :=
    h.exists_quiet_chains
  obtain ⟨front, last, hsplit, hlast, hfront⟩ := hchain.exists_ended
  have hsegments := segments_blanked .semicolon 0 hls hrest
  rw [Script.stretches, Script.stretches, hchain.cut_eq hquiet .semicolon rfl,
    hchain'.cut_eq hquiet' .semicolon rfl, terminated_map_text, terminated_map_text]
  exact forall₂_blanked_text (ended_blanked hsegments) hsplit hlast hfront

end Text

end SchemaDdl.Script
