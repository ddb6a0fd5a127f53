import SchemaDdl.Proofs.Cursor.Attempt
import SchemaDdl.Proofs.Lexing.Spans

/-!
# Scanning by byte offsets

The tokens of a text as a scanner finds them that counts bytes while it walks over the characters, and
looks at the second character of a comment mark by slicing the text at the count. It never slices
between two characters, and it finds the tokens and offsets of the lexemes.
-/

namespace SchemaDdl.Script

open Attempt

/-- A text with the characters that are not yet read, and the byte offset of the first of them. -/
structure Scanner where
  input : List Char
  offset : Nat
  rest : List Char

namespace Scanner

/-- Moves over `text`. -/
def moveTo (s : Scanner) (text rest : List Char) : Scanner :=
  { s with offset := s.offset + byteLength text, rest }

/-- The second character of the text from a byte offset on. -/
def secondChar (s : Scanner) (start : Nat) : Attempt LexError (Option Char) := do
  let behind ← found (dropBytes? start s.input)
  return behind[1]?

/-- Whether the next character `c` and the one behind it are the two of a mark. -/
def opens (s : Scanner) (c first second : Char) : Attempt LexError Bool := do
  if c == first then
    return (← s.secondChar s.offset) == some second
  else return false

/-- Where the next character starts, or the end of the text. -/
def nextOffset (s : Scanner) : Nat :=
  if s.rest.isEmpty then byteLength s.input else s.offset

/-- Passes over a blank or a comment, or reads a token. -/
def tokenPass (s : Scanner) : Attempt LexError (Turn Scanner (Option (Span × Scanner))) :=
  match s.rest with
  | [] => return .done none
  | c :: cs => do
    if Text.isBlank c then
      return .again (s.moveTo [c] cs)
    else if ← s.opens c '-' '-' then
      let (comment, rest) := lineComment cs
      return .again (s.moveTo (c :: comment) rest)
    else if ← s.opens c '/' '*' then
      match blockComment cs.tail with
      | none => throw .unterminatedComment
      | some (comment, rest) => return .again (s.moveTo (c :: cs.take 1 ++ comment) rest)
    else
      let t ← Attempt.of (spelled c cs)
      let behind := s.moveTo t.text t.rest
      return .done (some (⟨t.token, s.offset, behind.nextOffset⟩, behind))

def nextToken (s : Scanner) : Attempt LexError (Option (Span × Scanner)) :=
  repeatedly (fun s => s.rest.length) tokenPass s

def tokensPass (state : List Span × Scanner) :
    Attempt LexError (Turn (List Span × Scanner) (List Span)) := do
  match ← state.2.nextToken with
  | none => return .done state.1
  | some (t, behind) => return .again (state.1 ++ [t], behind)

/-- All tokens of a text. -/
def tokenize (text : List Char) : Attempt LexError (List Span) :=
  repeatedly (fun state => state.2.rest.length) tokensPass ([], ⟨text, 0, text⟩)

/-- The bytes that are counted are those in front of the characters that are not yet read. -/
def Counts (s : Scanner) : Prop :=
  ∃ front, s.input = front ++ s.rest ∧ s.offset = byteLength front

section Counts

variable {s : Scanner} {c : Char} {cs : List Char}

theorem counts_start (text : List Char) : Counts ⟨text, 0, text⟩ :=
  ⟨[], rfl, rfl⟩

theorem Counts.moveTo {text rest : List Char} (h : s.Counts) (hrest : s.rest = text ++ rest) :
    (s.moveTo text rest).Counts := by
  obtain ⟨front, hinput, hoffset⟩ := h
  refine ⟨front ++ text, ?_, ?_⟩
  · rw [Scanner.moveTo, hinput, hrest, List.append_assoc]
  · rw [Scanner.moveTo, hoffset, byteLength_append]

theorem Counts.nextOffset_eq (h : s.Counts) : s.nextOffset = s.offset := by
  obtain ⟨front, hinput, hoffset⟩ := h
  rw [nextOffset, hinput, hoffset]
  cases s.rest <;> simp

/-- A count is never inside a character, so the text can be sliced there. -/
theorem Counts.secondChar_eq (h : s.Counts) : s.secondChar s.offset = pure s.rest[1]? := by
  obtain ⟨front, hinput, hoffset⟩ := h
  rw [secondChar, hinput, hoffset, dropBytes?_append]
  rfl

theorem Counts.opens_eq (h : s.Counts) (hrest : s.rest = c :: cs) (first second : Char) :
    s.opens c first second = pure (c == first && cs.head? == some second) := by
  rw [opens, h.secondChar_eq, hrest, List.getElem?_cons_succ, ← List.head?_eq_getElem?]
  cases c == first <;> rfl

end Counts

end Scanner

/-! ## The next token -/

/-- The token behind the gap, counted from `offset`, and what follows it. -/
def nextSpan (offset : Nat) (cs : List Char) : Except LexError (Option (Span × List Char)) :=
  match gap cs with
  | .error e => .error e
  | .ok (_, []) => .ok none
  | .ok (g, c :: rest) =>
    let start := offset + byteLength g
    (spelled c rest).map fun s => some (⟨s.token, start, start + byteLength s.text⟩, s.rest)

theorem nextSpan_of_gap {offset : Nat} {taken cs rest : List Char}
    (h : gap cs = (gap rest).map fun p => (taken ++ p.1, p.2)) :
    nextSpan offset cs = nextSpan (offset + byteLength taken) rest := by
  rw [nextSpan, nextSpan, h]
  rcases gap rest with e | ⟨g, _ | ⟨c, behind⟩⟩
  · rfl
  · rfl
  · dsimp only [Except.map]
    rw [byteLength_append, ← Nat.add_assoc]

theorem nextSpan_of_noGap (offset : Nat) {cs : List Char} {c : Char} (h : NoGap (c :: cs)) :
    nextSpan offset (c :: cs) = (spelled c cs).map fun s =>
      some (⟨s.token, offset, offset + byteLength s.text⟩, s.rest) := by
  rw [nextSpan, h]
  rfl

theorem lineComment_fst_append (cs : List Char) : (lineComment cs).1 ++ (lineComment cs).2 = cs := by
  fun_induction lineComment cs with
  | case1 => rfl
  | case2 => rfl
  | case3 c cs h comment rest heq ih =>
    rw [heq] at ih
    rw [List.cons_append, ih]

theorem gap_of_blockComment_eq_none {cs : List Char} (h : blockComment cs = none) :
    gap ('/' :: '*' :: cs) = .error .unterminatedComment := by
  rw [gap]
  split
  · rfl
  · rename_i heq
    rw [h] at heq
    cases heq

namespace Scanner

/-- The scanner has found the token and counts on behind it. -/
structure Finds (found : Span × Scanner) (next : Span × List Char) : Prop where
  span_eq : found.1 = next.1
  rest_eq : found.2.rest = next.2
  offset_eq : found.2.offset = next.1.stop
  counts : found.2.Counts

/-- The pass comes as far as the next token. -/
abbrev ReadsToken (s : Scanner) :
    Attempt LexError (Turn Scanner (Option (Span × Scanner))) → Prop :=
  Advances (fun s => s.rest.length) (fun s t => s = t ∧ s.Counts) (Option.Rel Finds)
    (fun s => nextSpan s.offset s.rest) s s

section Passes

variable {s : Scanner} {c : Char} {cs : List Char} (h : s.Counts) (hrest : s.rest = c :: cs)
include h hrest

theorem Counts.readsToken_of_gap {taken rest : List Char} (htaken : taken ≠ [])
    (hcs : c :: cs = taken ++ rest)
    (hgap : gap (c :: cs) = (gap rest).map fun p => (taken ++ p.1, p.2)) :
    s.ReadsToken (pure (.again (s.moveTo taken rest))) := by
  have hlength := congrArg List.length (hrest.trans hcs)
  have hpos := List.length_pos_iff.2 htaken
  rw [List.length_append] at hlength
  refine .again ⟨rfl, h.moveTo (hrest.trans hcs)⟩ ?_ ?_
  · rw [hlength]
    exact Nat.lt_add_of_pos_left hpos
  · rw [hrest]
    exact nextSpan_of_gap hgap

theorem Counts.readsToken_blank (hblank : Text.isBlank c = true) :
    s.ReadsToken (pure (.again (s.moveTo [c] cs))) :=
  h.readsToken_of_gap hrest (List.cons_ne_nil c []) rfl (gap_blank hblank cs)

theorem Counts.readsToken_lineComment (hc : c = '-') (hd : cs.head? = some '-') :
    s.ReadsToken (pure (.again (s.moveTo (c :: (lineComment cs).1) (lineComment cs).2))) := by
  subst hc
  obtain ⟨cs, rfl⟩ : ∃ ds, cs = '-' :: ds := List.head?_eq_some_iff.1 hd
  have hcomment : lineComment ('-' :: cs) = ('-' :: (lineComment cs).1, (lineComment cs).2) := rfl
  refine h.readsToken_of_gap hrest (List.cons_ne_nil _ _) ?_ ?_
  · rw [List.cons_append, lineComment_fst_append]
  · rw [hcomment, gap]

theorem Counts.readsToken_blockComment (hc : c = '/') (hd : cs.head? = some '*') :
    s.ReadsToken (match blockComment cs.tail with
      | none => throw .unterminatedComment
      | some (comment, rest) => pure (.again (s.moveTo (c :: cs.take 1 ++ comment) rest))) := by
  subst hc
  obtain ⟨cs, rfl⟩ : ∃ ds, cs = '*' :: ds := List.head?_eq_some_iff.1 hd
  rw [List.tail_cons]
  cases hcomment : blockComment cs with
  | none =>
    refine .error ?_
    rw [hrest, nextSpan, gap_of_blockComment_eq_none hcomment]
  | some p =>
    obtain ⟨comment, rest⟩ := p
    -- the two characters that open the comment are passed over with it
    obtain ⟨rfl, hclosed⟩ := blockComment_eq_some hcomment
    exact h.readsToken_of_gap hrest (List.cons_ne_nil _ _) (by simp) (gap_block hclosed rest)

theorem Counts.readsToken_spelled (hno : NoGap (c :: cs)) :
    s.ReadsToken (do
      let t ← Attempt.of (spelled c cs)
      let behind := s.moveTo t.text t.rest
      return .done (some (⟨t.token, s.offset, behind.nextOffset⟩, behind))) := by
  have hnext := nextSpan_of_noGap s.offset hno
  rw [← hrest] at hnext
  cases ht : spelled c cs with
  | error e =>
    rw [ht] at hnext
    exact .error hnext
  | ok t =>
    rw [ht] at hnext
    have hbehind := h.moveTo (hrest.trans (sound_of_spelled hno ht).text_eq)
    exact .done (.some ⟨by rw [hbehind.nextOffset_eq]; rfl, rfl, rfl, hbehind⟩) hnext

end Passes

theorem Counts.readsToken {s : Scanner} (h : s.Counts) : s.ReadsToken s.tokenPass := by
  rw [tokenPass]
  split
  · rename_i hrest
    refine .done .none ?_
    rw [hrest, nextSpan, gap]
  · rename_i c cs hrest
    rw [h.opens_eq hrest, h.opens_eq hrest, pure_bind, pure_bind]
    split
    · rename_i hblank
      exact h.readsToken_blank hrest hblank
    · rename_i hblank
      split
      · rename_i hline
        rw [Bool.and_eq_true, beq_iff_eq, beq_iff_eq] at hline
        exact h.readsToken_lineComment hrest hline.1 hline.2
      · rename_i hline
        split
        · rename_i hblock
          rw [Bool.and_eq_true, beq_iff_eq, beq_iff_eq] at hblock
          exact h.readsToken_blockComment hrest hblock.1 hblock.2
        · rename_i hblock
          exact h.readsToken_spelled hrest (noGap_cons (Bool.eq_false_iff.2 hblank)
            (fun hc hd => hline (by simp [hc, hd])) fun hc hd => hblock (by simp [hc, hd]))

theorem Counts.nextToken {s : Scanner} (h : s.Counts) :
    Follows (Option.Rel Finds) s.nextToken (nextSpan s.offset s.rest) :=
  .repeatedly (r := fun s t : Scanner => s = t ∧ s.Counts)
    (g := fun s : Scanner => nextSpan s.offset s.rest)
    (fun _ _ ⟨ht, hs⟩ => ht ▸ hs.readsToken) ⟨rfl, h⟩

end Scanner

/-! ## All tokens -/

theorem lexemes_eq (cs : List Char) : lexemes cs =
    match gap cs with
    | .error e => .error e
    | .ok (g, []) => .ok ([], g)
    | .ok (g, c :: rest) =>
      match spelled c rest with
      | .error e => .error e
      | .ok s => (lexemes s.rest).map fun p => (⟨g, s.text, s.token⟩ :: p.1, p.2) := by
  rw [lexemes]
  split <;> simp_all
  split <;> simp_all

/-- The tokens of a text are those that are found one after the other. -/
theorem map_spans_lex (offset : Nat) (cs : List Char) : (lex cs).map (spans offset) =
    match nextSpan offset cs with
    | .error e => .error e
    | .ok none => .ok []
    | .ok (some (t, rest)) => ((lex rest).map (spans t.stop)).map (t :: ·) := by
  rw [nextSpan, lex, lexemes_eq]
  rcases gap cs with e | ⟨g, _ | ⟨c, rest⟩⟩
  · rfl
  · rfl
  · dsimp only
    cases spelled c rest with
    | error e => rfl
    | ok s =>
      change _ = Except.map _ (Except.map _ (lex s.rest))
      rw [lex]
      dsimp only
      cases lexemes s.rest <;> rfl

namespace Scanner

theorem length_rest_lt_of_nextSpan {offset : Nat} {cs rest : List Char} {t : Span}
    (h : nextSpan offset cs = .ok (some (t, rest))) : rest.length < cs.length := by
  rw [nextSpan] at h
  split at h
  · cases h
  · cases h
  · rename_i g c behind hgap
    obtain ⟨s, hs, heq⟩ := exists_of_map_eq_ok h
    cases heq
    exact Nat.lt_of_le_of_lt (length_spelled_le hs) (length_gap_le hgap)

/-- What is found so far, with the tokens that follow. -/
def tokensFrom (state : List Span × Scanner) : Except LexError (List Span) :=
  ((lex state.2.rest).map (spans state.2.offset)).map (state.1 ++ ·)

theorem Counts.tokensPass {s : Scanner} (h : s.Counts) (found : List Span) :
    Advances (fun state : List Span × Scanner => state.2.rest.length)
      (fun state t => state = t ∧ state.2.Counts) Eq tokensFrom (found, s) (found, s)
      (tokensPass (found, s)) := by
  have hspans := map_spans_lex s.offset s.rest
  have hlt {t rest} := @length_rest_lt_of_nextSpan s.offset s.rest rest t
  have hnext := h.nextToken
  rw [Scanner.tokensPass]
  dsimp only
  generalize s.nextToken = x at hnext
  generalize nextSpan s.offset s.rest = e at hnext hspans hlt
  cases hnext with
  | error e => exact .error (by rw [tokensFrom, hspans]; rfl)
  | ok hfound =>
    cases hfound with
    | none =>
      refine .done rfl ?_
      rw [tokensFrom, hspans]
      exact congrArg Except.ok (List.append_nil found)
    | @some a b hfound =>
      obtain ⟨t, behind⟩ := a
      obtain ⟨_, rest⟩ := b
      obtain ⟨rfl, rfl, hoffset, hcounts⟩ := hfound
      refine .again (u := (found ++ [t], behind)) ⟨rfl, hcounts⟩ (hlt rfl) ?_
      rw [tokensFrom, tokensFrom, hspans]
      dsimp only at hoffset ⊢
      rw [hoffset]
      cases lex behind.rest <;> simp [Except.map]

/-- Scanning by byte offsets has no fault, and finds the tokens of the lexemes. -/
theorem tokenize_eq (text : List Char) : tokenize text = Attempt.of (spanned text) := by
  have hloop : Follows Eq (tokenize text) (tokensFrom ([], ⟨text, 0, text⟩)) :=
    .repeatedly (r := fun state t : List Span × Scanner => state = t ∧ state.2.Counts)
      (fun _ state ⟨ht, hs⟩ => ht ▸ hs.tokensPass _) ⟨rfl, counts_start text⟩
  have hspanned : tokensFrom ([], ⟨text, 0, text⟩) = spanned text := by
    rw [tokensFrom, spanned]
    cases lex text <;> rfl
  rw [← hspanned]
  exact follows_eq_iff.1 hloop

end Scanner

end SchemaDdl.Script
