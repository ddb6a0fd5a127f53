import SchemaDdl.Proofs.Lexing.Blanking
import SchemaDdl.Proofs.Paired
import SchemaDdl.Proofs.Reading.Depth
import SchemaDdl.Script.TableItem

/-!
# Captures from blanked text

A capture looks at tokens and their spelling. So from a text and its blanked copy the same parts are
captured, and what is left is again a blanked copy.
-/

namespace SchemaDdl.Script

/-- Lexemes in front of a text, and the same ones with comments blanked between them. -/
structure Restated (ls ls' : List Lexeme) : Prop where
  chain : ∃ rest, Chain ls rest
  lexemes : List.Forall₂ Lexeme.Blanked ls ls'

/-- The same lexemes with comments blanked between them, whatever stands in front of the first. -/
def Alike (ls ls' : List Lexeme) : Prop :=
  Restated (regap [] ls) (regap [] ls')

section Parts

variable {l l' : Lexeme} {ls ls' xs xs' ys ys' : List Lexeme}

theorem restated_nil : Restated [] [] :=
  ⟨⟨[], trivial⟩, .nil⟩

theorem Restated.tail (h : Restated (l :: ls) (l' :: ls')) : Restated ls ls' := by
  obtain ⟨⟨rest, -, -, hchain⟩, hls⟩ := h
  cases hls with
  | cons _ hls => exact ⟨⟨rest, hchain⟩, hls⟩

theorem Restated.append (h : Restated (xs ++ ys) (xs' ++ ys')) (hlength : xs.length = xs'.length) :
    Restated xs xs' ∧ Restated ys ys' := by
  obtain ⟨⟨rest, hchain⟩, hls⟩ := h
  obtain ⟨hxs, hys⟩ := Chain.append_iff.1 hchain
  have hfront := List.forall₂_take xs.length hls
  have hback := List.forall₂_drop xs.length hls
  rw [List.take_left, hlength, List.take_left] at hfront
  rw [List.drop_left, hlength, List.drop_left] at hback
  exact ⟨⟨⟨_, hxs⟩, hfront⟩, ⟨rest, hys⟩, hback⟩

theorem Restated.alike (h : Restated ls ls') : Alike ls ls' := by
  obtain ⟨⟨rest, hchain⟩, hls⟩ := h
  refine ⟨⟨rest, hchain.regap .nil⟩, ?_⟩
  cases hls with
  | nil => exact .nil
  | cons hl hls => exact .cons ⟨.same [], hl.text, hl.token⟩ hls

/-- Two alike lists are both empty, or they start with the same token. -/
theorem Alike.cases (h : Alike ls ls') :
    (ls = [] ∧ ls' = []) ∨ ∃ l ms l' ms', ls = l :: ms ∧ ls' = l' :: ms' ∧ l'.text = l.text ∧
      l'.token = l.token ∧ Restated ms ms' := by
  cases ls with
  | nil =>
    cases ls' with
    | nil => exact .inl ⟨rfl, rfl⟩
    | cons l' ms' => cases h.lexemes
  | cons l ms =>
    cases ls' with
    | nil => cases h.lexemes
    | cons l' ms' =>
      have htail := Restated.tail h
      cases h.lexemes with
      | cons hl _ => exact .inr ⟨l, ms, l', ms', rfl, rfl, hl.text, hl.token, htail⟩

theorem alike_nil : Alike [] [] :=
  restated_nil

theorem alike_nil_iff : Alike [] ls ↔ ls = [] := by
  constructor
  · intro h
    obtain ⟨-, hls⟩ | ⟨_, _, _, _, hnil, -⟩ := h.cases
    · exact hls
    · cases hnil
  · rintro rfl
    exact alike_nil

theorem Alike.exists_cons {ms : List Lexeme} (h : Alike (l :: ms) ls') :
    ∃ l' ms', ls' = l' :: ms' ∧ l'.text = l.text ∧ l'.token = l.token ∧ Restated ms ms' := by
  obtain ⟨hnil, -⟩ | ⟨l, ms, l', ms', heq, rfl, h⟩ := h.cases
  · cases hnil
  · cases heq
    exact ⟨l', ms', rfl, h⟩

theorem Alike.exists_singleton (h : Alike [l] ls') : ∃ l', ls' = [l'] ∧ l'.token = l.token := by
  obtain ⟨l', ms', rfl, -, htoken, hms⟩ := h.exists_cons
  rw [alike_nil_iff.1 hms.alike]
  exact ⟨l', rfl, htoken⟩

theorem Alike.exists_pair {m : Lexeme} {ms : List Lexeme} (h : Alike (l :: m :: ms) ls') :
    ∃ l' m' ms', ls' = l' :: m' :: ms' ∧ l'.token = l.token ∧ m'.token = m.token ∧
      Alike (m :: ms) (m' :: ms') ∧ Alike ms ms' := by
  obtain ⟨l', ns, rfl, -, hl, hns⟩ := h.exists_cons
  obtain ⟨m', ms', rfl, -, hm, hms⟩ := hns.alike.exists_cons
  exact ⟨l', m', ms', rfl, hl, hm, hns.alike, hms.alike⟩

theorem Alike.map_token (h : Alike ls ls') : ls'.map Lexeme.token = ls.map Lexeme.token := by
  have htokens := map_eq_of_forall₂ h.lexemes fun _ _ hl => Lexeme.Blanked.token hl
  rwa [map_token_regap, map_token_regap] at htokens

theorem Alike.append (h : Alike (xs ++ ys) (xs' ++ ys')) (hlength : xs.length = xs'.length) :
    Alike xs xs' ∧ Alike ys ys' := by
  cases xs with
  | nil =>
    rw [List.length_eq_zero_iff.1 hlength.symm] at h ⊢
    exact ⟨alike_nil, h⟩
  | cons x xs =>
    cases xs' with
    | nil => cases hlength
    | cons x' xs' =>
      have hparts : Restated (regap [] (x :: xs) ++ ys) (regap [] (x' :: xs') ++ ys') := h
      obtain ⟨hxs, hys⟩ := hparts.append hlength
      exact ⟨hxs, hys.alike⟩

theorem Alike.verbatim (h : Alike ls ls') : Blanked (verbatim ls) (verbatim ls') := by
  obtain ⟨⟨rest, hchain⟩, hls⟩ := h
  have htexts := ((Chain.of_append (b := rest) hchain).blanked hls (.same [])).1
  cases ls with
  | nil =>
    cases ls' with
    | nil => exact .same []
    | cons => cases hls
  | cons l ms =>
    cases ls' with
    | nil => cases hls
    | cons l' ms' =>
      rw [List.append_nil, List.append_nil, written_regap (by simp), written_regap (by simp)] at htexts
      exact htexts

end Parts

/-! ## Texts -/

section Texts

variable {cs cs' : List Char}

/-- A text and its blanked copy are read as the same tokens, or neither can be read. -/
theorem Blanked.lex (h : Blanked cs cs') : Both Restated (lex cs) (lex cs') := by
  obtain ⟨ls, rest, ls', rest', rfl, rfl, hchain, hls, hrest, hend⟩ := h.exists_chains
  have hchain' := (hchain.blanked hls hrest).2
  rcases hend with hend | ⟨e, hend⟩
  · rw [lex_of_chain hchain hend, lex_of_chain hchain' (hend.blanked hrest)]
    exact .ok ⟨⟨rest, hchain⟩, hls⟩
  · rw [lex_of_torn hchain hend, lex_of_torn hchain' (hend.blanked hrest)]
    exact .error e e

theorem Blanked.lex_trim (h : Blanked cs cs') :
    Both Alike (Script.lex (Text.trim cs)) (Script.lex (Text.trim cs')) := by
  obtain ⟨g, hg⟩ := exists_lex_trim cs
  obtain ⟨g', hg'⟩ := exists_lex_trim cs'
  have hboth := h.lex
  rw [hg, hg'] at hboth
  refine hboth.of_map fun ls ls' hls => ?_
  have halike := hls.alike
  rwa [Alike, regap_widen, regap_widen] at halike

end Texts

/-! ## Captures -/

/-- Related values with alike lexemes behind them. -/
inductive Captured {α α' : Type} (r : α → α' → Prop) : α × List Lexeme → α' × List Lexeme → Prop
  | mk {a : α} {a' : α'} {rest rest' : List Lexeme} :
      r a a' → Alike rest rest' → Captured r (a, rest) (a', rest')

section Captures

variable {ls ls' : List Lexeme}

theorem both_inContext {α α' : Type} {r : α → α' → Prop} {x : Except String α} {x' : Except String α'}
    (h : Both r x x') (context context' : String) :
    Both r (inContext context x) (inContext context' x') :=
  h.mapError _ _

theorem Alike.takeKeywords (h : Alike ls ls') (ks : List String) :
    Option.Rel Alike (takeKeywords ks ls) (takeKeywords ks ls') := by
  induction ks generalizing ls ls' with
  | nil => exact .some h
  | cons k ks ih =>
    obtain ⟨rfl, rfl⟩ | ⟨l, ms, l', ms', rfl, rfl, -, htoken, hms⟩ := h.cases
    · exact .none
    · rw [Script.takeKeywords, Script.takeKeywords, htoken]
      split
      · exact ih hms.alike
      · exact .none

theorem Alike.skipKeywords (h : Alike ls ls') (ks : List String) :
    Alike (skipKeywords ks ls) (skipKeywords ks ls') := by
  rw [Script.skipKeywords, Script.skipKeywords]
  exact rel_elim (h.takeKeywords ks) (fun _ _ hrest => hrest) h

theorem Alike.expectKeywords (h : Alike ls ls') (ks : List String) :
    Both Alike (expectKeywords ks ls) (expectKeywords ks ls') := by
  rw [Script.expectKeywords, Script.expectKeywords]
  exact rel_elim (h.takeKeywords ks) (fun _ _ hrest => .ok hrest) (.error _ _)

theorem Alike.takeToken (h : Alike ls ls') (t : Token) :
    Option.Rel Restated (takeToken t ls) (takeToken t ls') := by
  obtain ⟨rfl, rfl⟩ | ⟨l, ms, l', ms', rfl, rfl, -, htoken, hms⟩ := h.cases
  · exact .none
  · rw [Script.takeToken, Script.takeToken, htoken]
    split
    · exact .some hms
    · exact .none

theorem Alike.expectToken (h : Alike ls ls') (t : Token) (what : String) :
    Both Alike (expectToken t what ls) (expectToken t what ls') := by
  rw [Script.expectToken, Script.expectToken]
  exact rel_elim (h.takeToken t) (fun _ _ hrest => .ok hrest.alike) (.error _ _)

theorem Alike.name (h : Alike ls ls') (what : String) :
    Both (Captured Eq) (name what ls) (name what ls') := by
  obtain ⟨rfl, rfl⟩ | ⟨l, ms, l', ms', rfl, rfl, -, htoken, hms⟩ := h.cases
  · exact .error _ _
  · rw [Script.name, Script.name, htoken]
    split
    · exact .ok ⟨rfl, hms.alike⟩
    · exact .error _ _

theorem Alike.moreNames (h : Alike ls ls') (separator : Token) (what : String) :
    Both (Captured Eq) (moreNames separator what ls) (moreNames separator what ls') := by
  fun_induction Script.moreNames separator what ls generalizing ls' with
  | case1 =>
    obtain rfl := alike_nil_iff.1 h
    exact .ok ⟨rfl, alike_nil⟩
  | case2 l hl =>
    obtain ⟨l', rfl, htoken⟩ := h.exists_singleton
    rw [Script.moreNames, htoken, if_pos hl]
    exact .error _ _
  | case3 l hl =>
    obtain ⟨l', rfl, htoken⟩ := h.exists_singleton
    rw [Script.moreNames, htoken, if_neg hl]
    exact .ok ⟨rfl, h⟩
  | case4 l m ls hl n hn ih =>
    obtain ⟨l', m', ms', rfl, htoken, hname, -, hms⟩ := h.exists_pair
    rw [Script.moreNames, htoken, if_pos hl, hname, hn]
    refine (ih hms).bind ?_
    rintro _ _ ⟨rfl, hrest⟩
    exact .ok ⟨rfl, hrest⟩
  | case5 l m ls hl hm =>
    obtain ⟨l', m', ms', rfl, htoken, hname, -⟩ := h.exists_pair
    rw [Script.moreNames, htoken, if_pos hl, hname, hm]
    exact .error _ _
  | case6 l m ls hl =>
    obtain ⟨l', m', ms', rfl, htoken, -⟩ := h.exists_pair
    rw [Script.moreNames, htoken, if_neg hl]
    exact .ok ⟨rfl, h⟩

theorem Alike.stringLiteral (h : Alike ls ls') (what : String) :
    Both (Captured Eq) (stringLiteral what ls) (stringLiteral what ls') := by
  obtain ⟨rfl, rfl⟩ | ⟨l, ms, l', ms', rfl, rfl, -, htoken, hms⟩ := h.cases
  · exact .error _ _
  · rw [Script.stringLiteral, Script.stringLiteral, htoken]
    split
    · exact .ok ⟨rfl, hms.alike⟩
    · exact .error _ _

theorem Alike.names (h : Alike ls ls') (separator : Token) (what : String) :
    Both (Captured Eq) (names separator what ls) (names separator what ls') := by
  refine (h.name what).bind ?_
  rintro _ _ ⟨rfl, hrest⟩
  refine (hrest.moreNames separator what).bind ?_
  rintro _ _ ⟨rfl, hrest⟩
  exact .ok ⟨rfl, hrest⟩

theorem Alike.qualifiedName (h : Alike ls ls') (what : String) :
    Both (Captured Eq) (qualifiedName what ls) (qualifiedName what ls') := by
  refine (h.names .dot what).bind ?_
  rintro _ _ ⟨rfl, hrest⟩
  exact .ok ⟨rfl, hrest⟩

theorem Alike.nameList (h : Alike ls ls') (what : String) :
    Both (Captured Eq) (nameList what ls) (nameList what ls') := by
  refine (h.expectToken .openParen _).bind fun rest rest' hrest => ?_
  refine (hrest.names .comma what).bind ?_
  rintro _ _ ⟨rfl, hrest⟩
  refine (hrest.expectToken .closeParen _).bind fun rest rest' hrest => ?_
  exact .ok ⟨rfl, hrest⟩

theorem Alike.action (h : Alike ls ls') : Both (Captured Eq) (action ls) (action ls') := by
  have hfound := rel_findSome? (fun a : Action => rel_map (s := Captured Eq)
    (f := fun rest => (a, rest)) (h.takeKeywords a.keywords) fun _ _ hrest => ⟨rfl, hrest⟩) Action.all
  rw [Script.action, Script.action]
  exact rel_elim hfound (fun _ _ hp => .ok hp) (.error _ _)

theorem Alike.dispatch {κ : Type} (h : Alike ls ls') (rules : List (List String × κ)) :
    Option.Rel (Captured Eq) (dispatch rules ls) (dispatch rules ls') :=
  rel_findSome? (fun rule : List String × κ => rel_map (f := fun rest => (rule.2, rest))
    (h.takeKeywords rule.1) fun _ _ hrest => ⟨rfl, hrest⟩) rules

theorem Alike.isDone (h : Alike ls ls') : isDone ls' = isDone ls := by
  obtain ⟨rfl, rfl⟩ | ⟨l, ms, l', ms', rfl, rfl, -, htoken, hms⟩ := h.cases
  · rfl
  · obtain ⟨rfl, rfl⟩ | ⟨m, ns, m', ns', rfl, rfl, -⟩ := hms.alike.cases
    · rw [Script.isDone, Script.isDone, htoken]
    · rfl

theorem Alike.finish (h : Alike ls ls') (what : String) :
    Both (fun _ _ => True) (finish what ls) (finish what ls') := by
  rw [Script.finish, Script.finish, h.isDone]
  split
  · exact .ok trivial
  · exact .error _ _

end Captures

/-! ## Parentheses -/

/-- The inside of a parenthesis, with comments blanked in it and behind it. -/
structure Enclosed.Blanked (e e' : Enclosed) : Prop where
  inner : List.Forall₂ Lexeme.Blanked e.inner e'.inner
  close : e.close.Blanked e'.close
  rest : List.Forall₂ Lexeme.Blanked e.rest e'.rest

section Parentheses

variable {ls ls' : List Lexeme}

theorem enclosed_blanked (h : List.Forall₂ Lexeme.Blanked ls ls') (depth : Nat) :
    Option.Rel Enclosed.Blanked (enclosed depth ls) (enclosed depth ls') := by
  induction h generalizing depth with
  | nil => exact .none
  | cons hl hls ih =>
    rw [enclosed, enclosed, hl.token]
    split
    · exact .some ⟨.nil, hl, hls⟩
    · exact rel_map (ih _) fun e e' he => ⟨.cons hl he.inner, he.close, he.rest⟩

/-- The body of a parenthesis is blanked on its own. -/
theorem Restated.enclosed (h : Restated ls ls') :
    Option.Rel (fun e e' => Blanked e.body e'.body ∧ Alike e.rest e'.rest) (enclosed 0 ls)
      (enclosed 0 ls') := by
  obtain ⟨⟨rest, hchain⟩, hls⟩ := h
  obtain ⟨hnone, hnone'⟩ | ⟨e, e', hsome, hsome', he⟩ := cases_of_rel (enclosed_blanked hls 0)
  · rw [hnone, hnone']
    exact .none
  · rw [hsome, hsome']
    obtain ⟨rfl, -⟩ := enclosed_eq_some hsome
    obtain ⟨hinner, hbehind⟩ := Chain.append_iff.1 hchain
    rw [written_cons, List.append_assoc] at hinner
    have hbody := (hinner.of_append.blanked he.inner he.close.gap).1
    exact .some ⟨hbody, Restated.alike ⟨⟨rest, hbehind.2.2⟩, he.rest⟩⟩

end Parentheses

end SchemaDdl.Script
