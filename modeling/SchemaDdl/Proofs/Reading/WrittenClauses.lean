import SchemaDdl.Proofs.Reading.BlankedItems
import SchemaDdl.Proofs.Reading.Clauses

/-!
# Clauses as they are written

Each clause of a column definition has its own grammar, and reading knows little of it: behind a
default it looks for the next keyword that can follow an expression, and an unsupported clause it
steps over token by token. For clauses of the usual forms that leaves what stands behind them, except
that a keyword behind a bare `SET` or `BY` is taken for a part of the clause before it.
-/

namespace SchemaDdl.Script

/-! ## Keywords -/

/-- A token is one keyword only. -/
theorem Token.isKeyword_eq {t : Token} {k : String} (h : t.isKeyword k = true) (k' : String) :
    t.isKeyword k' = sameKeyword k k' := by
  cases t with
  | word w =>
    have hsame : w.toList.map Char.toLower = k.toList.map Char.toLower := beq_iff_eq.1 h
    rw [isKeyword, sameKeyword, sameKeyword, hsame]
  | _ => cases h

theorem Token.isAnyKeyword_eq {t : Token} {k : String} (h : t.isKeyword k = true) (ks : List String) :
    t.isAnyKeyword ks = ks.any (sameKeyword k) := by
  rw [isAnyKeyword]
  exact congrArg ks.any (funext (t.isKeyword_eq h))

/-- The lexemes are these keywords and nothing else. -/
def AreKeywords (ks : List String) (ls : List Lexeme) : Prop :=
  takeKeywords ks ls = some []

theorem areKeywords_cons {k : String} {ks : List String} {ls : List Lexeme} :
    AreKeywords (k :: ks) ls ↔ ∃ l ls', ls = l :: ls' ∧ l.token.isKeyword k = true ∧ AreKeywords ks ls' := by
  cases ls with
  | nil => simp [AreKeywords, takeKeywords]
  | cons l ls =>
    rw [AreKeywords, takeKeywords]
    by_cases hl : l.token.isKeyword k = true <;> simp [hl, AreKeywords]

theorem AreKeywords.take {ks : List String} {ls : List Lexeme} (h : AreKeywords ks ls)
    (rest : List Lexeme) : takeKeywords ks (ls ++ rest) = some rest := by
  induction ks generalizing ls with
  | nil =>
    cases h
    rfl
  | cons k ks ih =>
    obtain ⟨l, ls', rfl, hl, hls⟩ := areKeywords_cons.1 h
    rw [List.cons_append, takeKeywords, if_pos hl, ih hls]

theorem takeKeywords_eq_none {l : Lexeme} {word k : String} (hl : l.token.isKeyword word = true)
    (hk : sameKeyword word k = false) (ks : List String) (ls : List Lexeme) :
    takeKeywords (k :: ks) (l :: ls) = none := by
  rw [takeKeywords, Token.isKeyword_eq hl, hk]
  rfl

theorem isDone_of_isKeyword {l : Lexeme} {k : String} (hl : l.token.isKeyword k = true)
    (ls : List Lexeme) : isDone (l :: ls) = false := by
  cases ls with
  | nil =>
    rw [isDone, beq_eq_false_iff_ne]
    intro h
    rw [h] at hl
    cases hl
  | cons m ls => rfl

/-! ## Forms of clauses -/

/-- A name that is quoted or not spelled like a keyword that opens a clause. -/
structure PlainName (l : Lexeme) : Prop where
  isName : l.token.name?.isSome
  noClause : startsClause l = false

/-- Plain names with dots between them. -/
inductive DottedName : List Lexeme → Prop
  | single {l : Lexeme} : PlainName l → DottedName [l]
  | dotted {l dot : Lexeme} {ls : List Lexeme} :
    PlainName l → dot.token = .dot → DottedName ls → DottedName (l :: dot :: ls)

/-- A column in parentheses, or nothing. -/
inductive ColumnReference : List Lexeme → Prop
  | absent : ColumnReference []
  | named {left name right : Lexeme} :
    left.token = .openParen → PlainName name → right.token = .closeParen →
      ColumnReference [left, name, right]

/-- What happens on the event, or nothing. -/
inductive ActionClause (event : String) : List Lexeme → Prop
  | absent : ActionClause event []
  | given {a : Action} {ls : List Lexeme} :
    AreKeywords ("ON" :: event :: a.keywords) ls → ActionClause event ls

inductive UnsupportedClause : List Lexeme → Prop
  | check {head left right : Lexeme} {inner : List Lexeme} :
    head.token.isKeyword "CHECK" = true → left.token = .openParen →
      Balanced (inner.map Lexeme.token) → right.token = .closeParen →
        UnsupportedClause (head :: left :: (inner ++ [right]))
  | collate {head : Lexeme} {name : List Lexeme} :
    head.token.isKeyword "COLLATE" = true → DottedName name → UnsupportedClause (head :: name)
  | constraint {head name : Lexeme} :
    head.token.isKeyword "CONSTRAINT" = true → PlainName name → UnsupportedClause [head, name]
  | references {head : Lexeme} {table column onDelete onUpdate : List Lexeme} :
    head.token.isKeyword "REFERENCES" = true → DottedName table → ColumnReference column →
      ActionClause "DELETE" onDelete → ActionClause "UPDATE" onUpdate →
        UnsupportedClause (head :: (table ++ (column ++ (onDelete ++ onUpdate))))
  | generatedAlways {ls : List Lexeme} :
    AreKeywords ["GENERATED", "ALWAYS", "AS", "IDENTITY"] ls → UnsupportedClause ls
  | generatedByDefault {ls : List Lexeme} :
    AreKeywords ["GENERATED", "BY", "DEFAULT", "AS", "IDENTITY"] ls → UnsupportedClause ls

/-- A type that ends nowhere before its clauses. -/
structure TypeLexemes (ls : List Lexeme) : Prop where
  nonempty : ls ≠ []
  balanced : Balanced (ls.map Lexeme.token)
  noClause : AtTop (fun l _ => startsClause l = false) 0 ls

/-- An expression that nothing ends behind its first token. -/
structure DefaultLexemes (ls : List Lexeme) : Prop where
  nonempty : ls ≠ []
  balanced : Balanced (ls.map Lexeme.token)
  noSemicolon : standsOutside .semicolon 0 (ls.map Lexeme.token) = false
  noEnd : ∀ l ls', ls = l :: ls' →
    AtTop (fun l behind => endsDefault l.token behind = false) (l.token.depthAfter 0) ls'

/-- How a clause is written. There is no form for `NULL`. -/
inductive ClauseLexemes : ColumnClause → List Lexeme → Prop
  | notNull {ls : List Lexeme} : AreKeywords ["NOT", "NULL"] ls → ClauseLexemes .notNull ls
  | unique {ls : List Lexeme} : AreKeywords ["UNIQUE"] ls → ClauseLexemes .unique ls
  | primaryKey {ls : List Lexeme} : AreKeywords ["PRIMARY", "KEY"] ls → ClauseLexemes .primaryKey ls
  | default {head : Lexeme} {e : List Lexeme} :
    head.token.isKeyword "DEFAULT" = true → DefaultLexemes e →
      ClauseLexemes (.default (String.ofList (verbatim e))) (head :: e)
  | unsupported {head : Lexeme} {ls : List Lexeme} :
    UnsupportedClause (head :: ls) → ClauseLexemes (.unsupported head) (head :: ls)

/-! ## Stepping over -/

def lastToken (previous : Token) : List Lexeme → Token
  | [] => previous
  | l :: ls => lastToken l.token ls

/-- Behind `previous` no keyword outside parentheses counts as the start of a clause, and all
parentheses are closed in the end. -/
def SteppedOver (previous : Token) (depth : Nat) : List Lexeme → Prop
  | [] => depth = 0
  | l :: ls => (depth = 0 → bindsNext previous = true ∨ startsClause l = false) ∧
      SteppedOver l.token (l.token.depthAfter depth) ls

theorem skipClause_append {previous : Token} {depth : Nat} {ls : List Lexeme}
    (h : SteppedOver previous depth ls) (rest : List Lexeme) :
    skipClause previous depth (ls ++ rest) = skipClause (lastToken previous ls) 0 rest := by
  induction ls generalizing previous depth with
  | nil =>
    have hdepth : depth = 0 := h
    rw [List.nil_append, hdepth, lastToken]
  | cons l ls ih =>
    have hl : (depth == 0 && !bindsNext previous && l.token.isAnyKeyword clauseKeywords) = false := by
      by_cases hdepth : depth = 0
      · rcases h.1 hdepth with hbound | hclause
        · rw [hbound, Bool.not_true, Bool.and_false, Bool.false_and]
        · rw [show l.token.isAnyKeyword clauseKeywords = false from hclause, Bool.and_false]
      · rw [beq_eq_false_iff_ne.2 hdepth, Bool.false_and, Bool.false_and]
    rw [List.cons_append, skipClause, hl, lastToken]
    exact ih h.2

theorem SteppedOver.append {previous : Token} {depth : Nat} {xs ys : List Lexeme}
    (hxs : SteppedOver previous depth xs) (hys : SteppedOver (lastToken previous xs) 0 ys) :
    SteppedOver previous depth (xs ++ ys) := by
  induction xs generalizing previous depth with
  | nil =>
    have hdepth : depth = 0 := hxs
    rw [hdepth]
    exact hys
  | cons l xs ih => exact ⟨hxs.1, ih hxs.2 hys⟩

/-- Whether keywords are stepped over. -/
def keywordsPass (bound : Bool) : List String → Bool
  | [] => true
  | k :: ks => (bound || !clauseKeywords.any (sameKeyword k)) &&
      keywordsPass (["SET", "BY"].any (sameKeyword k)) ks

theorem AreKeywords.steppedOver {ks : List String} {ls : List Lexeme} (h : AreKeywords ks ls)
    {bound : Bool} (hks : keywordsPass bound ks = true) {previous : Token}
    (hbound : bound = true → bindsNext previous = true) : SteppedOver previous 0 ls := by
  induction ks generalizing ls bound previous with
  | nil =>
    cases h
    rfl
  | cons k ks ih =>
    obtain ⟨l, ls', rfl, hl, hls⟩ := areKeywords_cons.1 h
    rw [keywordsPass, Bool.and_eq_true, Bool.or_eq_true, Bool.not_eq_true'] at hks
    refine ⟨fun _ => ?_, ?_⟩
    · rw [startsClause, Token.isAnyKeyword_eq hl]
      exact hks.1.imp_left hbound
    · rw [depthAfter_of_isKeyword hl]
      refine ih hls hks.2 fun hb => ?_
      rwa [bindsNext, Token.isAnyKeyword_eq hl]

theorem depthAfter_of_isName {t : Token} (h : t.name?.isSome) : t.depthAfter 0 = 0 := by
  obtain ⟨n, hn⟩ := Option.isSome_iff_exists.1 h
  exact depthAfter_of_name? hn

theorem control?_of_isName {t : Token} (h : t.name?.isSome) : t.control? = none := by
  cases t <;> first | rfl | cases h

theorem PlainName.steppedOver {l : Lexeme} (h : PlainName l) (previous : Token) :
    SteppedOver previous 0 [l] :=
  ⟨fun _ => .inr h.noClause, depthAfter_of_isName h.isName⟩

theorem DottedName.steppedOver {ls : List Lexeme} (h : DottedName ls) (previous : Token) :
    SteppedOver previous 0 ls := by
  induction h generalizing previous with
  | single hl => exact hl.steppedOver previous
  | @dotted l dot ls hl hdot _ ih =>
    have hclause : startsClause dot = false := by
      rw [startsClause, hdot]
      rfl
    refine ⟨fun _ => .inr hl.noClause, ?_⟩
    rw [depthAfter_of_isName hl.isName]
    refine ⟨fun _ => .inr hclause, ?_⟩
    have hdepth : dot.token.depthAfter 0 = 0 := by
      rw [hdot]
      rfl
    rw [hdepth]
    exact ih dot.token

theorem depthAfter_succ {t : Token} {depth : Nat} (h : (depth == 0 && t == .closeParen) = false) :
    t.depthAfter (depth + 1) = t.depthAfter depth + 1 := by
  cases t with
  | closeParen =>
    have hdepth : depth ≠ 0 := by simpa using h
    simp only [Token.depthAfter]
    omega
  | _ => rfl

/-- Inside parentheses everything is stepped over. -/
theorem steppedOver_inner {inner : List Lexeme} {right : Lexeme} (hright : right.token = .closeParen)
    {depth : Nat} (hclosed : standsOutside .closeParen depth (inner.map Lexeme.token) = false)
    (hdepth : depthThrough depth (inner.map Lexeme.token) = 0) (previous : Token) :
    SteppedOver previous (depth + 1) (inner ++ [right]) := by
  induction inner generalizing depth previous with
  | nil =>
    have hdepth' : depth = 0 := hdepth
    refine ⟨fun h => absurd h (Nat.succ_ne_zero depth), ?_⟩
    rw [hright, hdepth']
    rfl
  | cons l inner ih =>
    rw [List.map_cons, standsOutside, Bool.or_eq_false_iff] at hclosed
    refine ⟨fun h => absurd h (Nat.succ_ne_zero depth), ?_⟩
    rw [depthAfter_succ hclosed.1]
    exact ih hclosed.2 hdepth l.token

theorem steppedOver_parens {left right : Lexeme} {inner : List Lexeme} (hleft : left.token = .openParen)
    (hinner : Balanced (inner.map Lexeme.token)) (hright : right.token = .closeParen) (previous : Token) :
    SteppedOver previous 0 (left :: (inner ++ [right])) := by
  have hclause : startsClause left = false := by
    rw [startsClause, hleft]
    rfl
  refine ⟨fun _ => .inr hclause, ?_⟩
  rw [hleft]
  exact steppedOver_inner hright hinner.closed hinner.depth _

theorem ColumnReference.steppedOver {ls : List Lexeme} (h : ColumnReference ls) (previous : Token) :
    SteppedOver previous 0 ls := by
  cases h with
  | absent => rfl
  | @named left name right hleft hname hright =>
    have hcontrol : name.token.control? = none := control?_of_isName hname.isName
    have hinner : Balanced ([name].map Lexeme.token) := Balanced.nil.cons (by simp [hcontrol])
    exact steppedOver_parens hleft hinner hright previous

theorem ActionClause.steppedOver {event : String} {ls : List Lexeme} (h : ActionClause event ls)
    (hevent : event = "DELETE" ∨ event = "UPDATE") (previous : Token) : SteppedOver previous 0 ls := by
  cases h with
  | absent => rfl
  | @given a ls hls =>
    have hpass : keywordsPass false ("ON" :: event :: a.keywords) = true := by
      rcases hevent with rfl | rfl <;> cases a <;> decide
    exact hls.steppedOver hpass fun h => absurd h Bool.false_ne_true

/-- An unsupported clause is stepped over as a whole. -/
theorem UnsupportedClause.steppedOver {head : Lexeme} {ls : List Lexeme}
    (h : UnsupportedClause (head :: ls)) : SteppedOver head.token 0 ls := by
  cases h with
  | check _ hleft hinner hright => exact steppedOver_parens hleft hinner hright _
  | collate _ hname => exact hname.steppedOver _
  | constraint _ hname => exact hname.steppedOver _
  | references _ htable hcolumn hdelete hupdate =>
    refine (htable.steppedOver _).append ((hcolumn.steppedOver _).append ?_)
    exact (hdelete.steppedOver (.inl rfl) _).append (hupdate.steppedOver (.inr rfl) _)
  | generatedAlways hls =>
    obtain ⟨l, ls', heq, -, hls'⟩ := areKeywords_cons.1 hls
    cases heq
    have hpass : keywordsPass false ["ALWAYS", "AS", "IDENTITY"] = true := by decide
    exact hls'.steppedOver hpass fun h => absurd h Bool.false_ne_true
  | generatedByDefault hls =>
    obtain ⟨l, ls', heq, -, hls'⟩ := areKeywords_cons.1 hls
    cases heq
    have hpass : keywordsPass false ["BY", "DEFAULT", "AS", "IDENTITY"] = true := by decide
    exact hls'.steppedOver hpass fun h => absurd h Bool.false_ne_true

/-! ## Reading what is written -/

def unsupportedHeads : List String :=
  ["CHECK", "COLLATE", "CONSTRAINT", "REFERENCES", "GENERATED"]

/-- The keywords that open a written clause. -/
def writtenHeads : List String :=
  ["NOT", "UNIQUE", "PRIMARY", "DEFAULT"] ++ unsupportedHeads

theorem UnsupportedClause.exists_head {ls : List Lexeme} (h : UnsupportedClause ls) :
    ∃ l ls', ls = l :: ls' ∧ ∃ word ∈ unsupportedHeads, l.token.isKeyword word = true := by
  cases h with
  | check hhead => exact ⟨_, _, rfl, "CHECK", by decide, hhead⟩
  | collate hhead => exact ⟨_, _, rfl, "COLLATE", by decide, hhead⟩
  | constraint hhead => exact ⟨_, _, rfl, "CONSTRAINT", by decide, hhead⟩
  | references hhead => exact ⟨_, _, rfl, "REFERENCES", by decide, hhead⟩
  | generatedAlways hls =>
    obtain ⟨l, ls', rfl, hl, -⟩ := areKeywords_cons.1 hls
    exact ⟨l, ls', rfl, "GENERATED", by decide, hl⟩
  | generatedByDefault hls =>
    obtain ⟨l, ls', rfl, hl, -⟩ := areKeywords_cons.1 hls
    exact ⟨l, ls', rfl, "GENERATED", by decide, hl⟩

/-- A clause opens with a keyword, which ends a default unless it opens another one. -/
theorem ClauseLexemes.exists_head {k : ColumnClause} {ls : List Lexeme} (h : ClauseLexemes k ls) :
    ∃ l ls', ls = l :: ls' ∧ (∃ word ∈ writtenHeads, l.token.isKeyword word = true) ∧
      ((∀ e, k ≠ .default e) → ∀ rest, endsDefault l.token (ls' ++ rest) = true) := by
  have hends {l : Lexeme} {word : String} (hl : l.token.isKeyword word = true)
      (hnot : sameKeyword word "NOT" = false)
      (hword : ["NULL", "PRIMARY", "UNIQUE", "REFERENCES", "CHECK", "CONSTRAINT", "COLLATE",
        "GENERATED"].any (sameKeyword word) = true) (rest : List Lexeme) :
      endsDefault l.token rest = true := by
    rw [endsDefault, Token.isKeyword_eq hl, hnot, Token.isAnyKeyword_eq hl]
    exact hword
  cases h with
  | notNull hls =>
    obtain ⟨l, ls', rfl, hl, hnull⟩ := areKeywords_cons.1 hls
    refine ⟨l, ls', rfl, ⟨"NOT", by decide, hl⟩, fun _ rest => ?_⟩
    rw [endsDefault, if_pos hl, hnull.take rest]
    rfl
  | unique hls =>
    obtain ⟨l, ls', rfl, hl, -⟩ := areKeywords_cons.1 hls
    exact ⟨l, ls', rfl, ⟨"UNIQUE", by decide, hl⟩, fun _ _ => hends hl (by decide) (by decide) _⟩
  | primaryKey hls =>
    obtain ⟨l, ls', rfl, hl, -⟩ := areKeywords_cons.1 hls
    exact ⟨l, ls', rfl, ⟨"PRIMARY", by decide, hl⟩, fun _ _ => hends hl (by decide) (by decide) _⟩
  | default hhead => exact ⟨_, _, rfl, ⟨"DEFAULT", by decide, hhead⟩, fun h => absurd rfl (h _)⟩
  | @unsupported l ls' hls =>
    obtain ⟨m, ms, heq, word, hword, hl⟩ := hls.exists_head
    cases heq
    have hheads : ∀ word ∈ unsupportedHeads, word ∈ writtenHeads ∧ sameKeyword word "NOT" = false ∧
        ["NULL", "PRIMARY", "UNIQUE", "REFERENCES", "CHECK", "CONSTRAINT", "COLLATE",
          "GENERATED"].any (sameKeyword word) = true := by decide
    obtain ⟨hwritten, hnot, hends'⟩ := hheads word hword
    exact ⟨l, ls', rfl, ⟨word, hwritten, hl⟩, fun _ _ => hends hl hnot hends' _⟩

theorem startsClause_of_head {l : Lexeme} {word : String} (hword : word ∈ writtenHeads)
    (hl : l.token.isKeyword word = true) :
    startsClause l = true ∧ l.token.isKeyword "NULL" = false := by
  have hheads : ∀ word ∈ writtenHeads,
      clauseKeywords.any (sameKeyword word) = true ∧ sameKeyword word "NULL" = false := by decide
  rw [startsClause, Token.isAnyKeyword_eq hl, Token.isKeyword_eq hl]
  exact hheads word hword

theorem isSome_takeKeywords (k : String) (l : Lexeme) (ls : List Lexeme) :
    (takeKeywords [k] (l :: ls)).isSome = l.token.isKeyword k := by
  rw [takeKeywords]
  cases l.token.isKeyword k <;> rfl

theorem endsDefault_append {t : Token} {ls rest : List Lexeme} (h : endsDefault t ls = false)
    (hrest : ∀ l ∈ rest.head?, l.token.isKeyword "NULL" = false) : endsDefault t (ls ++ rest) = false := by
  rw [endsDefault] at h ⊢
  split
  · rename_i hnot
    rw [if_pos hnot] at h
    cases ls with
    | nil =>
      cases rest with
      | nil => exact h
      | cons l rest => rw [List.nil_append, isSome_takeKeywords, hrest l rfl]
    | cons l ls =>
      rw [isSome_takeKeywords] at h
      rw [List.cons_append, isSome_takeKeywords, h]
  · rename_i hnot
    rwa [if_neg hnot] at h

/-- A default ends where the lexemes end or at a clause behind it. -/
theorem spanDefault_append_of_atTop {depth : Nat} {ls rest : List Lexeme}
    (h : AtTop staysDefault depth ls) (hnull : ∀ l ∈ rest.head?, l.token.isKeyword "NULL" = false)
    (hrest : ∀ l behind, rest = l :: behind →
      depthThrough depth (ls.map Lexeme.token) = 0 ∧ endsDefault l.token behind = true) :
    spanDefault false depth (ls ++ rest) = (ls, rest) := by
  induction ls generalizing depth with
  | nil =>
    cases rest with
    | nil => rfl
    | cons l rest =>
      obtain ⟨hdepth, hl⟩ := hrest l rest rfl
      have hdepth' : depth = 0 := hdepth
      rw [List.nil_append, spanDefault, hdepth', hl]
      simp
  | cons l ls ih =>
    have hl : (depth == 0 && (l.token == .semicolon || (!false && endsDefault l.token (ls ++ rest)))) =
        false := by
      rw [Bool.and_eq_false_imp, beq_iff_eq]
      intro h0
      obtain ⟨hsemicolon, hends⟩ := h.1 h0
      rw [endsDefault_append hends hnull, beq_eq_false_iff_ne.2 hsemicolon]
      rfl
    rw [List.cons_append, spanDefault, hl, ih h.2 hrest]
    rfl

theorem DefaultLexemes.defaultExpression_eq {ls rest : List Lexeme} (h : DefaultLexemes ls)
    (hnull : ∀ l ∈ rest.head?, l.token.isKeyword "NULL" = false)
    (hrest : ∀ l behind, rest = l :: behind → endsDefault l.token behind = true) :
    defaultExpression (ls ++ rest) = .ok (String.ofList (verbatim ls), rest) := by
  obtain ⟨l, ls', rfl⟩ := List.exists_cons_of_ne_nil h.nonempty
  have hsemicolon := h.noSemicolon
  rw [atTop_of_standsOutside] at hsemicolon
  have hstays : AtTop staysDefault (l.token.depthAfter 0) ls' :=
    atTop_and hsemicolon.2 (h.noEnd l ls' rfl)
  have hl : (l.token == .semicolon) = false := beq_eq_false_iff_ne.2 (hsemicolon.1 rfl)
  have hspan := spanDefault_append_of_atTop hstays hnull fun m behind hm =>
    ⟨h.balanced.depth, hrest m behind hm⟩
  rw [defaultExpression, List.cons_append, spanDefault, hspan, hl]
  rfl

/-- A supported clause is read as what it is. -/
theorem ClauseLexemes.clause_eq {k : ColumnClause} {l : Lexeme} {ls rest : List Lexeme}
    (h : ClauseLexemes k (l :: ls)) (hk : ∀ head, k ≠ .unsupported head)
    (hnull : ∀ m ∈ rest.head?, m.token.isKeyword "NULL" = false)
    (hrest : ∀ e, k = .default e → ∀ m behind, rest = m :: behind → endsDefault m.token behind = true) :
    clause l (ls ++ rest) = .ok (k, rest) := by
  have htake {ks : List String} (hks : AreKeywords ks (l :: ls)) :
      takeKeywords ks (l :: (ls ++ rest)) = some rest := hks.take rest
  cases h with
  | notNull hls => rw [clause, htake hls]
  | unique hls =>
    obtain ⟨m, ms, heq, hl, -⟩ := areKeywords_cons.1 hls
    cases heq
    have hnone (k : String) (ks : List String) (hk : sameKeyword "UNIQUE" k = false) :=
      takeKeywords_eq_none hl hk ks (ls ++ rest)
    rw [clause, hnone "NOT" _ (by decide), hnone "NULL" _ (by decide), hnone "DEFAULT" _ (by decide),
      hnone "PRIMARY" _ (by decide), htake hls]
  | primaryKey hls =>
    obtain ⟨m, ms, heq, hl, -⟩ := areKeywords_cons.1 hls
    cases heq
    have hnone (k : String) (ks : List String) (hk : sameKeyword "PRIMARY" k = false) :=
      takeKeywords_eq_none hl hk ks (ls ++ rest)
    rw [clause, hnone "NOT" _ (by decide), hnone "NULL" _ (by decide), hnone "DEFAULT" _ (by decide),
      htake hls]
  | default hl he =>
    have hnone (k : String) (ks : List String) (hk : sameKeyword "DEFAULT" k = false) :=
      takeKeywords_eq_none hl hk ks (ls ++ rest)
    have hdefault : takeKeywords ["DEFAULT"] (l :: (ls ++ rest)) = some (ls ++ rest) := by
      rw [takeKeywords, if_pos hl]
      rfl
    rw [clause, hnone "NOT" _ (by decide), hnone "NULL" _ (by decide), hdefault]
    simp only
    rw [he.defaultExpression_eq hnull (hrest _ rfl)]
    rfl
  | unsupported hls => exact absurd rfl (hk _)

theorem UnsupportedClause.clause_eq {l : Lexeme} {ls : List Lexeme} (h : UnsupportedClause (l :: ls))
    (rest : List Lexeme) :
    clause l (ls ++ rest) = .ok (.unsupported l, skipClause (lastToken l.token ls) 0 rest) := by
  obtain ⟨m, ms, heq, word, hword, hl⟩ := h.exists_head
  cases heq
  have hheads : ∀ word ∈ unsupportedHeads, sameKeyword word "NOT" = false ∧
      sameKeyword word "NULL" = false ∧ sameKeyword word "DEFAULT" = false ∧
        sameKeyword word "PRIMARY" = false ∧ sameKeyword word "UNIQUE" = false := by decide
  obtain ⟨hnot, hnull, hdefault, hprimary, hunique⟩ := hheads word hword
  have hnone (k : String) (ks : List String) (hk : sameKeyword word k = false) :=
    takeKeywords_eq_none hl hk ks (ls ++ rest)
  rw [clause, hnone _ _ hnot, hnone _ _ hnull, hnone _ _ hdefault, hnone _ _ hprimary,
    hnone _ _ hunique, depthAfter_of_isKeyword hl]
  simp only
  rw [skipClause_append h.steppedOver]

end SchemaDdl.Script
