import SchemaDdl.Proofs.Reading.Phrases

/-!
# The grammar of statements

Strict reading accepts schemas, enum types, comments and foreign keys in exactly one grammar, which is
written down here without regard to how it is read. Keywords are not reserved, so a schema may be
called `IF` and a role `AUTHORIZATION`.
-/

namespace SchemaDdl.Script

/-! ## Forms -/

/-- What is written in the form, and a semicolon behind it if there is one. -/
def UpToEnding {α : Type} (form : List Lexeme → α → Prop) (ls : List Lexeme) (a : α) : Prop :=
  ∃ front rest, ls = front ++ rest ∧ form front a ∧ Ending rest

/-- A role to own the schema, or nothing. -/
inductive OwnerPhrase : List Lexeme → Prop
  | absent : OwnerPhrase []
  | role {head role : Lexeme} {n : String} :
    head.token.isKeyword "AUTHORIZATION" = true → SpellsName role.token n → OwnerPhrase [head, role]

/-- The phrase of these keywords, or nothing. -/
inductive OptionalKeywords (ks : List String) : List Lexeme → Prop
  | absent : OptionalKeywords ks []
  | given {ls : List Lexeme} : AreKeywords ks ls → OptionalKeywords ks ls

inductive SchemaForm : List Lexeme → Entry → Prop
  | mk {guard owner : List Lexeme} {schema : Lexeme} {n : String} :
    OptionalKeywords ["IF", "NOT", "EXISTS"] guard → SpellsName schema.token n → OwnerPhrase owner →
      SchemaForm (guard ++ schema :: owner) (.schema n)

inductive EnumForm : List Lexeme → Entry → Prop
  | mk {type values : List Lexeme} {as enum left right : Lexeme} {key : QualifiedName}
      {vs : List String} :
    QualifiedPhrase type key → as.token.isKeyword "AS" = true → enum.token.isKeyword "ENUM" = true →
      left.token = .openParen → Listed .comma SpellsString values vs → right.token = .closeParen →
        EnumForm (type ++ as :: enum :: left :: (values ++ [right])) (.type { key, values := vs })

/-- A literal that is not empty is the text. An empty one is as good as `NULL`. -/
inductive CommentPhrase : List Lexeme → Option String → Prop
  | text {is l : Lexeme} {s : String} :
    is.token.isKeyword "IS" = true → SpellsString l.token s → s ≠ "" → CommentPhrase [is, l] (some s)
  | empty {is l : Lexeme} :
    is.token.isKeyword "IS" = true → SpellsString l.token "" → CommentPhrase [is, l] none
  | null {is l : Lexeme} :
    is.token.isKeyword "IS" = true → l.token.isKeyword "NULL" = true → CommentPhrase [is, l] none

inductive TableCommentForm : List Lexeme → Entry → Prop
  | mk {table comment : List Lexeme} {key : QualifiedName} {text : Option String} :
    QualifiedPhrase table key → CommentPhrase comment text →
      TableCommentForm (table ++ comment) (.comment ⟨.table key, text⟩)

inductive ColumnCommentForm : List Lexeme → Entry → Prop
  | mk {table comment : List Lexeme} {dot column : Lexeme} {key : QualifiedName} {n : String}
      {text : Option String} :
    QualifiedPhrase table key → dot.token = .dot → SpellsName column.token n → CommentPhrase comment text →
      ColumnCommentForm (table ++ dot :: column :: comment) (.comment ⟨.column key n, text⟩)

/-- How statements are written, tables aside. -/
inductive StatementForm : List Lexeme → Entry → Prop
  | createSchema {head ls : List Lexeme} {e : Entry} :
    AreKeywords ["CREATE", "SCHEMA"] head → SchemaForm ls e → StatementForm (head ++ ls) e
  | createType {head ls : List Lexeme} {e : Entry} :
    AreKeywords ["CREATE", "TYPE"] head → EnumForm ls e → StatementForm (head ++ ls) e
  | commentOnTable {head ls : List Lexeme} {e : Entry} :
    AreKeywords ["COMMENT", "ON", "TABLE"] head → TableCommentForm ls e → StatementForm (head ++ ls) e
  | commentOnColumn {head ls : List Lexeme} {e : Entry} :
    AreKeywords ["COMMENT", "ON", "COLUMN"] head → ColumnCommentForm ls e → StatementForm (head ++ ls) e

/-- One name in parentheses. -/
inductive EnclosedName : List Lexeme → String → Prop
  | mk {left l right : Lexeme} {n : String} :
    left.token = .openParen → SpellsName l.token n → right.token = .closeParen →
      EnclosedName [left, l, right] n

/-- What stands behind `FOREIGN KEY`. Without a name the constraint is named after the table and the
column. -/
inductive ForeignKeyClause (table : QualifiedName) (constraint : Option String) :
    List Lexeme → ForeignKeyDraft → Prop
  | mk {source target targetColumn actions : List Lexeme} {references : Lexeme} {n n' : String}
      {key : QualifiedName} {rs : List (Event × Action)} :
    EnclosedName source n → references.token.isKeyword "REFERENCES" = true → QualifiedPhrase target key →
      EnclosedName targetColumn n' → Reactions actions rs →
        ForeignKeyClause table constraint (source ++ references :: (target ++ (targetColumn ++ actions)))
          { name := constraint.getD s!"{table.name}_{n}_fkey", fromColumn := n, target := key
            targetColumn := n', onDelete := lastReaction .delete rs, onUpdate := lastReaction .update rs }

inductive ForeignKeyForm (table : QualifiedName) : List Lexeme → ForeignKeyDraft → Prop
  | unnamed {head ls : List Lexeme} {fk : ForeignKeyDraft} :
    AreKeywords ["FOREIGN", "KEY"] head → ForeignKeyClause table none ls fk →
      ForeignKeyForm table (head ++ ls) fk
  | named {head ls : List Lexeme} {constraint name : Lexeme} {n : String} {fk : ForeignKeyDraft} :
    constraint.token.isKeyword "CONSTRAINT" = true → SpellsName name.token n →
      AreKeywords ["FOREIGN", "KEY"] head → ForeignKeyClause table (some n) ls fk →
        ForeignKeyForm table (constraint :: name :: (head ++ ls)) fk

/-! ## Schemas -/

theorem takeKeywords_of_head {k : String} {ks : List String} {ls : List Lexeme}
    (h : ∀ l ∈ ls.head?, l.token.isKeyword k = false) : takeKeywords (k :: ks) ls = none := by
  cases ls with
  | nil => rfl
  | cons l ls =>
    rw [takeKeywords, h l rfl]
    rfl

theorem Ending.not_keyword {ls : List Lexeme} (h : Ending ls) (k : String) :
    ∀ l ∈ ls.head?, l.token.isKeyword k = false := by
  intro l hl
  cases h with
  | nothing => cases hl
  | semicolon hsemicolon =>
    cases hl
    rw [hsemicolon]
    rfl

/-- What follows the name of a schema does not make its `IF` a guard. -/
theorem OwnerPhrase.not_keyword {owner rest : List Lexeme} (h : OwnerPhrase owner) (hrest : Ending rest) :
    ∀ l ∈ (owner ++ rest).head?, l.token.isKeyword "NOT" = false := by
  cases h with
  | absent => exact hrest.not_keyword "NOT"
  | role hhead _ =>
    intro l hl
    cases hl
    rw [Token.isKeyword_eq hhead]
    decide

theorem exists_of_skipKeywords {ks : List String} {ls rest : List Lexeme}
    (h : skipKeywords ks ls = rest) : ∃ guard, ls = guard ++ rest ∧ OptionalKeywords ks guard := by
  rw [skipKeywords] at h
  cases htake : takeKeywords ks ls with
  | none =>
    rw [htake] at h
    exact ⟨[], h, .absent⟩
  | some behind =>
    rw [htake] at h
    obtain ⟨guard, rfl, hguard⟩ := takeKeywords_eq_some_iff.1 htake
    exact ⟨guard, congrArg (guard ++ ·) h, .given hguard⟩

theorem skipKeywords_append {ks : List String} {guard ls : List Lexeme} (hguard : OptionalKeywords ks guard)
    (hls : takeKeywords ks ls = none) : skipKeywords ks (guard ++ ls) = ls := by
  rw [skipKeywords]
  cases hguard with
  | absent => rw [List.nil_append, hls, Option.getD_none]
  | given hkeywords => rw [hkeywords.take ls, Option.getD_some]

section Statements

variable {ls rest : List Lexeme} {e : Entry}

/-- Reads the role that is to own a schema, if there is one. -/
def skipOwner (ls : List Lexeme) : Except String (List Lexeme) :=
  match takeKeywords ["AUTHORIZATION"] ls with
  | some behind => (name "role name" behind).map Prod.snd
  | none => .ok ls

theorem skipOwner_eq_ok_iff (hending : Ending rest) :
    skipOwner ls = .ok rest ↔ ∃ owner, ls = owner ++ rest ∧ OwnerPhrase owner := by
  rw [skipOwner]
  constructor
  · intro h
    split at h
    · rename_i behind htake
      obtain ⟨⟨n, after⟩, hname, rfl⟩ := exists_of_map_eq_ok h
      obtain ⟨head, rfl, hhead⟩ := takeKeyword_eq_some_iff.1 htake
      obtain ⟨role, rfl, hrole⟩ := name_eq_ok_iff.1 hname
      exact ⟨[head, role], rfl, .role hhead hrole⟩
    · cases h
      exact ⟨[], rfl, .absent⟩
  · rintro ⟨owner, rfl, howner⟩
    cases howner with
    | absent =>
      rw [List.nil_append, takeKeywords_of_head (hending.not_keyword "AUTHORIZATION")]
    | @role head role n hhead hrole =>
      have htake : takeKeywords ["AUTHORIZATION"] ([head, role] ++ rest) = some (role :: rest) :=
        takeKeyword_eq_some_iff.2 ⟨head, rfl, hhead⟩
      have hrole' : name "role name" (role :: rest) = .ok (n, rest) :=
        name_eq_ok_iff.2 ⟨role, rfl, hrole⟩
      rw [htake]
      simp only [hrole', Except.map]

theorem createSchema_eq (ls : List Lexeme) :
    createSchema ls = inContext "CREATE SCHEMA"
      (name "schema name" (skipKeywords ["IF", "NOT", "EXISTS"] ls) >>= fun p =>
        skipOwner p.2 >>= fun rest => finish "statement" rest >>= fun _ => .ok (.schema p.1)) := by
  rw [createSchema]
  refine congrArg (inContext "CREATE SCHEMA") (congrArg _ (funext fun (schema, rest) => ?_))
  simp only [skipOwner]
  cases takeKeywords ["AUTHORIZATION"] rest <;> rfl

theorem createSchema_eq_ok_iff : createSchema ls = .ok e ↔ UpToEnding SchemaForm ls e := by
  rw [createSchema_eq, inContext, mapError_eq_ok_iff]
  constructor
  · intro h
    obtain ⟨⟨n, behind⟩, hname, hrun⟩ := bind_eq_ok_iff.1 h
    obtain ⟨rest, hskipped, hrun⟩ := bind_eq_ok_iff.1 hrun
    obtain ⟨_, hfinish, hrun⟩ := bind_eq_ok_iff.1 hrun
    cases hrun
    have hending := finish_eq_ok_iff.1 hfinish
    obtain ⟨owner, hbehind, howner⟩ := (skipOwner_eq_ok_iff hending).1 hskipped
    cases hbehind
    obtain ⟨schema, hskip, hschema⟩ := name_eq_ok_iff.1 hname
    obtain ⟨guard, rfl, hguard⟩ := exists_of_skipKeywords hskip
    exact ⟨guard ++ schema :: owner, rest, by simp, .mk hguard hschema howner, hending⟩
  · rintro ⟨_, rest, rfl, ⟨hguard, hschema, howner⟩, hending⟩
    rename_i guard owner schema n
    have hguard' : skipKeywords ["IF", "NOT", "EXISTS"] (guard ++ schema :: owner ++ rest) =
        schema :: (owner ++ rest) := by
      rw [List.append_assoc]
      refine skipKeywords_append hguard ?_
      -- the schema may be called `IF`, but no `NOT` stands behind it
      rw [List.cons_append, takeKeywords, takeKeywords_of_head (howner.not_keyword hending), ite_self]
    rw [hguard']
    refine bind_eq_ok_iff.2 ⟨_, name_eq_ok_iff.2 ⟨schema, rfl, hschema⟩, ?_⟩
    refine bind_eq_ok_iff.2 ⟨rest, (skipOwner_eq_ok_iff hending).2 ⟨owner, rfl, howner⟩, ?_⟩
    exact bind_eq_ok_iff.2 ⟨(), finish_eq_ok_iff.2 hending, rfl⟩

/-! ## Enum types -/

/-- Behind a comma a value is read as any other literal. -/
theorem moreEnumValues_cons (l : Lexeme) (ls : List Lexeme) :
    moreEnumValues (l :: ls) =
      if l.token == .closeParen then .ok ([], ls)
      else if l.token == .comma then
        stringLiteral "quoted enum value" ls >>= fun p =>
          moreEnumValues p.2 >>= fun q => .ok (p.1 :: q.1, q.2)
      else expected "`,` or `)`" (l :: ls) := by
  cases ls with
  | nil =>
    rw [moreEnumValues]
    rfl
  | cons m ls =>
    rw [moreEnumValues, stringLiteral]
    cases m.token <;> rfl

theorem moreEnumValues_eq_ok_iff {vs : List String} :
    moreEnumValues ls = .ok (vs, rest) ↔ ∃ front right, ls = front ++ right :: rest ∧
      Behind .comma SpellsString front vs ∧ right.token = .closeParen := by
  constructor
  · intro h
    induction hn : ls.length using Nat.strongRecOn generalizing ls vs with
    | _ n ih =>
      cases ls with
      | nil =>
        rw [moreEnumValues] at h
        cases h
      | cons l ls =>
        rw [moreEnumValues_cons] at h
        split at h
        · rename_i hclose
          cases h
          exact ⟨[], l, rfl, .nil, eq_of_beq hclose⟩
        · split at h
          · rename_i hcomma
            obtain ⟨⟨v, behind⟩, hvalue, h⟩ := bind_eq_ok_iff.1 h
            obtain ⟨⟨vs, _⟩, hmore, h⟩ := bind_eq_ok_iff.1 h
            cases h
            obtain ⟨m, rfl, hm⟩ := stringLiteral_eq_ok_iff.1 hvalue
            have hlt : behind.length < n := by
              rw [← hn, List.length_cons, List.length_cons]
              omega
            obtain ⟨front, right, rfl, hfront, hright⟩ := ih behind.length hlt hmore rfl
            exact ⟨l :: m :: front, right, rfl, .cons (eq_of_beq hcomma) hm hfront, hright⟩
          · cases h
  · rintro ⟨front, right, rfl, hfront, hright⟩
    induction hfront with
    | nil => rw [List.nil_append, moreEnumValues_cons, if_pos (beq_iff_eq.2 hright)]
    | @cons s l ls v vs hs hl _ ih =>
      have hvalue : stringLiteral "quoted enum value" (l :: (ls ++ right :: rest)) =
          .ok (v, ls ++ right :: rest) := stringLiteral_eq_ok_iff.2 ⟨l, rfl, hl⟩
      have hclose : (s.token == .closeParen) = false := by
        rw [hs]
        rfl
      rw [List.cons_append, List.cons_append, moreEnumValues_cons, hclose, if_neg Bool.false_ne_true,
        if_pos (beq_iff_eq.2 hs)]
      exact bind_eq_ok_iff.2 ⟨_, hvalue, bind_eq_ok_iff.2 ⟨_, ih, rfl⟩⟩

/-- An empty list is read as well, but refused afterwards. -/
theorem enumValues_eq_ok_iff {vs : List String} (hvs : vs ≠ []) :
    enumValues ls = .ok (vs, rest) ↔ ∃ front right, ls = front ++ right :: rest ∧
      Listed .comma SpellsString front vs ∧ right.token = .closeParen := by
  constructor
  · intro h
    rw [enumValues] at h
    split at h
    · cases h
      exact absurd rfl hvs
    · obtain ⟨⟨v, behind⟩, hvalue, h⟩ := bind_eq_ok_iff.1 h
      obtain ⟨⟨vs', rest'⟩, hmore, h⟩ := bind_eq_ok_iff.1 h
      cases h
      obtain ⟨l, rfl, hl⟩ := stringLiteral_eq_ok_iff.1 hvalue
      obtain ⟨front, right, rfl, hfront, hright⟩ := moreEnumValues_eq_ok_iff.1 hmore
      exact ⟨l :: front, right, rfl, .mk hl hfront, hright⟩
  · rintro ⟨_, right, rfl, ⟨hl, hfront⟩, hright⟩
    rename_i l front v vs
    have hclose : takeToken .closeParen (l :: front ++ right :: rest) = none := by
      have hstring : l.token = .string v := hl
      rw [List.cons_append, takeToken, hstring]
      rfl
    have hvalue : stringLiteral "quoted enum value" (l :: front ++ right :: rest) =
        .ok (v, front ++ right :: rest) := stringLiteral_eq_ok_iff.2 ⟨l, rfl, hl⟩
    have hmore : moreEnumValues (front ++ right :: rest) = .ok (vs, rest) :=
      moreEnumValues_eq_ok_iff.2 ⟨front, right, rfl, hfront, hright⟩
    rw [enumValues, hclose]
    simp only [hvalue, hmore, bind, Except.bind]
    rfl

theorem notNext_of_isKeyword {t : Token} {l : Lexeme} {k : String} (h : l.token.isKeyword k = true)
    (ht : t.isKeyword k = false) (rest : List Lexeme) : NotNext t (l :: rest) := by
  refine notNext_cons (fun heq => ?_) rest
  rw [heq, ht] at h
  cases h

theorem createType_eq_ok_iff {text : List Char} {r : Option Entry} :
    createType true text ls = .ok r ↔ ∃ e, r = some e ∧ UpToEnding EnumForm ls e := by
  constructor
  · intro h
    obtain ⟨⟨key, behind⟩, hkey, hrun⟩ := bind_eq_ok_iff.1 h
    obtain ⟨behind', hkeyword, hrun⟩ := bind_eq_ok_iff.1 hrun
    simp only at hrun
    split at hrun
    · cases hrun
    · rename_i behind'' htake
      obtain ⟨vs, hlist, hrun⟩ := bind_eq_ok_iff.1 hrun
      split at hrun
      · cases hrun
      · rename_i hne
        cases hrun
        obtain ⟨opened, hopen, hlist⟩ := bind_eq_ok_iff.1 (mapError_eq_ok_iff.1 hlist)
        obtain ⟨⟨vs, rest⟩, hread, hlist⟩ := bind_eq_ok_iff.1 hlist
        obtain ⟨_, hfinish, hlist⟩ := bind_eq_ok_iff.1 hlist
        cases hlist
        have hvs : vs ≠ [] := by simpa using hne
        obtain ⟨type, rfl, htype, -⟩ := qualifiedName_eq_ok_iff.1 (mapError_eq_ok_iff.1 hkey)
        obtain ⟨as, rfl, has⟩ := expectKeyword_eq_ok_iff.1 (mapError_eq_ok_iff.1 hkeyword)
        obtain ⟨enum, rfl, henum⟩ := takeKeyword_eq_some_iff.1 htake
        obtain ⟨left, rfl, hleft⟩ := expectToken_eq_ok_iff.1 hopen
        obtain ⟨values, right, rfl, hvalues, hright⟩ := (enumValues_eq_ok_iff hvs).1 hread
        refine ⟨_, rfl, type ++ as :: enum :: left :: (values ++ [right]), rest, by simp, ?_,
          finish_eq_ok_iff.1 hfinish⟩
        exact .mk htype has henum hleft hvalues hright
  · rintro ⟨e, rfl, _, rest, rfl, ⟨htype, has, henum, hleft, hvalues, hright⟩, hending⟩
    rename_i type values as enum left right key vs
    have hvs : vs ≠ [] := by
      cases hvalues
      exact List.cons_ne_nil _ _
    have hsplit : type ++ as :: enum :: left :: (values ++ [right]) ++ rest =
        type ++ as :: enum :: left :: (values ++ right :: rest) := by simp
    have hkey : qualifiedName "type name" (type ++ as :: enum :: left :: (values ++ right :: rest)) =
        .ok (key, as :: enum :: left :: (values ++ right :: rest)) :=
      qualifiedName_eq_ok_iff.2 ⟨type, rfl, htype, notNext_of_isKeyword has rfl _⟩
    have henum' : takeKeywords ["ENUM"] (enum :: left :: (values ++ right :: rest)) =
        some (left :: (values ++ right :: rest)) := takeKeyword_eq_some_iff.2 ⟨enum, rfl, henum⟩
    rw [hsplit]
    refine bind_eq_ok_iff.2 ⟨_, mapError_eq_ok_iff.2 hkey, ?_⟩
    refine bind_eq_ok_iff.2 ⟨_, mapError_eq_ok_iff.2 (expectKeyword_eq_ok_iff.2 ⟨as, rfl, has⟩), ?_⟩
    simp only [henum']
    refine bind_eq_ok_iff.2 ⟨vs, mapError_eq_ok_iff.2 ?_, ?_⟩
    · refine bind_eq_ok_iff.2 ⟨_, expectToken_eq_ok_iff.2 ⟨left, rfl, hleft⟩, ?_⟩
      refine bind_eq_ok_iff.2 ⟨_, (enumValues_eq_ok_iff hvs).2 ⟨values, right, rfl, hvalues, hright⟩, ?_⟩
      exact bind_eq_ok_iff.2 ⟨(), finish_eq_ok_iff.2 hending, rfl⟩
    · rw [List.isEmpty_eq_false_iff.2 hvs]
      rfl

/-! ## Comments -/

theorem commentText_eq_ok_iff {text : Option String} :
    commentText ls = .ok text ↔ UpToEnding CommentPhrase ls text := by
  constructor
  · intro h
    obtain ⟨behind, hkeyword, hrun⟩ := bind_eq_ok_iff.1 h
    obtain ⟨is, rfl, his⟩ := expectKeyword_eq_ok_iff.1 hkeyword
    split at hrun
    · rename_i rest hnull
      obtain ⟨_, hfinish, hrun⟩ := bind_eq_ok_iff.1 hrun
      cases hrun
      obtain ⟨l, rfl, hl⟩ := takeKeyword_eq_some_iff.1 hnull
      exact ⟨[is, l], rest, rfl, .null his hl, finish_eq_ok_iff.1 hfinish⟩
    · obtain ⟨⟨s, rest⟩, hstring, hrun⟩ := bind_eq_ok_iff.1 hrun
      obtain ⟨_, hfinish, hresult⟩ := bind_eq_ok_iff.1 hrun
      obtain ⟨l, rfl, hl⟩ := stringLiteral_eq_ok_iff.1 hstring
      refine ⟨[is, l], rest, rfl, ?_, finish_eq_ok_iff.1 hfinish⟩
      by_cases hs : s = ""
      · subst hs
        cases hresult
        exact .empty his hl
      · rw [if_neg fun heq => hs (eq_of_beq heq)] at hresult
        cases hresult
        exact .text his hl hs
  · rintro ⟨front, rest, rfl, hfront, hending⟩
    have hfinish : finish "statement" rest = .ok () := finish_eq_ok_iff.2 hending
    -- empty or not, a literal is read alike up to here
    have hliteral {is l : Lexeme} {s : String} (his : is.token.isKeyword "IS" = true)
        (hl : SpellsString l.token s) :
        commentText ([is, l] ++ rest) = .ok (if s == "" then none else some s) := by
      have hnull : takeKeywords ["NULL"] (l :: rest) = none := by
        have hstring : l.token = .string s := hl
        rw [takeKeywords, hstring]
        rfl
      refine bind_eq_ok_iff.2 ⟨l :: rest, expectKeyword_eq_ok_iff.2 ⟨is, rfl, his⟩, ?_⟩
      rw [hnull]
      refine bind_eq_ok_iff.2 ⟨_, stringLiteral_eq_ok_iff.2 ⟨l, rfl, hl⟩, ?_⟩
      exact bind_eq_ok_iff.2 ⟨(), hfinish, rfl⟩
    cases hfront with
    | text his hl hs =>
      rw [hliteral his hl, if_neg fun heq => hs (eq_of_beq heq)]
    | empty his hl => exact hliteral his hl
    | @null is l his hl =>
      refine bind_eq_ok_iff.2 ⟨l :: rest, expectKeyword_eq_ok_iff.2 ⟨is, rfl, his⟩, ?_⟩
      rw [takeKeyword_eq_some_iff.2 ⟨l, rfl, hl⟩]
      exact bind_eq_ok_iff.2 ⟨(), hfinish, rfl⟩

theorem CommentPhrase.notNext {text : Option String} (h : CommentPhrase ls text) (rest : List Lexeme) :
    NotNext .dot (ls ++ rest) := by
  cases h with
  | text his => exact notNext_of_isKeyword his rfl _
  | empty his => exact notNext_of_isKeyword his rfl _
  | null his => exact notNext_of_isKeyword his rfl _

theorem commentOnTable_eq_ok_iff : commentOnTable ls = .ok e ↔ UpToEnding TableCommentForm ls e := by
  rw [commentOnTable, inContext, mapError_eq_ok_iff]
  constructor
  · intro h
    obtain ⟨⟨key, behind⟩, hkey, hrun⟩ := bind_eq_ok_iff.1 h
    obtain ⟨text, htext, hrun⟩ := bind_eq_ok_iff.1 hrun
    cases hrun
    obtain ⟨table, rfl, htable, -⟩ := qualifiedName_eq_ok_iff.1 hkey
    obtain ⟨comment, rest, rfl, hcomment, hending⟩ := commentText_eq_ok_iff.1 htext
    exact ⟨table ++ comment, rest, by simp, .mk htable hcomment, hending⟩
  · rintro ⟨_, rest, rfl, ⟨htable, hcomment⟩, hending⟩
    rw [List.append_assoc]
    refine bind_eq_ok_iff.2 ⟨_, qualifiedName_eq_ok_iff.2 ⟨_, rfl, htable, hcomment.notNext rest⟩, ?_⟩
    exact bind_eq_ok_iff.2 ⟨_, commentText_eq_ok_iff.2 ⟨_, rest, rfl, hcomment, hending⟩, rfl⟩

theorem columnOfParts?_eq_some_iff {first : String} {more : List String} {key : QualifiedName}
    {n : String} : QualifiedName.columnOfParts? first more = some (key, n) ↔
      ∃ front, more = front ++ [n] ∧ QualifiedName.ofParts first front = key := by
  cases more with
  | nil => simp [QualifiedName.columnOfParts?]
  | cons part more =>
    rw [QualifiedName.columnOfParts?]
    constructor
    · intro h
      cases h
      exact ⟨_, (List.dropLast_append_getLast _).symm, rfl⟩
    · rintro ⟨front, heq, rfl⟩
      simp only [heq, List.dropLast_concat, List.getLast_concat]

theorem commentOnColumn_eq_ok_iff : commentOnColumn ls = .ok e ↔ UpToEnding ColumnCommentForm ls e := by
  rw [commentOnColumn, inContext, mapError_eq_ok_iff]
  constructor
  · intro h
    obtain ⟨⟨⟨first, more⟩, behind⟩, hnames, hrun⟩ := bind_eq_ok_iff.1 h
    simp only at hrun
    split at hrun
    · cases hrun
    · rename_i key n hcolumn
      obtain ⟨text, htext, hrun⟩ := bind_eq_ok_iff.1 hrun
      cases hrun
      obtain ⟨front, rfl, hfront⟩ := columnOfParts?_eq_some_iff.1 hcolumn
      obtain ⟨_, rfl, @⟨l, _, _, _, hl, hmore⟩, -⟩ := names_eq_ok_iff.1 hnames
      obtain ⟨dotted, dot, column, rfl, hdotted, hdot, hname⟩ := behind_concat_iff.1 hmore
      obtain ⟨comment, rest, rfl, hcomment, hending⟩ := commentText_eq_ok_iff.1 htext
      refine ⟨l :: dotted ++ dot :: column :: comment, rest, by simp, ?_, hending⟩
      exact .mk ⟨_, .mk hl hdotted, qualifies_iff.2 hfront⟩ hdot hname hcomment
  · rintro ⟨_, rest, rfl, ⟨⟨parts, hparts, hkey⟩, hdot, hcolumn, hcomment⟩, hending⟩
    rename_i table comment dot column key n text
    cases hparts with
    | @mk l ls first more hl hmore =>
      have hnames : names .dot "column name" (l :: ls ++ dot :: column :: comment ++ rest) =
          .ok ((first, more ++ [n]), comment ++ rest) := by
        refine names_eq_ok_iff.2 ⟨l :: (ls ++ [dot, column]), by simp, .mk hl ?_, hcomment.notNext rest⟩
        exact behind_concat_iff.2 ⟨ls, dot, column, rfl, hmore, hdot, hcolumn⟩
      refine bind_eq_ok_iff.2 ⟨_, hnames, ?_⟩
      simp only [columnOfParts?_eq_some_iff.2 ⟨more, rfl, qualifies_iff.1 hkey⟩]
      exact bind_eq_ok_iff.2 ⟨_, commentText_eq_ok_iff.2 ⟨comment, rest, rfl, hcomment, hending⟩, rfl⟩

/-! ## Foreign keys -/

theorem nameList_singleton_iff {what n : String} :
    nameList what ls = .ok ([n], rest) ↔ ∃ front, ls = front ++ rest ∧ EnclosedName front n := by
  rw [nameList_eq_ok_iff]
  constructor
  · rintro ⟨left, _, right, rfl, hleft, ⟨hl, hmore⟩, hright⟩
    cases hmore
    exact ⟨_, rfl, .mk hleft hl hright⟩
  · rintro ⟨_, rfl, ⟨hleft, hl, hright⟩⟩
    exact ⟨_, _, _, rfl, hleft, .mk hl .nil, hright⟩

theorem foreignKeyItem_eq_ok_iff {table : QualifiedName} {constraint : Option String} {item : TableItem} :
    foreignKeyItem table constraint ls = .ok item ↔
      ∃ fk, item = .foreignKey fk ∧ UpToEnding (ForeignKeyClause table constraint) ls fk := by
  constructor
  · intro h
    obtain ⟨⟨names, _⟩, hsource, hrun⟩ := bind_eq_ok_iff.1 (mapError_eq_ok_iff.1 h)
    obtain ⟨_, hreferences, hrun⟩ := bind_eq_ok_iff.1 hrun
    obtain ⟨⟨key, _⟩, htarget, hrun⟩ := bind_eq_ok_iff.1 hrun
    obtain ⟨⟨columns, _⟩, hcolumns, hrun⟩ := bind_eq_ok_iff.1 hrun
    simp only at hrun
    split at hrun
    · rename_i n n'
      obtain ⟨⟨_, rest⟩, hactions, hrun⟩ := bind_eq_ok_iff.1 hrun
      obtain ⟨_, hfinish, hresult⟩ := bind_eq_ok_iff.1 hrun
      cases hresult
      obtain ⟨source, rfl, hfrom⟩ := nameList_singleton_iff.1 hsource
      obtain ⟨references, rfl, hkeyword⟩ := expectKeyword_eq_ok_iff.1 hreferences
      obtain ⟨target, rfl, hqualified, -⟩ := qualifiedName_eq_ok_iff.1 htarget
      obtain ⟨targetColumn, rfl, hcolumn⟩ := nameList_singleton_iff.1 hcolumns
      obtain ⟨actions, rs, rfl, hreactions, -, rfl⟩ := referenceActions_eq_ok_iff.1 hactions
      refine ⟨_, rfl, source ++ references :: (target ++ (targetColumn ++ actions)), rest, by simp, ?_,
        finish_eq_ok_iff.1 hfinish⟩
      have hclause : ForeignKeyClause table constraint _ _ :=
        .mk hfrom hkeyword hqualified hcolumn hreactions
      simpa [ReferenceActions.replacedBy] using hclause
    · cases hrun
  · rintro ⟨fk, rfl, _, rest, rfl, ⟨hsource, hreferences, htarget, hcolumn, hactions⟩, hending⟩
    rename_i source target targetColumn actions references n n' key rs
    have hrest : takeKeywords ["ON"] rest = none := takeKeywords_of_head (hending.not_keyword "ON")
    have hbehind : NotNext .dot (targetColumn ++ (actions ++ rest)) := by
      cases hcolumn with
      | mk hleft => exact notNext_cons (by rw [hleft]; exact Token.noConfusion) _
    simp only [List.append_assoc, List.cons_append]
    refine mapError_eq_ok_iff.2 ?_
    refine bind_eq_ok_iff.2 ⟨_, nameList_singleton_iff.2 ⟨source, rfl, hsource⟩, ?_⟩
    refine bind_eq_ok_iff.2 ⟨_, expectKeyword_eq_ok_iff.2 ⟨references, rfl, hreferences⟩, ?_⟩
    refine bind_eq_ok_iff.2 ⟨_, qualifiedName_eq_ok_iff.2 ⟨target, rfl, htarget, hbehind⟩, ?_⟩
    refine bind_eq_ok_iff.2 ⟨_, nameList_singleton_iff.2 ⟨targetColumn, rfl, hcolumn⟩, ?_⟩
    refine bind_eq_ok_iff.2 ⟨_, referenceActions_eq_ok_iff.2 ⟨actions, rs, rfl, hactions, hrest, rfl⟩, ?_⟩
    refine bind_eq_ok_iff.2 ⟨(), finish_eq_ok_iff.2 hending, ?_⟩
    simp only [ReferenceActions.replacedBy, Option.or_none]
    rfl

end Statements

/-! ## Statements -/

/-- What stands behind the keywords that a statement starts with. -/
def bodyForm : StatementKind → List Lexeme → Entry → Prop
  | .createSchema => SchemaForm
  | .createType => EnumForm
  | .createTable => fun _ _ => False
  | .commentOnTable => TableCommentForm
  | .commentOnColumn => ColumnCommentForm

theorem statementForm_iff {ls : List Lexeme} {e : Entry} : StatementForm ls e ↔
    ∃ rule ∈ statementRules, ∃ head body, ls = head ++ body ∧ AreKeywords rule.1 head ∧
      bodyForm rule.2 body e := by
  constructor
  · rintro (⟨hhead, hbody⟩ | ⟨hhead, hbody⟩ | ⟨hhead, hbody⟩ | ⟨hhead, hbody⟩)
    · exact ⟨(_, .createSchema), by decide, _, _, rfl, hhead, hbody⟩
    · exact ⟨(_, .createType), by decide, _, _, rfl, hhead, hbody⟩
    · exact ⟨(_, .commentOnTable), by decide, _, _, rfl, hhead, hbody⟩
    · exact ⟨(_, .commentOnColumn), by decide, _, _, rfl, hhead, hbody⟩
  · rintro ⟨⟨heading, kind⟩, hrule, head, body, rfl, hhead, hbody⟩
    simp only [statementRules, List.mem_cons, Prod.mk.injEq, List.not_mem_nil, or_false] at hrule
    rcases hrule with ⟨rfl, rfl⟩ | ⟨rfl, rfl⟩ | ⟨rfl, rfl⟩ | ⟨rfl, rfl⟩ | ⟨rfl, rfl⟩
    · exact .createSchema hhead hbody
    · exact .createType hhead hbody
    · exact hbody.elim
    · exact .commentOnTable hhead hbody
    · exact .commentOnColumn hhead hbody

section Rules

variable {text : List Char} {ls rest : List Lexeme} {heading : List String} {inferId : Bool}

/-- A rule whose keywords stand at the front is the one that matches, if no two rules agree. -/
theorem dispatch_eq_some {κ : Type} {rules : List (List String × κ)} {kind : κ}
    (hdistinct : ∀ x ∈ rules, ∀ y ∈ rules, agree x.1 y.1 = true → x = y) (hrule : (heading, kind) ∈ rules)
    (h : takeKeywords heading ls = some rest) : dispatch rules ls = some (kind, rest) :=
  findSome?_takeKeywords Prod.fst Prod.snd hdistinct hrule h

theorem statementRules_distinct :
    ∀ x ∈ statementRules, ∀ y ∈ statementRules, agree x.1 y.1 = true → x = y := by
  decide

/-- Behind the heading of its kind a statement is in the form of that kind. -/
theorem upToEnding_statementForm_iff {kind : StatementKind} (hrule : (heading, kind) ∈ statementRules)
    (h : takeKeywords heading ls = some rest) {e : Entry} :
    UpToEnding StatementForm ls e ↔ UpToEnding (bodyForm kind) rest e := by
  constructor
  · rintro ⟨front, ending, rfl, hform, hending⟩
    obtain ⟨rule, hmem, head, body, rfl, hhead, hbody⟩ := statementForm_iff.1 hform
    rw [List.append_assoc] at h
    have htake := hhead.take (body ++ ending)
    -- two headings at the front of one statement agree, and so are the same
    obtain rfl := statementRules_distinct _ hrule _ hmem (agree_of_takeKeywords h htake)
    cases h.symm.trans htake
    exact ⟨body, ending, rfl, hbody, hending⟩
  · rintro ⟨body, ending, rfl, hbody, hending⟩
    obtain ⟨head, rfl, hhead⟩ := takeKeywords_eq_some_iff.1 h
    refine ⟨head ++ body, ending, (List.append_assoc _ _ _).symm, ?_, hending⟩
    exact statementForm_iff.2 ⟨(heading, kind), hrule, head, body, rfl, hhead, hbody⟩

/-- Strict reading of a statement with such a heading. -/
theorem readStatement_of_heading_iff {kind : StatementKind} (hrule : (heading, kind) ∈ statementRules)
    (hkind : kind ≠ .createTable) (hlex : lex text = .ok ls) (h : takeKeywords heading ls = some rest)
    {isDefined : QualifiedName → Bool} {r : Option Entry} :
    readStatement { strict := true, inferId } isDefined text = .ok r ↔
      ∃ e, r = some e ∧ UpToEnding (bodyForm kind) rest e := by
  have hdispatch : dispatch statementRules ls = some (kind, rest) :=
    dispatch_eq_some statementRules_distinct hrule h
  have hheading : ∀ rule ∈ statementRules, rule.1 ≠ [] := by decide
  have hwords : (ls.all fun l => l.token == .semicolon) = false := by
    obtain ⟨front, rfl, hfront⟩ := takeKeywords_eq_some_iff.1 h
    obtain ⟨k, ks, rfl⟩ := List.exists_cons_of_ne_nil (hheading _ hrule)
    obtain ⟨l, front, rfl, hl, -⟩ := areKeywords_cons.1 hfront
    have hne : (l.token == .semicolon) = false := by
      rw [beq_eq_false_iff_ne]
      intro heq
      rw [heq] at hl
      cases hl
    rw [List.cons_append, List.all_cons, hne, Bool.false_and]
  have hrecorded {x : Except String Entry} {form : List Lexeme → Entry → Prop}
      (hx : ∀ e, x = .ok e ↔ UpToEnding form rest e) :
      (x >>= fun e => .ok (some e)) = .ok r ↔ ∃ e, r = some e ∧ UpToEnding form rest e := by
    rw [bind_eq_ok_iff]
    refine exists_congr fun e => ?_
    rw [hx, Except.ok.injEq, and_comm]
    exact and_congr_left' eq_comm
  rw [readStatement, hlex, mapError_ok]
  simp only [bind, Except.bind, hwords, hdispatch]
  rw [if_neg Bool.false_ne_true]
  cases kind with
  | createSchema => exact hrecorded fun e => createSchema_eq_ok_iff
  | createType => exact createType_eq_ok_iff
  | createTable => exact absurd rfl hkind
  | commentOnTable => exact hrecorded fun e => commentOnTable_eq_ok_iff
  | commentOnColumn => exact hrecorded fun e => commentOnColumn_eq_ok_iff

end Rules

/-! ## What strict reading accepts -/

/-- The headings of statements, that of a table aside. -/
def statementHeadings : List (List String) :=
  [["CREATE", "SCHEMA"], ["CREATE", "TYPE"], ["COMMENT", "ON", "TABLE"], ["COMMENT", "ON", "COLUMN"]]

/-- An item that starts with `FOREIGN KEY`, behind the name of a constraint if it has one. -/
inductive StartsForeignKey : List Lexeme → Prop
  | unnamed {ls : List Lexeme} : (takeKeywords ["FOREIGN", "KEY"] ls).isSome → StartsForeignKey ls
  | named {constraint name : Lexeme} {ls : List Lexeme} {n : String} :
    constraint.token.isKeyword "CONSTRAINT" = true → SpellsName name.token n →
      (takeKeywords ["FOREIGN", "KEY"] ls).isSome → StartsForeignKey (constraint :: name :: ls)

section Accepted

variable {text : List Char} {ls : List Lexeme} {inferId : Bool}

theorem itemRules_distinct : ∀ x ∈ itemRules, ∀ y ∈ itemRules, agree x.1 y.1 = true → x = y := by
  decide

theorem upToEnding_unnamed_iff {table : QualifiedName} {rest : List Lexeme} {fk : ForeignKeyDraft}
    (h : takeKeywords ["FOREIGN", "KEY"] ls = some rest) :
    UpToEnding (ForeignKeyForm table) ls fk ↔ UpToEnding (ForeignKeyClause table none) rest fk := by
  constructor
  · rintro ⟨_, ending, rfl, hform, hending⟩
    cases hform with
    | unnamed hhead hclause =>
      rw [List.append_assoc, hhead.take] at h
      cases h
      exact ⟨_, ending, rfl, hclause, hending⟩
    | @named head ls' constraint name n _ hconstraint =>
      have htake : takeKeywords ["CONSTRAINT"] (constraint :: name :: (head ++ ls') ++ ending) =
          some (name :: (head ++ ls') ++ ending) :=
        takeKeyword_eq_some_iff.2 ⟨constraint, rfl, hconstraint⟩
      exact absurd (agree_of_takeKeywords h htake) (by decide)
  · rintro ⟨body, ending, rfl, hclause, hending⟩
    obtain ⟨head, rfl, hhead⟩ := takeKeywords_eq_some_iff.1 h
    exact ⟨head ++ body, ending, (List.append_assoc _ _ _).symm, .unnamed hhead hclause, hending⟩

theorem upToEnding_named_iff {table : QualifiedName} {constraint name : Lexeme} {n : String}
    {rest : List Lexeme} {fk : ForeignKeyDraft} (hconstraint : constraint.token.isKeyword "CONSTRAINT" = true)
    (hname : SpellsName name.token n) (h : takeKeywords ["FOREIGN", "KEY"] ls = some rest) :
    UpToEnding (ForeignKeyForm table) (constraint :: name :: ls) fk ↔
      UpToEnding (ForeignKeyClause table (some n)) rest fk := by
  constructor
  · rintro ⟨front, ending, heq, hform, hending⟩
    cases hform with
    | unnamed hhead hclause =>
      have htake : takeKeywords ["CONSTRAINT"] (constraint :: name :: ls) = some (name :: ls) :=
        takeKeyword_eq_some_iff.2 ⟨constraint, rfl, hconstraint⟩
      rw [heq, List.append_assoc] at htake
      exact absurd (agree_of_takeKeywords (hhead.take _) htake) (by decide)
    | @named head ls' constraint' name' n' _ _ hname' hhead hclause =>
      obtain ⟨-, hmore⟩ := List.cons.inj heq
      obtain ⟨rfl, hls⟩ := List.cons.inj hmore
      obtain rfl : n = n' := Option.some.inj (hname.symm.trans hname')
      have htake : takeKeywords ["FOREIGN", "KEY"] ls = some (ls' ++ ending) := by
        rw [hls]
        exact (congrArg _ (List.append_assoc head ls' ending)).trans (hhead.take _)
      obtain rfl : rest = ls' ++ ending := Option.some.inj (h.symm.trans htake)
      exact ⟨ls', ending, rfl, hclause, hending⟩
  · rintro ⟨body, ending, rfl, hclause, hending⟩
    obtain ⟨head, rfl, hhead⟩ := takeKeywords_eq_some_iff.1 h
    refine ⟨constraint :: name :: (head ++ body), ending, by simp, ?_, hending⟩
    exact .named hconstraint hname hhead hclause

theorem tableItem_foreignKey_iff (hlex : lex text = .ok ls) (h : StartsForeignKey ls)
    {table : QualifiedName} {item : TableItem} :
    tableItem { strict := true, inferId } table text = .ok item ↔
      ∃ fk, item = .foreignKey fk ∧ UpToEnding (ForeignKeyForm table) ls fk := by
  rw [tableItem, hlex, mapError_ok]
  cases h with
  | unnamed hsome =>
    obtain ⟨rest, hrest⟩ := Option.isSome_iff_exists.1 hsome
    have hdispatch : dispatch itemRules ls = some (.foreignKey, rest) :=
      dispatch_eq_some itemRules_distinct (by decide) hrest
    simp only [bind, Except.bind, hdispatch, upToEnding_unnamed_iff hrest]
    exact foreignKeyItem_eq_ok_iff
  | @named constraint name ls n hconstraint hname hsome =>
    obtain ⟨rest, hrest⟩ := Option.isSome_iff_exists.1 hsome
    have hdispatch : dispatch itemRules (constraint :: name :: ls) = some (.named, name :: ls) :=
      dispatch_eq_some itemRules_distinct (by decide) (takeKeyword_eq_some_iff.2 ⟨_, rfl, hconstraint⟩)
    have hread : Script.name "constraint name" (name :: ls) = .ok (n, ls) :=
      name_eq_ok_iff.2 ⟨name, rfl, hname⟩
    simp only [bind, Except.bind, hdispatch, namedItem, hread, inContext, mapError_ok, hrest,
      upToEnding_named_iff hconstraint hname hrest]
    exact foreignKeyItem_eq_ok_iff

/-- Strict reading accepts exactly the grammar of statements, and of foreign keys, and declares what is
derived in it. -/
theorem strict_accepts_iff (inferId : Bool) {text : List Char} {ls : List Lexeme}
    (hlex : lex text = .ok ls) :
    (∀ heading ∈ statementHeadings, (takeKeywords heading ls).isSome →
      (∀ isDefined r, readStatement { strict := true, inferId } isDefined text = .ok r ↔
        ∃ e, r = some e ∧ UpToEnding StatementForm ls e) ∧
      ∀ (d d' : Draft) (line : Nat),
        Draft.readNext { strict := true, inferId } d ⟨line, text⟩ = .ok d' ↔
          ∃ e, UpToEnding StatementForm ls e ∧ d' = d.add e) ∧
    (StartsForeignKey ls → ∀ table item,
      tableItem { strict := true, inferId } table text = .ok item ↔
        ∃ fk, item = .foreignKey fk ∧ UpToEnding (ForeignKeyForm table) ls fk) := by
  refine ⟨fun heading hmem hsome => ?_, fun hstarts table item => tableItem_foreignKey_iff hlex hstarts⟩
  obtain ⟨rest, hrest⟩ := Option.isSome_iff_exists.1 hsome
  have hrules : ∀ heading ∈ statementHeadings, ∃ rule ∈ statementRules,
      rule.1 = heading ∧ rule.2 ≠ .createTable := by decide
  obtain ⟨⟨_, kind⟩, hrule, rfl, hkind⟩ := hrules heading hmem
  have hread (isDefined : QualifiedName → Bool) (r : Option Entry) :
      readStatement { strict := true, inferId } isDefined text = .ok r ↔
        ∃ e, r = some e ∧ UpToEnding StatementForm ls e := by
    simp only [upToEnding_statementForm_iff hrule hrest]
    exact readStatement_of_heading_iff hrule hkind hlex hrest
  refine ⟨hread, fun d d' line => ?_⟩
  constructor
  · intro h
    rw [Draft.readNext] at h
    split at h
    · cases h
    · rename_i r hr
      obtain ⟨e, rfl, he⟩ := (hread _ r).1 hr
      cases h
      exact ⟨e, he, rfl⟩
  · rintro ⟨e, he, rfl⟩
    rw [Draft.readNext, (hread d.definesTable (some e)).2 ⟨e, rfl, he⟩]
    rfl

/-- A schema and a role that are called like the keywords in their places, and a foreign key that goes
by the last of its two actions. -/
theorem strict_accepts_iff_keywords :
    ∃ ls ls' : List Lexeme,
      lex "CREATE SCHEMA IF AUTHORIZATION authorization;".toList = .ok ls ∧
      (takeKeywords ["CREATE", "SCHEMA"] ls).isSome ∧
      lex "FOREIGN KEY (\"on\") REFERENCES a.b (c) on delete cascade ON DELETE SET NULL".toList = .ok ls' ∧
      StartsForeignKey ls' ∧
      readStatement { strict := true, inferId := true } (fun _ => false)
        "CREATE SCHEMA IF AUTHORIZATION authorization;".toList = .ok (some (.schema "IF")) ∧
      tableItem { strict := true, inferId := true } ⟨defaultSchema, "t"⟩
        "FOREIGN KEY (\"on\") REFERENCES a.b (c) on delete cascade ON DELETE SET NULL".toList =
        .ok (.foreignKey { name := "t_on_fkey", fromColumn := "on", target := ⟨"a", "b"⟩
                           targetColumn := "c", onDelete := some .setNull, onUpdate := none }) := by
  let head : List Lexeme := [Ddl.keyword [] "CREATE", Ddl.keyword [' '] "SCHEMA"]
  let owner : List Lexeme := [Ddl.keyword [' '] "AUTHORIZATION", Ddl.keyword [' '] "authorization"]
  let ending : List Lexeme := [⟨[], [';'], .semicolon⟩]
  let body : List Lexeme := Ddl.keyword [' '] "IF" :: owner
  let head' : List Lexeme := [Ddl.keyword [] "FOREIGN", Ddl.keyword [' '] "KEY"]
  let source : List Lexeme := [Ddl.openParen [' '], Ddl.quotedName [] "on", Ddl.closeParen []]
  let target : List Lexeme := [Ddl.keyword [' '] "a", ⟨[], ['.'], .dot⟩, Ddl.keyword [] "b"]
  let targetColumn : List Lexeme := [Ddl.openParen [' '], Ddl.keyword [] "c", Ddl.closeParen []]
  let actions : List Lexeme :=
    [Ddl.keyword [' '] "on", Ddl.keyword [' '] "delete"] ++ ([Ddl.keyword [' '] "cascade"] ++
      ([Ddl.keyword [' '] "ON", Ddl.keyword [' '] "DELETE"] ++
        ([Ddl.keyword [' '] "SET", Ddl.keyword [' '] "NULL"] ++ [])))
  let body' : List Lexeme :=
    source ++ Ddl.keyword [' '] "REFERENCES" :: (target ++ (targetColumn ++ actions))
  have hlex : lex "CREATE SCHEMA IF AUTHORIZATION authorization;".toList = .ok (head ++ body ++ ending) :=
    toOption_eq_some_iff.1 (by decide +kernel)
  have hlex' : lex "FOREIGN KEY (\"on\") REFERENCES a.b (c) on delete cascade ON DELETE SET NULL".toList =
      .ok (head' ++ body' ++ []) := toOption_eq_some_iff.1 (by decide +kernel)
  have hheading : (takeKeywords ["CREATE", "SCHEMA"] (head ++ body ++ ending)).isSome := by decide
  have hstarts : StartsForeignKey (head' ++ body' ++ []) := .unnamed (by decide)
  have howner : OwnerPhrase owner := .role rfl (rfl : SpellsName (.word "authorization") "authorization")
  have hguard : OptionalKeywords ["IF", "NOT", "EXISTS"] [] := .absent
  have hform : StatementForm (head ++ body) (.schema "IF") := .createSchema rfl (.mk hguard rfl howner)
  have hreactions : Reactions actions [(.delete, .cascade), (.delete, .setNull)] :=
    .cons rfl rfl (.cons rfl rfl .nil)
  have htarget : QualifiedPhrase target ⟨"a", "b"⟩ :=
    ⟨["a", "b"], .mk rfl (.cons rfl rfl .nil), rfl, rfl⟩
  have hsource : EnclosedName source "on" := .mk rfl rfl rfl
  have hcolumn : EnclosedName targetColumn "c" := .mk rfl rfl rfl
  have hreferences : (Ddl.keyword [' '] "REFERENCES").token.isKeyword "REFERENCES" = true := rfl
  have hform' : ForeignKeyForm ⟨defaultSchema, "t"⟩ (head' ++ body') _ :=
    .unnamed rfl (.mk hsource hreferences htarget hcolumn hreactions)
  refine ⟨_, _, hlex, hheading, hlex', hstarts, ?_, ?_⟩
  · have hread := ((strict_accepts_iff true hlex).1 _ (by decide) hheading).1
    exact (hread _ _).2 ⟨_, rfl, _, ending, rfl, hform, .semicolon rfl⟩
  · exact ((strict_accepts_iff true hlex').2 hstarts _ _).2 ⟨_, rfl, _, [], rfl, hform', .nothing⟩

end Accepted

end SchemaDdl.Script
