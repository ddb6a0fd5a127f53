import SchemaDdl.Proofs.Cursor.Columns

/-!
# Table items from a cursor

A text is scanned, its first keywords choose what it is, and a cursor that is set behind them reads the
rest.
-/

namespace SchemaDdl.Script

open Attempt

/-- The first rule whose keywords the tokens start with, and how many tokens they are. -/
def dispatchTokens {κ : Type} (rules : List (List String × κ)) (tokens : List Span) :
    Option (κ × Nat) :=
  rules.findSome? fun rule =>
    if rule.1.length ≤ tokens.length &&
        (rule.1.zip tokens).all fun p => p.2.token.isKeyword p.1 then
      some (rule.2, rule.1.length)
    else none

namespace Cursor

def ofText (text : List Char) : Attempt String Cursor := do
  let tokens ← (Scanner.tokenize text).adapt LexError.message
  return ⟨text, tokens, 0⟩

def primaryKeyItem (c : Cursor) : Attempt String TableItem :=
  Attempt.inContext "PRIMARY KEY" do
    let (columns, c) ← c.identList "primary key columns"
    c.finish "PRIMARY KEY clause"
    return .primaryKey columns

def uniqueItem (c : Cursor) : Attempt String TableItem :=
  Attempt.inContext "UNIQUE" do
    let (columns, c) ← c.identList "unique columns"
    c.finish "UNIQUE clause"
    return .unique columns

/-- Reads what happens to a reference if `ON` is next. -/
def actionsPass (state : ReferenceActions × Cursor) :
    Attempt String (Turn (ReferenceActions × Cursor) (ReferenceActions × Cursor)) :=
  match state.2.eatKeywords? ["ON"] with
  | none => return .done state
  | some c =>
    if let some c := c.eatKeywords? ["DELETE"] then do
      let (a, c) ← c.referentialAction
      return .again ({ state.1 with onDelete := some a }, c)
    else if let some c := c.eatKeywords? ["UPDATE"] then do
      let (a, c) ← c.referentialAction
      return .again ({ state.1 with onUpdate := some a }, c)
    else throw "expected DELETE or UPDATE after ON"

def foreignKeyItem (c : Cursor) (table : QualifiedName) (constraint : Option String) :
    Attempt String TableItem :=
  let context := match constraint with
    | some name => s!"constraint \"{name}\""
    | none => s!"foreign key in {table.spelling}"
  Attempt.inContext context do
    let (source, c) ← c.identList "foreign key column"
    let c ← c.expectKeywords ["REFERENCES"]
    let (target, c) ← c.qualified "referenced table"
    let (targetColumns, c) ← c.identList "referenced column"
    match source, targetColumns with
    | [fromColumn], [targetColumn] =>
      let (actions, c) ← repeatedly (fun state => state.2.left) actionsPass ({}, c)
      c.finish "foreign key clause"
      return .foreignKey
        { name := constraint.getD s!"{table.name}_{fromColumn}_fkey", fromColumn, target
          targetColumn, onDelete := actions.onDelete, onUpdate := actions.onUpdate }
    | _, _ => throw "composite foreign keys are not supported"

def namedItem (c : Cursor) (strict : Bool) (table : QualifiedName) : Attempt String TableItem := do
  let (name, c) ← Attempt.inContext "CONSTRAINT" (c.ident "constraint name")
  if let some c := c.eatKeywords? ["FOREIGN", "KEY"] then c.foreignKeyItem table (some name)
  else if let some c := c.eatKeywords? ["PRIMARY", "KEY"] then c.primaryKeyItem
  else if let some c := c.eatKeywords? ["UNIQUE"] then c.uniqueItem
  else if c.hasKeywords 0 ["CHECK"] || c.hasKeywords 0 ["EXCLUDE"] then
    Attempt.of (unsupported strict "table constraint" c.source .skipped)
  else
    throw s!"constraint \"{name}\" not recognized: expected FOREIGN KEY, PRIMARY KEY or UNIQUE"

def tableItem (options : Options) (table : QualifiedName) (text : List Char) :
    Attempt String TableItem := do
  let c ← ofText text
  match dispatchTokens itemRules c.tokens with
  | none => TableItem.column <$> c.columnDefinition options.strict options.inferId table
  | some (kind, consumed) =>
    let c := c.skip consumed
    match kind with
    | .primaryKey => c.primaryKeyItem
    | .unique => c.uniqueItem
    | .foreignKey => c.foreignKeyItem table none
    | .named => c.namedItem options.strict table
    | .unsupported => Attempt.of (unsupported options.strict "table item" text .skipped)

end Cursor

/-! ## A text and its rules -/

/-- The cursor holds the text and stands in front of its lexemes. -/
def Cursor.Holds (c : Cursor) (text : List Char) (ls : List Lexeme) : Prop :=
  ∃ t : LexedText, t.text = text ∧ t.lexemes = ls ∧ t.Views c ls

theorem Cursor.ofText_follows (text : List Char) : Follows (fun c ls => c.Holds text ls)
    (Cursor.ofText text) ((lex text).mapError LexError.message) := by
  rw [Cursor.ofText, Scanner.tokenize_eq, spanned, lex]
  cases hlexemes : lexemes text with
  | error e => exact .error _
  | ok read =>
    obtain ⟨ls, last⟩ := read
    obtain ⟨rfl, -, -⟩ := lexemes_eq_ok_iff.1 hlexemes
    exact .ok ⟨⟨ls, last⟩, rfl, rfl, rfl, rfl, [], rfl, rfl⟩

/-- Keywords are found at the front of the tokens by looking at both side by side. -/
theorem startsWith_eq (ks : List String) (n : Nat) (ls : List Lexeme) :
    (ks.length ≤ (spans n ls).length &&
      (ks.zip (spans n ls)).all fun p => p.2.token.isKeyword p.1) = (takeKeywords ks ls).isSome := by
  induction ks generalizing n ls with
  | nil => rfl
  | cons k ks ih =>
    cases ls with
    | nil => rfl
    | cons l ls =>
      rw [spans, takeKeywords, List.zip_cons_cons, List.all_cons, List.length_cons, List.length_cons]
      cases l.token.isKeyword k with
      | false => simp
      | true => simpa using ih _ ls

theorem takeKeywords_pair (k k' : String) (ls : List Lexeme) :
    takeKeywords [k, k'] ls = (takeKeywords [k] ls).bind (takeKeywords [k']) := by
  cases ls with
  | nil => rfl
  | cons l ls =>
    rw [takeKeywords, takeKeywords]
    cases l.token.isKeyword k <;> rfl

namespace LexedText.Views

variable {t : LexedText} {c : Cursor} {ls : List Lexeme}

theorem dispatch {κ : Type} (rules : List (List String × κ)) (h : t.Views c t.lexemes) :
    Option.Rel (fun p q => p.1 = q.1 ∧ t.Views (c.skip p.2) q.2) (dispatchTokens rules c.tokens)
      (dispatch rules t.lexemes) := by
  refine rel_findSome? (fun rule => ?_) rules
  rw [h.tokens_eq, startsWith_eq]
  cases htake : takeKeywords rule.1 t.lexemes with
  | none => exact .none
  | some rest =>
    obtain ⟨hle, rfl⟩ := takeKeywords_eq_some htake
    exact .some ⟨rfl, h.skip hle⟩

/-! ## Key lists and foreign keys -/

theorem primaryKeyItem (h : t.Views c ls) : Follows Eq c.primaryKeyItem (primaryKeyItem ls) := by
  refine follows_inContext ?_ _
  refine (h.identList _).bind fun x y hxy => ?_
  refine (hxy.views.finish _).bind fun _ _ _ => .ok ?_
  rw [hxy.fst_eq]

theorem uniqueItem (h : t.Views c ls) : Follows Eq c.uniqueItem (uniqueItem ls) := by
  refine follows_inContext ?_ _
  refine (h.identList _).bind fun x y hxy => ?_
  refine (hxy.views.finish _).bind fun _ _ _ => .ok ?_
  rw [hxy.fst_eq]

/-- A pass that reads an action moves on by more than the keyword in front. -/
theorem again_of_action {actions : ReferenceActions} {behind : List Lexeme} {c' : Cursor}
    {k : Action → ReferenceActions} (h : t.Views c ls) (hbehind : behind.length < ls.length)
    (h' : t.Views c' behind) (hg : referenceActions actions ls =
      action behind >>= fun p => referenceActions (k p.1) p.2) :
    Advances (fun state => state.2.left) t.Captures t.Captures
      (fun p : ReferenceActions × List Lexeme => referenceActions p.1 p.2) (actions, c) (actions, ls)
      (c'.referentialAction >>= fun p => pure (.again (k p.1, p.2))) := by
  refine .bind h'.referentialAction hg fun x y hxy haction hg =>
    .again (u := (k y.1, y.2)) ⟨?_, hxy.views⟩ ?_ hg
  · rw [hxy.fst_eq]
  · dsimp only
    rw [hxy.views.left_eq, h.left_eq]
    exact (length_action_lt haction).trans hbehind

theorem actionsPass (h : t.Views c ls) (actions : ReferenceActions) :
    Advances (fun state => state.2.left) t.Captures t.Captures
      (fun p : ReferenceActions × List Lexeme => referenceActions p.1 p.2) (actions, c) (actions, ls)
      (Cursor.actionsPass (actions, c)) := by
  -- the cursor takes `ON` first, and the lexemes are asked for `ON` with the keyword behind it
  have hread := referenceActions_eq actions ls
  rw [takeKeywords_pair, takeKeywords_pair] at hread
  rw [Cursor.actionsPass]
  refine rel_cases (h.eatKeywords? ["ON"]) (fun hon => ?_) fun c' rest hon hrest => ?_
  · exact .done (b := (actions, ls)) ⟨rfl, h⟩ (by rw [hread, hon]; rfl)
  have hlt := length_takeKeywords_lt hon
  rw [hon] at hread
  dsimp only [Option.bind_some] at hread ⊢
  refine rel_cases (hrest.eatKeywords? ["DELETE"]) (fun hdelete => ?_) fun c'' behind hdelete hbehind =>
    h.again_of_action (k := fun a => { actions with onDelete := some a })
      ((length_takeKeywords_lt hdelete).trans hlt) hbehind (by rw [hread, hdelete])
  refine rel_cases (hrest.eatKeywords? ["UPDATE"]) (fun hupdate => ?_) fun c'' behind hupdate hbehind =>
    h.again_of_action (k := fun a => { actions with onUpdate := some a })
      ((length_takeKeywords_lt hupdate).trans hlt) hbehind (by rw [hread, hdelete, hupdate])
  exact .error (by rw [hread, hdelete, hupdate]; rfl)

theorem actionsLoop (h : t.Views c ls) : Follows t.Captures
    (repeatedly (fun state => state.2.left) Cursor.actionsPass ({}, c)) (referenceActions {} ls) := by
  exact h.loop (fun actions _ _ h => h.actionsPass actions) {}

theorem foreignKeyItem (h : t.Views c ls) (table : QualifiedName) (constraint : Option String) :
    Follows Eq (c.foreignKeyItem table constraint) (foreignKeyItem table constraint ls) := by
  refine follows_inContext ?_ _
  refine (h.identList _).bind ?_
  rintro ⟨source, c⟩ ⟨_, ls⟩ ⟨rfl, h⟩
  dsimp only at h
  refine (h.expectKeywords _).bind fun c ls h => ?_
  refine (h.qualified _).bind ?_
  rintro ⟨target, c⟩ ⟨_, ls⟩ ⟨rfl, h⟩
  refine (h.identList _).bind ?_
  rintro ⟨targetColumns, c⟩ ⟨_, ls⟩ ⟨rfl, h⟩
  dsimp only at h ⊢
  match source, targetColumns with
  | [fromColumn], [targetColumn] =>
    refine h.actionsLoop.bind ?_
    rintro ⟨actions, c⟩ ⟨_, ls⟩ ⟨rfl, h⟩
    exact (h.finish _).bind fun _ _ _ => .ok rfl
  | [], _ => exact .error _
  | _ :: _ :: _, _ => exact .error _
  | [_], [] => exact .error _
  | [_], _ :: _ :: _ => exact .error _

theorem namedItem (h : t.Views c ls) (strict : Bool) (table : QualifiedName) :
    Follows Eq (c.namedItem strict table) (namedItem strict table t.text ls) := by
  refine (follows_inContext (h.ident _) _).bind ?_
  rintro ⟨name, c⟩ ⟨_, ls⟩ ⟨rfl, h⟩
  dsimp only at h ⊢
  refine rel_elim (h.eatKeywords? ["FOREIGN", "KEY"])
    (fun c ls h => h.foreignKeyItem table (some name)) ?_
  refine rel_elim (h.eatKeywords? ["PRIMARY", "KEY"]) (fun c ls h => h.primaryKeyItem) ?_
  refine rel_elim (h.eatKeywords? ["UNIQUE"]) (fun c ls h => h.uniqueItem) ?_
  dsimp only
  rw [h.hasKeywords_eq, h.hasKeywords_eq, h.source_eq, List.drop_zero]
  by_cases hk : ((takeKeywords ["CHECK"] ls).isSome || (takeKeywords ["EXCLUDE"] ls).isSome) = true
  · rw [if_pos hk, if_pos hk]
    exact .of _
  · rw [if_neg hk, if_neg hk]
    exact .error _

end LexedText.Views

/-- A table item is read from a cursor without a fault, and as it is read from its lexemes. -/
theorem Cursor.tableItem_follows (options : Options) (table : QualifiedName) (text : List Char) :
    Follows Eq (Cursor.tableItem options table text) (Script.tableItem options table text) := by
  refine (Cursor.ofText_follows text).bind ?_
  rintro c _ ⟨t, rfl, rfl, h⟩
  refine rel_elim (h.dispatch itemRules) ?_ ?_
  · rintro ⟨kind, consumed⟩ ⟨_, rest⟩ ⟨rfl, hrest⟩
    cases kind with
    | primaryKey => exact hrest.primaryKeyItem
    | unique => exact hrest.uniqueItem
    | foreignKey => exact hrest.foreignKeyItem table none
    | named => exact hrest.namedItem options.strict table
    | unsupported => exact .of _
  · exact (h.columnDefinition options.strict options.inferId table).bind fun x y hxy => .ok (hxy ▸ rfl)

end SchemaDdl.Script
