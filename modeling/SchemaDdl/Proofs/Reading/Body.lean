import SchemaDdl.Proofs.Reading.Sound

/-!
# Table bodies in another order

Columns and foreign keys keep the order in which a body lists them. Key lists are applied to all
columns of the table, so they can stand anywhere.
-/

namespace SchemaDdl.Script

/-! ## Captures in front of a parenthesis -/

section Front

variable {l : Lexeme} (hl : l.token = .openParen)

include hl

theorem takeKeywords_front (ks : List String) (xs ys : List Lexeme) :
    takeKeywords ks (xs ++ l :: ys) = (takeKeywords ks xs).map (· ++ l :: ys) := by
  induction ks generalizing xs with
  | nil => rfl
  | cons k ks ih =>
    cases xs with
    | nil => simp [takeKeywords, hl, Token.isKeyword]
    | cons x xs =>
      rw [List.cons_append, takeKeywords, takeKeywords, ih]
      split <;> rfl

theorem skipKeywords_front (ks : List String) (xs ys : List Lexeme) :
    skipKeywords ks (xs ++ l :: ys) = skipKeywords ks xs ++ l :: ys := by
  rw [skipKeywords, takeKeywords_front hl, skipKeywords]
  cases takeKeywords ks xs <;> rfl

theorem dispatch_front {κ : Type} (rules : List (List String × κ)) (xs ys : List Lexeme) :
    dispatch rules (xs ++ l :: ys) = (dispatch rules xs).map fun p => (p.1, p.2 ++ l :: ys) := by
  induction rules with
  | nil => rfl
  | cons rule rules ih =>
    rw [dispatch, List.findSome?_cons, takeKeywords_front hl, dispatch, List.findSome?_cons]
    cases takeKeywords rule.1 xs with
    | none => exact ih
    | some rest => rfl

theorem name_front {what n : String} {xs ys rest : List Lexeme} :
    name what (xs ++ l :: ys) = .ok (n, rest) ↔
      ∃ r, name what xs = .ok (n, r) ∧ rest = r ++ l :: ys := by
  cases xs with
  | nil => simp [name, hl, Token.name?, expected]
  | cons x xs =>
    rw [List.cons_append, name, name]
    cases x.token.name? with
    | none => simp [expected]
    | some m => simp [eq_comm]

theorem moreNames_front {separator : Token} (hseparator : separator ≠ .openParen) {what : String}
    {ns : List String} {xs ys rest : List Lexeme} :
    moreNames separator what (xs ++ l :: ys) = .ok (ns, rest) ↔
      ∃ r, moreNames separator what xs = .ok (ns, r) ∧ rest = r ++ l :: ys := by
  have hother : (l.token == separator) = false := by
    rw [hl]
    exact beq_eq_false_iff_ne.2 hseparator.symm
  have hname : l.token.name? = none := by
    rw [hl]
    rfl
  fun_induction moreNames separator what xs generalizing ns with
  | case1 => cases ys <;> simp [moreNames, hother, eq_comm]
  | case2 x hx => simp [moreNames, hx, hname, expected]
  | case3 x hx => simp [moreNames, hx, eq_comm]
  | case4 x m xs hx n hn ih =>
    rw [List.cons_append, List.cons_append, moreNames, if_pos hx, hn]
    simp only
    constructor
    · intro h
      obtain ⟨⟨more, rest'⟩, hmore, h⟩ := bind_eq_ok_iff.1 h
      cases h
      obtain ⟨r, hr, rfl⟩ := ih.1 hmore
      exact ⟨r, bind_eq_ok_iff.2 ⟨(more, r), hr, rfl⟩, rfl⟩
    · rintro ⟨r, h, rfl⟩
      obtain ⟨⟨more, rest'⟩, hmore, h⟩ := bind_eq_ok_iff.1 h
      cases h
      exact bind_eq_ok_iff.2 ⟨_, ih.2 ⟨_, hmore, rfl⟩, rfl⟩
  | case5 x m xs hx hm => simp [moreNames, hx, hm, expected]
  | case6 x m xs hx => simp [moreNames, hx, eq_comm]

theorem qualifiedName_front {what : String} {key : QualifiedName} {xs ys rest : List Lexeme} :
    qualifiedName what (xs ++ l :: ys) = .ok (key, rest) ↔
      ∃ r, qualifiedName what xs = .ok (key, r) ∧ rest = r ++ l :: ys := by
  have hdot : Token.dot ≠ .openParen := by decide
  constructor
  · intro h
    obtain ⟨⟨ns, behind⟩, hnames, h⟩ := bind_eq_ok_iff.1 h
    obtain ⟨⟨first, behind'⟩, hfirst, hnames⟩ := bind_eq_ok_iff.1 hnames
    obtain ⟨⟨more, behind''⟩, hmore, hnames⟩ := bind_eq_ok_iff.1 hnames
    cases h
    cases hnames
    obtain ⟨r, hr, rfl⟩ := (name_front hl).1 hfirst
    obtain ⟨r', hr', rfl⟩ := (moreNames_front hl hdot).1 hmore
    refine ⟨r', bind_eq_ok_iff.2 ⟨((first, more), r'), ?_, rfl⟩, rfl⟩
    exact bind_eq_ok_iff.2 ⟨_, hr, bind_eq_ok_iff.2 ⟨_, hr', rfl⟩⟩
  · rintro ⟨r, h, rfl⟩
    obtain ⟨⟨ns, behind⟩, hnames, h⟩ := bind_eq_ok_iff.1 h
    obtain ⟨⟨first, behind'⟩, hfirst, hnames⟩ := bind_eq_ok_iff.1 hnames
    obtain ⟨⟨more, behind''⟩, hmore, hnames⟩ := bind_eq_ok_iff.1 hnames
    cases h
    cases hnames
    refine bind_eq_ok_iff.2 ⟨((first, more), _ ++ l :: ys), ?_, rfl⟩
    refine bind_eq_ok_iff.2 ⟨_, (name_front hl).2 ⟨_, hfirst, rfl⟩, ?_⟩
    exact bind_eq_ok_iff.2 ⟨_, (moreNames_front hl hdot).2 ⟨_, hmore, rfl⟩, rfl⟩

end Front

/-! ## Items in another order -/

/-- An item that no rule matches is a column. -/
def isColumnItem (text : List Char) : Bool :=
  match lex text with
  | .ok ls => (dispatch itemRules ls).isNone
  | .error _ => false

/-- A foreign key may stand behind `CONSTRAINT` and its name. -/
def isForeignKeyItem (text : List Char) : Bool :=
  match lex text with
  | .ok ls =>
    match dispatch itemRules ls with
    | some (.foreignKey, _) => true
    | some (.named, rest) =>
      match name "constraint name" rest with
      | .ok (_, rest) => (takeKeywords ["FOREIGN", "KEY"] rest).isSome
      | .error _ => false
    | _ => false
  | .error _ => false

section Items

variable {options : Options} {key : QualifiedName} {text : List Char} {item : TableItem}

theorem isColumnItem_of_column? (h : tableItem options key text = .ok item)
    (hc : item.column?.isSome) : isColumnItem text = true := by
  obtain ⟨ls, hls, h⟩ := bind_eq_ok_iff.1 h
  rw [isColumnItem, mapError_eq_ok_iff.1 hls]
  split at h
  · obtain ⟨columns, rfl⟩ := exists_of_primaryKeyItem h
    cases hc
  · obtain ⟨columns, rfl⟩ := exists_of_uniqueItem h
    cases hc
  · obtain ⟨fk, rfl⟩ := exists_of_foreignKeyItem h
    cases hc
  · obtain ⟨_, _, fk, -, -, rfl⟩ | ⟨columns, rfl⟩ | ⟨columns, rfl⟩ | rfl := cases_of_namedItem h <;>
      cases hc
  · rw [unsupported_eq_ok h] at hc
    cases hc
  · rename_i hnone
    exact Option.isNone_iff_eq_none.2 hnone

theorem isForeignKeyItem_of_foreignKey? (h : tableItem options key text = .ok item)
    (hfk : item.foreignKey?.isSome) : isForeignKeyItem text = true := by
  obtain ⟨ls, hls, h⟩ := bind_eq_ok_iff.1 h
  rw [isForeignKeyItem, mapError_eq_ok_iff.1 hls]
  split at h
  · obtain ⟨columns, rfl⟩ := exists_of_primaryKeyItem h
    cases hfk
  · obtain ⟨columns, rfl⟩ := exists_of_uniqueItem h
    cases hfk
  · rename_i hdispatch
    simp only [hdispatch]
  · rename_i hdispatch
    obtain ⟨_, _, fk, hname, hkeywords, rfl⟩ | ⟨columns, rfl⟩ | ⟨columns, rfl⟩ | rfl :=
      cases_of_namedItem h
    · simp only [hdispatch, hname]
      exact hkeywords
    · cases hfk
    · cases hfk
    · cases hfk
  · rw [unsupported_eq_ok h] at hfk
    cases hfk
  · obtain ⟨c, -, h⟩ := bind_eq_ok_iff.1 h
    cases h
    cases hfk

theorem markKeys_congr {primary primary' unique unique' : List String} (hprimary : primary.Perm primary')
    (hunique : unique.Perm unique') (cs : List ColumnDraft) :
    markKeys primary unique cs = markKeys primary' unique' cs := by
  have hmark {mark : ColumnDraft → ColumnDraft} {ns ns' : List String} (hperm : ns.Perm ns') :
      markFirst mark ns = markFirst mark ns' := by
    funext p
    have hcontains : ns.contains p.1.name = ns'.contains p.1.name := by
      rw [Bool.eq_iff_iff, List.contains_iff_mem, List.contains_iff_mem, hperm.mem_iff]
    rw [markFirst, markFirst, hcontains]
  rw [markKeys, markKeys, hmark hprimary, hmark hunique]

/-- A body means the same whatever the place of its key lists. -/
theorem exists_ofItems_of_rearranged {texts texts' : List (List Char)}
    (h : Rearranged [isColumnItem, isForeignKeyItem] texts texts') {items : List TableItem}
    (hitems : texts.mapM (tableItem options key) = .ok items) {t : TableDraft}
    (ht : TableDraft.ofItems options.strict key items = .ok t) :
    ∃ items', texts'.mapM (tableItem options key) = .ok items' ∧
      TableDraft.ofItems options.strict key items' = .ok t := by
  obtain ⟨items', hitems', hperm⟩ := exists_mapM_of_perm h.perm hitems
  have hcolumns : items.filterMap TableItem.column? = items'.filterMap TableItem.column? :=
    h.filterMap_eq List.mem_cons_self (fun _ _ => isColumnItem_of_column?) hitems hitems'
  have hfks : items.filterMap TableItem.foreignKey? = items'.filterMap TableItem.foreignKey? :=
    h.filterMap_eq (List.mem_cons_of_mem _ List.mem_cons_self)
      (fun _ _ => isForeignKeyItem_of_foreignKey?) hitems hitems'
  have hprimary := hperm.flatMap_right TableItem.primaryKeyColumns
  have hunique := hperm.flatMap_right TableItem.uniqueColumns
  obtain ⟨hknown, rfl⟩ := ofItems_eq_ok_iff.1 ht
  refine ⟨items', hitems', ofItems_eq_ok_iff.2 ⟨fun hstrict n hn => ?_, ?_⟩⟩
  · rw [← hcolumns]
    exact hknown hstrict n ((hprimary.append hunique).mem_iff.2 hn)
  · rw [← hcolumns, ← hfks, markKeys_congr hprimary hunique]

end Items

/-! ## Statements with another body -/

/-- A `CREATE TABLE` statement, cut at the parentheses of its body. -/
structure TableText where
  head : List Char
  body : List Char
  tail : List Char
  deriving DecidableEq

def tableText? (text : List Char) : Option TableText := do
  let (ls, last) ← (lexemes text).toOption
  let (.createTable, rest) ← dispatch statementRules ls | none
  let (_, rest) ← (qualifiedName "table name" (skipKeywords ["IF", "NOT", "EXISTS"] rest)).toOption
  let inside ← takeToken .openParen rest
  let e ← enclosed 0 inside
  return {
    head := written (ls.take (ls.length - inside.length))
    body := e.body
    tail := e.close.text ++ (written e.rest ++ last) }

/-- The lexemes of a `CREATE TABLE` statement around its body. -/
structure TableLexemes where
  front : List Lexeme
  opening : Lexeme
  enclosed : Enclosed
  last : List Char

namespace TableLexemes

/-- The lexemes behind the opening parenthesis. -/
def inside (c : TableLexemes) : List Lexeme :=
  c.enclosed.inner ++ c.enclosed.close :: c.enclosed.rest

def texts (c : TableLexemes) : TableText where
  head := written (c.front ++ [c.opening])
  body := c.enclosed.body
  tail := c.enclosed.close.text ++ (written c.enclosed.rest ++ c.last)

/-- The statement is read as these lexemes and is about the table with that key. -/
structure Reads (c : TableLexemes) (key : QualifiedName) (text : List Char) : Prop where
  lexemes : lexemes text = .ok (c.front ++ c.opening :: c.inside, c.last)
  opening : c.opening.token = .openParen
  enclosed : Script.enclosed 0 c.inside = some c.enclosed
  key : ∃ rest, dispatch statementRules c.front = some (.createTable, rest) ∧
    qualifiedName "table name" (skipKeywords ["IF", "NOT", "EXISTS"] rest) = .ok (key, [])

end TableLexemes

theorem exists_of_takeToken {t : Token} {ls rest : List Lexeme} (h : takeToken t ls = some rest) :
    ∃ l, ls = l :: rest ∧ l.token = t := by
  cases ls with
  | nil => cases h
  | cons l ls =>
    rw [takeToken] at h
    split at h
    · rename_i hl
      cases h
      exact ⟨l, rfl, beq_iff_eq.1 hl⟩
    · cases h

theorem exists_reads_of_tableText? {text : List Char} {x : TableText} (h : tableText? text = some x) :
    ∃ c key, TableLexemes.Reads c key text ∧ c.texts = x := by
  obtain ⟨⟨ls, last⟩, hls, h⟩ := Option.bind_eq_some_iff.1 h
  obtain ⟨⟨kind, rest⟩, hdispatch, h⟩ := Option.bind_eq_some_iff.1 h
  cases kind with
  | createTable =>
    obtain ⟨⟨key, behind⟩, hkey, h⟩ := Option.bind_eq_some_iff.1 h
    obtain ⟨inside, hinside, h⟩ := Option.bind_eq_some_iff.1 h
    obtain ⟨e, he, h⟩ := Option.bind_eq_some_iff.1 h
    cases h
    obtain ⟨l, rfl, hl⟩ := exists_of_takeToken hinside
    have hkey := toOption_eq_some_iff.1 hkey
    have hsuffix : l :: inside <:+ ls :=
      (qualifiedName_suffix hkey).trans ((skipKeywords_suffix _ rest).trans (dispatch_suffix hdispatch))
    obtain ⟨front, rfl⟩ := hsuffix
    rw [dispatch_front hl] at hdispatch
    obtain ⟨⟨kind, rest'⟩, hfront, heq⟩ := Option.map_eq_some_iff.1 hdispatch
    cases heq
    rw [skipKeywords_front hl] at hkey
    obtain ⟨r, hkey, hrest⟩ := (qualifiedName_front hl).1 hkey
    have hr : r = [] := List.append_left_eq_self.1 hrest.symm
    have hsplit : inside = e.inner ++ e.close :: e.rest := (enclosed_eq_some he).1
    refine ⟨⟨front, l, e, last⟩, key, ⟨?_, hl, ?_, rest', hfront, hr ▸ hkey⟩, ?_⟩
    · rw [TableLexemes.inside, ← hsplit]
      exact toOption_eq_some_iff.1 hls
    · rw [TableLexemes.inside, ← hsplit]
      exact he
    · have htake : (front ++ l :: inside).take ((front ++ l :: inside).length - inside.length) =
          front ++ [l] := by
        rw [List.append_cons, List.length_append, Nat.add_sub_cancel, List.take_left]
      rw [TableLexemes.texts, htake]
  | _ => cases h

section Reads

variable {c c' : TableLexemes} {key key' : QualifiedName} {text text' : List Char}

namespace TableLexemes

theorem Reads.lexemes_head (h : c.Reads key text) :
    Script.lexemes c.texts.head = .ok (c.front ++ [c.opening], []) := by
  obtain ⟨-, hchain, -⟩ := lexemes_eq_ok_iff.1 h.lexemes
  rw [List.append_cons] at hchain
  have hfront := (Chain.append_iff.1 hchain).1.stop stops_nil
  exact lexemes_eq_ok_iff.2 ⟨(List.append_nil _).symm, hfront, .closed .nil⟩

theorem Reads.lexemes_tail (h : c.Reads key text) :
    Script.lexemes c.texts.tail = .ok ({ c.enclosed.close with gap := [] } :: c.enclosed.rest, c.last) := by
  obtain ⟨-, hchain, hlast⟩ := lexemes_eq_ok_iff.1 h.lexemes
  rw [List.append_cons] at hchain
  have hclose := (Chain.append_iff.1 (Chain.append_iff.1 hchain).2).2
  refine lexemes_eq_ok_iff.2 ⟨?_, hclose.regap .nil, hlast⟩
  rw [texts, written_cons, List.nil_append, List.append_assoc]

/-- Statements with the same head are about the same table. -/
theorem Reads.key_eq (h : c.Reads key text) (h' : c'.Reads key' text')
    (hhead : c'.texts.head = c.texts.head) : key' = key := by
  have hlexemes := h'.lexemes_head
  rw [hhead, h.lexemes_head] at hlexemes
  obtain ⟨hfronts, -⟩ := Prod.mk.inj (Except.ok.inj hlexemes)
  obtain ⟨hfront, -⟩ := List.append_inj' hfronts rfl
  obtain ⟨rest, hdispatch, hkey⟩ := h.key
  obtain ⟨rest', hdispatch', hkey'⟩ := h'.key
  rw [← hfront, hdispatch] at hdispatch'
  cases hdispatch'
  rw [hkey] at hkey'
  exact (Prod.mk.inj (Except.ok.inj hkey')).1.symm

theorem Reads.rest_eq (h : c.Reads key text) (h' : c'.Reads key' text')
    (htail : c'.texts.tail = c.texts.tail) : c'.enclosed.rest = c.enclosed.rest := by
  have hlexemes := h'.lexemes_tail
  rw [htail, h.lexemes_tail] at hlexemes
  obtain ⟨hrests, -⟩ := Prod.mk.inj (Except.ok.inj hlexemes)
  exact (List.cons.inj hrests).2.symm

end TableLexemes

end Reads

end SchemaDdl.Script
