import SchemaDdl.Proofs.Reading.Alone
import SchemaDdl.Proofs.Reading.BlankedItems

/-!
# Reading blanked statements

A statement and its blanked copy declare the same, with one exception. An item of a table body that
is made up of comments only is an item without a name, and cannot be read; once its comments are
blanked it is no item any more.
-/

namespace SchemaDdl.Script

/-! ## Table bodies -/

section UpdateFirst

variable {α α' : Type} {r : α → α' → Prop}

theorem rel_updateFirst? {p : α → Bool} {q : α' → Bool} {f : α → α} {g : α' → α'}
    (hp : ∀ x x', r x x' → q x' = p x) (hf : ∀ x x', r x x' → r (f x) (g x')) {xs : List α}
    {xs' : List α'} (h : List.Forall₂ r xs xs') :
    Option.Rel (List.Forall₂ r) (updateFirst? p f xs) (updateFirst? q g xs') := by
  induction h with
  | nil => exact .none
  | cons hx hxs ih =>
    rw [updateFirst?, updateFirst?, hp _ _ hx]
    split
    · exact .some (.cons (hf _ _ hx) hxs)
    · exact rel_map ih fun _ _ hys => .cons hx hys

end UpdateFirst

/-- The same table, with comments blanked in the types and the defaults of its columns. -/
structure TableDraft.Blanked (t t' : TableDraft) : Prop where
  key : t'.key = t.key
  columns : List.Forall₂ ColumnDraft.Blanked t.columns t'.columns
  foreignKeys : t'.foreignKeys = t.foreignKeys

section Body

variable {items items' : List TableItem} {columns columns' : List ColumnDraft}

theorem markColumns_blanked (h : List.Forall₂ ColumnDraft.Blanked columns columns') (strict : Bool)
    (table : QualifiedName) (keyword : String) {mark : ColumnDraft → ColumnDraft}
    (hmark : ∀ c c' : ColumnDraft, c.Blanked c' → (mark c).Blanked (mark c')) (names : List String) :
    Both (List.Forall₂ ColumnDraft.Blanked) (markColumns strict table keyword mark names columns)
      (markColumns strict table keyword mark names columns') := by
  induction names generalizing columns columns' with
  | nil => exact .ok h
  | cons name names ih =>
    have hupdate := rel_updateFirst? (p := fun c : ColumnDraft => c.name == name)
      (q := fun c : ColumnDraft => c.name == name) (fun c c' hc => by rw [hc.name]) hmark h
    rw [markColumns, markColumns]
    refine rel_elim hupdate (fun _ _ hcolumns => ih hcolumns) ?_
    cases strict with
    | false => exact ih h
    | true => exact .error _ _

theorem columns_blanked (h : List.Forall₂ TableItem.Blanked items items') :
    List.Forall₂ ColumnDraft.Blanked (items.filterMap TableItem.column?)
      (items'.filterMap TableItem.column?) := by
  refine List.rel_filterMap (fun item item' hitem => ?_) h
  cases hitem with
  | column hc => exact .some hc
  | same item hnone =>
    rw [hnone]
    exact .none

/-- Whatever does not look into columns is the same for both. -/
theorem map_eq_of_blanked {β : Type} {f : TableItem → β} (h : List.Forall₂ TableItem.Blanked items items')
    (hf : ∀ c c' : ColumnDraft, f (.column c') = f (.column c)) : items'.map f = items.map f := by
  refine map_eq_of_forall₂ h fun item item' hitem => ?_
  cases hitem with
  | column _ => exact hf _ _
  | same => rfl

theorem ofItems_blanked (h : List.Forall₂ TableItem.Blanked items items') (strict : Bool)
    (key : QualifiedName) :
    Both TableDraft.Blanked (TableDraft.ofItems strict key items)
      (TableDraft.ofItems strict key items') := by
  have hprimary := map_eq_of_blanked (f := TableItem.primaryKeyColumns) h fun _ _ => rfl
  have hunique := map_eq_of_blanked (f := TableItem.uniqueColumns) h fun _ _ => rfl
  have hfks := map_eq_of_blanked (f := TableItem.foreignKey?) h fun _ _ => rfl
  rw [TableDraft.ofItems, TableDraft.ofItems, List.flatMap_def, List.flatMap_def, List.flatMap_def,
    List.flatMap_def, hprimary, hunique]
  refine (markColumns_blanked (columns_blanked h) strict key _ (fun _ _ hc => hc.markPrimaryKey) _).bind
    fun _ _ hcolumns => ?_
  refine (markColumns_blanked hcolumns strict key _ (fun _ _ hc => hc.markUnique) _).bind
    fun _ _ hcolumns => ?_
  refine .ok ⟨rfl, hcolumns, ?_⟩
  have hpicked := congrArg (List.filterMap id) hfks
  rwa [List.filterMap_map, List.filterMap_map] at hpicked

end Body

/-! ## Items of a body -/

section Items

variable {cs cs' : List Char}

theorem blanked_blanks {blanks x : List Char} (h : ∀ c ∈ blanks, Text.isBlank c = true)
    (hx : Blanked blanks x) : x = blanks := by
  induction blanks generalizing x with
  | nil => exact blanked_nil_iff.1 hx
  | cons c blanks ih =>
    obtain ⟨hc, hblanks⟩ := List.forall_mem_cons.1 h
    obtain ⟨y, rfl, hy⟩ := (blanked_cons_iff (not_opensRegion_of_isBlank hc blanks)).1 hx
    rw [ih hblanks hy]

/-- An item with a token stays one. -/
theorem trim_ne_nil_of_blanked (h : Blanked cs cs') (hcs : lex (Text.trim cs) ≠ .ok []) :
    Text.trim cs' ≠ [] := by
  intro hnil
  have hboth := h.lex_trim
  have hempty : lex (Text.trim cs') = .ok [] := by
    rw [hnil, lex, (FinalGap.closed .nil).lexemes_eq]
    rfl
  obtain ⟨ls, hls, halike⟩ := hboth.exists_ok' hempty
  obtain ⟨rfl, -⟩ | ⟨_, _, _, _, -, hcons, -⟩ := halike.cases
  · exact hcs hls
  · cases hcons

/-- Where every item has a token, the same items are read from a body and its blanked copy. -/
theorem both_listItems (h : Blanked cs cs') (hitems : ∀ item ∈ listItems cs, lex item ≠ .ok []) :
    List.Forall₂ (fun item item' => Both Alike (lex item) (lex item')) (listItems cs) (listItems cs') := by
  have hcut : List.Forall₂ Blanked (cut ',' 0 (pieces .plain cs)) (cut ',' 0 (pieces .plain cs')) :=
    h.cut .comma rfl
  rw [listItems] at hitems
  rw [listItems, listItems]
  generalize cut ',' 0 (pieces .plain cs) = xs at hcut hitems ⊢
  generalize cut ',' 0 (pieces .plain cs') = xs' at hcut ⊢
  induction hcut with
  | nil => exact .nil
  | @cons x x' xs xs' hx _ ih =>
    rw [List.map_cons, List.filter_cons] at hitems ⊢
    rw [List.map_cons, List.filter_cons]
    -- white space is left alone, so an item can only vanish if it has nothing but comments
    by_cases hblank : Text.trim x = []
    · have hblank' : Text.trim x' = [] := by
        rw [blanked_blanks (List.all_eq_true.1 (Text.trim_eq_nil_iff.1 hblank)) hx]
        exact hblank
      simp only [hblank, hblank'] at hitems ⊢
      exact ih hitems
    · have hpos : decide (Text.trim x ≠ []) = true := decide_eq_true hblank
      rw [if_pos hpos] at hitems ⊢
      obtain ⟨htoken, hmore⟩ := List.forall_mem_cons.1 hitems
      rw [if_pos (decide_eq_true (trim_ne_nil_of_blanked hx htoken))]
      exact .cons hx.lex_trim (ih hmore)

end Items

/-! ## Statements -/

/-- The same declaration, with comments blanked in the types and the defaults of a table. -/
inductive Entry.Blanked : Entry → Entry → Prop
  | table {t t' : TableDraft} : t.Blanked t' → Blanked (.table t) (.table t')
  | same (e : Entry) : e.table? = none → Blanked e e

section Statements

variable {ls ls' : List Lexeme} {options : Options}

theorem Alike.createSchema (h : Alike ls ls') :
    Both Entry.Blanked (createSchema ls) (createSchema ls') := by
  refine both_inContext ?_ _ _
  refine ((h.skipKeywords _).name _).bind ?_
  rintro ⟨schema, rest⟩ _ ⟨rfl, hrest⟩
  have hfinish {rest rest' : List Lexeme} (hrest : Alike rest rest') : Both Entry.Blanked
      (Script.finish "statement" rest >>= fun _ => pure (.schema schema))
      (Script.finish "statement" rest' >>= fun _ => pure (.schema schema)) :=
    (hrest.finish _).bind fun _ _ _ => .ok (.same _ rfl)
  dsimp only
  refine rel_elim (hrest.takeKeywords ["AUTHORIZATION"]) (fun rest rest' hrest => ?_) (hfinish hrest)
  refine Both.bind (r := Alike) ?_ fun _ _ hrest => hfinish hrest
  refine (hrest.name _).map ?_
  rintro _ _ ⟨-, hrest⟩
  exact hrest

theorem Alike.moreEnumValues (h : Alike ls ls') :
    Both (Captured Eq) (moreEnumValues ls) (moreEnumValues ls') := by
  fun_induction Script.moreEnumValues ls generalizing ls' with
  | case1 =>
    obtain rfl := alike_nil_iff.1 h
    exact .error _ _
  | case2 l hl =>
    obtain ⟨l', rfl, htoken⟩ := h.exists_singleton
    rw [Script.moreEnumValues, htoken, if_pos hl]
    exact .ok ⟨rfl, alike_nil⟩
  | case3 l hl hcomma =>
    obtain ⟨l', rfl, htoken⟩ := h.exists_singleton
    rw [Script.moreEnumValues, htoken, if_neg hl, if_pos hcomma]
    exact .error _ _
  | case4 l hl hcomma =>
    obtain ⟨l', rfl, htoken⟩ := h.exists_singleton
    rw [Script.moreEnumValues, htoken, if_neg hl, if_neg hcomma]
    exact .error _ _
  | case5 l m ls hl =>
    obtain ⟨l', m', ms', rfl, htoken, -, hrest, -⟩ := h.exists_pair
    rw [Script.moreEnumValues, htoken, if_pos hl]
    exact .ok ⟨rfl, hrest⟩
  | case6 l m ls hl hcomma value hvalue ih =>
    obtain ⟨l', m', ms', rfl, htoken, hm, -, hms⟩ := h.exists_pair
    rw [Script.moreEnumValues, htoken, if_neg hl, if_pos hcomma, hm, hvalue]
    refine (ih hms).bind ?_
    rintro _ _ ⟨rfl, hrest⟩
    exact .ok ⟨rfl, hrest⟩
  | case7 l m ls hl hcomma hother =>
    obtain ⟨l', m', ms', rfl, htoken, hm, -⟩ := h.exists_pair
    rw [Script.moreEnumValues, htoken, if_neg hl, if_pos hcomma, hm]
    split
    · rename_i value hvalue
      exact (hother value hvalue).elim
    · exact .error _ _
  | case8 l m ls hl hcomma =>
    obtain ⟨l', m', ms', rfl, htoken, -⟩ := h.exists_pair
    rw [Script.moreEnumValues, htoken, if_neg hl, if_neg hcomma]
    exact .error _ _

theorem Alike.enumValues (h : Alike ls ls') :
    Both (Captured Eq) (enumValues ls) (enumValues ls') := by
  rw [Script.enumValues, Script.enumValues]
  refine rel_elim (h.takeToken .closeParen) (fun _ _ hrest => .ok ⟨rfl, hrest.alike⟩) ?_
  refine (h.stringLiteral _).bind ?_
  rintro ⟨value, rest⟩ _ ⟨rfl, hrest⟩
  refine hrest.moreEnumValues.bind ?_
  rintro ⟨values, rest⟩ _ ⟨rfl, hrest⟩
  exact .ok ⟨rfl, hrest⟩

theorem Alike.createType (h : Alike ls ls') (strict : Bool) (text text' : List Char) :
    Both (Option.Rel Entry.Blanked) (createType strict text ls) (createType strict text' ls') := by
  refine (both_inContext (h.qualifiedName _) _ _).bind ?_
  rintro ⟨key, rest⟩ _ ⟨rfl, hrest⟩
  refine (both_inContext (hrest.expectKeywords _) _ _).bind fun rest rest' hrest => ?_
  refine rel_elim (hrest.takeKeywords ["ENUM"]) (fun rest rest' hrest => ?_)
    (both_unsupported _ _ _ _ .none)
  refine Both.bind (r := Eq) (both_inContext ?_ _ _) ?_
  · refine (hrest.expectToken _ _).bind fun rest rest' hrest => ?_
    refine hrest.enumValues.bind ?_
    rintro ⟨values, rest⟩ _ ⟨rfl, hrest⟩
    exact (hrest.finish _).bind fun _ _ _ => .ok rfl
  · rintro values _ rfl
    dsimp only
    split
    · exact .error _ _
    · exact .ok (.some (.same _ rfl))

theorem Alike.commentText (h : Alike ls ls') : Both Eq (commentText ls) (commentText ls') := by
  refine (h.expectKeywords _).bind fun rest rest' hrest => ?_
  refine rel_elim (hrest.takeKeywords ["NULL"]) (fun rest rest' hrest => ?_) ?_
  · refine (hrest.finish _).bind fun _ _ _ => ?_
    exact .ok rfl
  · refine (hrest.stringLiteral _).bind ?_
    rintro ⟨text, rest⟩ _ ⟨rfl, hrest⟩
    refine (hrest.finish _).bind fun _ _ _ => ?_
    exact .ok rfl

theorem Alike.commentOnTable (h : Alike ls ls') :
    Both Entry.Blanked (commentOnTable ls) (commentOnTable ls') := by
  refine both_inContext ?_ _ _
  refine (h.qualifiedName _).bind ?_
  rintro ⟨key, rest⟩ _ ⟨rfl, hrest⟩
  refine hrest.commentText.bind ?_
  rintro text _ rfl
  exact .ok (.same _ rfl)

theorem Alike.commentOnColumn (h : Alike ls ls') :
    Both Entry.Blanked (commentOnColumn ls) (commentOnColumn ls') := by
  refine both_inContext ?_ _ _
  refine (h.names _ _).bind ?_
  rintro ⟨⟨first, more⟩, rest⟩ _ ⟨rfl, hrest⟩
  dsimp only
  split
  · exact .error _ _
  · refine hrest.commentText.bind ?_
    rintro text _ rfl
    exact .ok (.same _ rfl)

theorem Alike.createTable (h : Alike ls ls') (isDefined : QualifiedName → Bool)
    (hitems : ∀ key rest body,
      Script.qualifiedName "table name" (Script.skipKeywords ["IF", "NOT", "EXISTS"] ls) =
        .ok (key, rest) → (Script.takeToken .openParen rest).bind (enclosed 0) = some body →
          ∀ item ∈ listItems body.body, lex item ≠ .ok []) :
    Both Entry.Blanked (createTable options isDefined ls) (createTable options isDefined ls') := by
  refine (both_inContext ((h.skipKeywords _).qualifiedName _) _ _).bind_of_ok ?_
  rintro ⟨key, rest⟩ ⟨_, rest'⟩ hkey - ⟨rfl, hrest⟩
  dsimp only
  have henclosed := rel_bind (hrest.takeToken .openParen) fun _ _ hinside => hinside.enclosed
  obtain ⟨hnone, hnone'⟩ | ⟨body, body', hbody, hbody', htext, hbehind⟩ := cases_of_rel henclosed
  · simp only [hnone, hnone']
    exact .error _ _
  · simp only [hbody, hbody']
    refine (both_inContext (hbehind.finish _) _ _).bind fun _ _ _ => ?_
    split
    · exact .error _ _
    · have hread := both_listItems htext (hitems key rest body (mapError_eq_ok_iff.1 hkey) hbody)
      have hmapM := Both.mapM (hread.imp fun _ _ hitem => both_tableItem hitem options key)
      refine hmapM.bind fun items items' hitems => ?_
      refine (ofItems_blanked hitems options.strict key).bind fun t t' ht => ?_
      exact .ok (.table ht)

end Statements

/-! ## Items without a token -/

/-- No item of a table body is made up of comments only. -/
def NoBareItem (text : List Char) : Prop :=
  ∀ x, tableText? text = some x → ∀ item ∈ listItems x.body, lex item ≠ .ok []

section Statements

variable {options : Options} {text text' : List Char}

theorem tableItem_of_lex_nil {item : List Char} (h : lex item = .ok []) (options : Options)
    (table : QualifiedName) :
    ∃ e, tableItem options table item = .error e := by
  rw [tableItem, h]
  exact ⟨_, rfl⟩

/-- A statement that is read has no item without a token. -/
theorem noBareItem_of_readAlone {e : Option Entry} (h : readAlone options text = .ok e) :
    NoBareItem text := by
  intro x hx item hitem hbare
  obtain ⟨c, key, hc, rfl⟩ := exists_reads_of_tableText? hx
  obtain ⟨-, items, -, hitems, -⟩ := hc.readAlone_iff.1 h
  obtain ⟨_, -, hread⟩ := exists_of_mapM_of_mem hitems hitem
  obtain ⟨e, he⟩ := tableItem_of_lex_nil hbare options key
  rw [he] at hread
  cases hread

theorem exists_tableText? {ls inside rest : List Lexeme} {key : QualifiedName} {body : Enclosed}
    (hls : lex text = .ok ls) (hrule : dispatch statementRules ls = some (.createTable, inside))
    (hkey : qualifiedName "table name" (skipKeywords ["IF", "NOT", "EXISTS"] inside) = .ok (key, rest))
    (hbody : (takeToken .openParen rest).bind (enclosed 0) = some body) :
    ∃ x, tableText? text = some x ∧ x.body = body.body := by
  obtain ⟨⟨ls, last⟩, hlexemes, rfl⟩ := exists_of_map_eq_ok hls
  obtain ⟨behind, hopen, henclosed⟩ := Option.bind_eq_some_iff.1 hbody
  refine ⟨{ head := written (ls.take (ls.length - behind.length)), body := body.body
            tail := body.close.text ++ (written body.rest ++ last) }, ?_, rfl⟩
  refine Option.bind_eq_some_iff.2 ⟨(ls, last), toOption_eq_some_iff.2 hlexemes, ?_⟩
  refine Option.bind_eq_some_iff.2 ⟨(.createTable, inside), hrule, ?_⟩
  refine Option.bind_eq_some_iff.2 ⟨(key, rest), toOption_eq_some_iff.2 hkey, ?_⟩
  refine Option.bind_eq_some_iff.2 ⟨behind, hopen, ?_⟩
  exact Option.bind_eq_some_iff.2 ⟨body, henclosed, rfl⟩

theorem both_readStatement (h : Both Alike (lex text) (lex text')) (hitems : NoBareItem text)
    (isDefined : QualifiedName → Bool) :
    Both (Option.Rel Entry.Blanked) (readStatement options isDefined text)
      (readStatement options isDefined text') := by
  refine (h.mapError _ _).bind_of_ok fun ls ls' hls _ halike => ?_
  have hall : (ls'.all fun l => l.token == .semicolon) = ls.all fun l => l.token == .semicolon := by
    have htokens := congrArg (List.all · (· == .semicolon)) halike.map_token
    rwa [List.all_map, List.all_map] at htokens
  rw [hall]
  split
  · exact .ok .none
  · obtain ⟨hnone, hnone'⟩ | ⟨⟨kind, rest⟩, ⟨kind', rest'⟩, hrule, hrule', hrest⟩ :=
      cases_of_rel (halike.dispatch statementRules)
    · simp only [hnone, hnone']
      exact both_unsupported _ _ _ _ .none
    · simp only [hrule, hrule']
      obtain ⟨rfl, hrest⟩ := hrest
      have hsome {e e' : Except String Entry} (he : Both Entry.Blanked e e') :
          Both (Option.Rel Entry.Blanked) (e >>= fun e => pure (some e)) (e' >>= fun e => pure (some e)) :=
        he.bind fun _ _ he => .ok (.some he)
      cases kind with
      | createSchema => exact hsome hrest.createSchema
      | createType => exact hrest.createType _ _ _
      | createTable =>
        refine hsome (hrest.createTable isDefined fun key inside body hkey hbody => ?_)
        obtain ⟨x, hx, hxbody⟩ := exists_tableText? (mapError_eq_ok_iff.1 hls) hrule hkey hbody
        rw [← hxbody]
        exact hitems x hx
      | commentOnTable => exact hsome hrest.commentOnTable
      | commentOnColumn => exact hsome hrest.commentOnColumn

end Statements

end SchemaDdl.Script
