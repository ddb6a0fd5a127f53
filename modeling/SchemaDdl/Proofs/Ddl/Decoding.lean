import SchemaDdl.Proofs.Ddl.Sequence
import SchemaDdl.Proofs.Fallible
import SchemaDdl.Script.Reading

/-!
# Generated statements are read back

Each definition is read as the table item that it stands for and each statement as its entry.
-/

namespace SchemaDdl.Ddl

open Script

/-! ## Names and lists -/

theorem moreNames_stop {separator : Token} {what : String} {rest : List Lexeme}
    (h : ∀ l ∈ rest.head?, l.token ≠ separator) :
    moreNames separator what rest = .ok ([], rest) := by
  cases rest with
  | nil => rfl
  | cons l ls =>
    have hl : (l.token == separator) = false := beq_eq_false_iff_ne.2 (h l rfl)
    cases ls with
    | nil =>
      rw [moreNames, hl]
      rfl
    | cons m ls =>
      rw [moreNames, hl]
      rfl

theorem moreNames_listed {what : String} (ss : List String) {rest : List Lexeme}
    (h : ∀ l ∈ rest.head?, l.token ≠ .comma) :
    moreNames .comma what ((ss.flatMap fun s => [comma, quotedName [' '] s]) ++ rest) =
      .ok (ss, rest) := by
  induction ss with
  | nil => exact moreNames_stop h
  | cons s ss ih =>
    simp only [List.flatMap_cons, List.cons_append, List.nil_append]
    rw [moreNames, ih]
    rfl

theorem names_quotedName {separator : Token} {what : String} {ls rest : List Lexeme}
    {ss : List String} (h : moreNames separator what ls = .ok (ss, rest)) (gap : List Char)
    (s : String) : names separator what (quotedName gap s :: ls) = .ok ((s, ss), rest) := by
  have hname : name what (quotedName gap s :: ls) = .ok (s, ls) := rfl
  rw [names, hname]
  change (moreNames separator what ls).bind _ = _
  rw [h]
  rfl

theorem nameList_listed (what : String) (s : String) (ss : List String) (rest : List Lexeme) :
    nameList what (inParens (listed quotedName (s :: ss)) ++ rest) = .ok (s :: ss, rest) := by
  have hmore : moreNames .comma what ((ss.flatMap fun s => [comma, quotedName [' '] s]) ++
      closeParen [] :: rest) = .ok (ss, closeParen [] :: rest) := by
    refine moreNames_listed ss fun l hl => ?_
    cases hl
    decide
  have hlexemes : inParens (listed quotedName (s :: ss)) ++ rest =
      openParen [' '] :: quotedName [] s ::
        ((ss.flatMap fun s => [comma, quotedName [' '] s]) ++ closeParen [] :: rest) := by
    simp [inParens, listed]
  rw [hlexemes]
  change (names .comma what (quotedName [] s :: _)).bind _ = _
  rw [names_quotedName hmore]
  rfl

theorem qualifiedName_lexemes {rest : List Lexeme} (h : ∀ l ∈ rest.head?, l.token ≠ .dot)
    (what : String) (gap : List Char) (key : QualifiedName) :
    qualifiedName what (qualifiedLexemes gap key ++ rest) = .ok (key, rest) := by
  have hmore : moreNames .dot what (dot :: quotedName [] key.name :: rest) =
      .ok ([key.name], rest) := by
    rw [moreNames, moreNames_stop h]
    rfl
  change (names .dot what (quotedName gap key.schema :: dot :: quotedName [] key.name :: rest)).bind
    _ = _
  rw [names_quotedName hmore]
  rfl

/-! ## Actions -/

theorem action_keywords (a : Action) (rest : List Lexeme) :
    action (a.keywords.map (keyword [' ']) ++ rest) = .ok (a, rest) := by
  cases a <;> rfl

theorem referenceActions_nil (acc : ReferenceActions) : referenceActions acc [] = .ok (acc, []) := by
  rw [referenceActions_eq]
  rfl

theorem referenceActions_delete (acc : ReferenceActions) (a : Action) (rest : List Lexeme) :
    referenceActions acc (actionLexemes "DELETE" (some a) ++ rest) =
      referenceActions { acc with onDelete := some a } rest := by
  have htake : takeKeywords ["ON", "DELETE"] (actionLexemes "DELETE" (some a) ++ rest) =
      some (a.keywords.map (keyword [' ']) ++ rest) := rfl
  rw [referenceActions_eq, htake]
  simp only [action_keywords]
  rfl

theorem referenceActions_update (acc : ReferenceActions) (a : Action) (rest : List Lexeme) :
    referenceActions acc (actionLexemes "UPDATE" (some a) ++ rest) =
      referenceActions { acc with onUpdate := some a } rest := by
  have hdelete : takeKeywords ["ON", "DELETE"] (actionLexemes "UPDATE" (some a) ++ rest) = none := rfl
  have htake : takeKeywords ["ON", "UPDATE"] (actionLexemes "UPDATE" (some a) ++ rest) =
      some (a.keywords.map (keyword [' ']) ++ rest) := rfl
  rw [referenceActions_eq, hdelete, htake]
  simp only [action_keywords]
  rfl

theorem referenceActions_lexemes (onDelete onUpdate : Option Action) :
    referenceActions {} (actionLexemes "DELETE" onDelete ++ actionLexemes "UPDATE" onUpdate) =
      .ok (⟨onDelete, onUpdate⟩, []) := by
  have hupdate (acc : ReferenceActions) (hacc : acc.onUpdate = none) :
      referenceActions acc (actionLexemes "UPDATE" onUpdate) = .ok (⟨acc.onDelete, onUpdate⟩, []) := by
    cases onUpdate with
    | none =>
      obtain ⟨onDelete, onUpdate⟩ := acc
      cases hacc
      exact referenceActions_nil _
    | some a =>
      have := referenceActions_update acc a []
      rw [List.append_nil] at this
      rw [this, referenceActions_nil]
  cases onDelete with
  | none => exact hupdate {} rfl
  | some a =>
    rw [referenceActions_delete]
    exact hupdate _ rfl

/-! ## Columns -/

theorem columnClauses_nil (strict : Bool) (c : ColumnDraft) : columnClauses strict c [] = .ok c := by
  rw [columnClauses]

/-- A supported clause is applied. -/
theorem columnClauses_cons {strict : Bool} {c : ColumnDraft} {l : Lexeme} {ls rest : List Lexeme}
    {k : ColumnClause} (hclause : clause l ls = .ok (k, rest)) (hdone : isDone (l :: ls) = false)
    (hk : ∀ head, k ≠ .unsupported head) :
    columnClauses strict c (l :: ls) = columnClauses strict (c.apply k) rest := by
  rw [columnClauses, if_neg (by simp [hdone])]
  split
  · rename_i e he
    rw [hclause] at he
    cases he
  · rename_i k' rest' hk'
    rw [hclause] at hk'
    cases hk'
    split
    · exact absurd rfl (hk _)
    · rfl

theorem columnClauses_notNull (strict : Bool) (c : ColumnDraft) (rest : List Lexeme) :
    columnClauses strict c (keyword [' '] "NOT" :: keyword [' '] "NULL" :: rest) =
      columnClauses strict { c with nullable := false } rest := by
  have hclause : clause (keyword [' '] "NOT") (keyword [' '] "NULL" :: rest) = .ok (.notNull, rest) :=
    rfl
  exact columnClauses_cons hclause rfl fun _ hk => by cases hk

theorem defaultExpression_pasted {e : String} (h : DefaultExcerpt e.toList (lexed e))
    (gap : List Char) : defaultExpression (regap gap (lexed e)) = .ok (e, []) := by
  have hne : (regap gap (lexed e)).isEmpty = false := by
    obtain ⟨l, ls, hls, -⟩ := h.flush
    rw [hls]
    rfl
  have hverbatim : verbatim (lexed e) = e.toList := by
    rw [verbatim_of_flush h.flush, ← h.text_eq]
  rw [defaultExpression, h.spanDefault_eq gap]
  simp [hne, hverbatim]

theorem columnClauses_default (strict : Bool) (c : ColumnDraft) {e : String}
    (h : DefaultExcerpt e.toList (lexed e)) :
    columnClauses strict c (keyword [' '] "DEFAULT" :: regap [' '] (lexed e)) =
      .ok { c with defaultValue := some e } := by
  have hclause : clause (keyword [' '] "DEFAULT") (regap [' '] (lexed e)) = .ok (.default e, []) := by
    change (defaultExpression (regap [' '] (lexed e))).map _ = _
    rw [defaultExpression_pasted h]
    rfl
  have hdone : isDone (keyword [' '] "DEFAULT" :: regap [' '] (lexed e)) = false := by
    obtain ⟨l, ls, hls, -⟩ := h.flush
    rw [hls]
    rfl
  rw [columnClauses_cons hclause hdone (by simp), columnClauses_nil]
  rfl

/-! ## Table items -/

/-- The table item that a definition is read as. -/
def Definition.item (inferId : Bool) : Definition → TableItem
  | .column name type notNull defaultValue =>
    let isId := inferId && name == implicitKeyName
    .column { name, type, nullable := !(isId || notNull), defaultValue, isPrimaryKey := isId
              isUnique := isId }
  | .primaryKey columns => .primaryKey columns
  | .unique name => .unique [name]
  | .foreignKey name source target targetColumn onDelete onUpdate =>
    .foreignKey ⟨name, source, target, targetColumn, onDelete, onUpdate⟩

theorem columnClauses_lexemes (strict : Bool) (c : ColumnDraft) (notNull : Bool)
    {defaultValue : Option String}
    (h : ∀ e ∈ defaultValue, DefaultExcerpt e.toList (lexed e)) :
    columnClauses strict c ((if notNull then [keyword [' '] "NOT", keyword [' '] "NULL"] else []) ++
        defaultValue.toList.flatMap fun e => keyword [' '] "DEFAULT" :: regap [' '] (lexed e)) =
      .ok { c with nullable := c.nullable && !notNull
                   defaultValue := defaultValue.or c.defaultValue } := by
  have hdefault (c : ColumnDraft) :
      columnClauses strict c (defaultValue.toList.flatMap fun e =>
        keyword [' '] "DEFAULT" :: regap [' '] (lexed e)) =
      .ok { c with defaultValue := defaultValue.or c.defaultValue } := by
    cases defaultValue with
    | none => exact columnClauses_nil strict c
    | some e =>
      rw [Option.toList_some, List.flatMap_singleton]
      exact columnClauses_default strict c (h e rfl)
  cases notNull with
  | true =>
    rw [if_pos rfl, List.cons_append, List.cons_append, columnClauses_notNull, List.nil_append,
      hdefault]
    simp
  | false =>
    rw [if_neg Bool.false_ne_true, List.nil_append, hdefault]
    simp

/-- A type ends before the clauses of its column. -/
theorem spanType_lexemes {type : String} (h : TypeExcerpt type.toList (lexed type)) (notNull : Bool)
    (defaultValue : Option String) :
    spanType 0 (regap [' '] (lexed type) ++
        ((if notNull then [keyword [' '] "NOT", keyword [' '] "NULL"] else []) ++
          defaultValue.toList.flatMap fun e => keyword [' '] "DEFAULT" :: regap [' '] (lexed e))) =
      (regap [' '] (lexed type),
        (if notNull then [keyword [' '] "NOT", keyword [' '] "NULL"] else []) ++
          defaultValue.toList.flatMap fun e => keyword [' '] "DEFAULT" :: regap [' '] (lexed e)) := by
  apply spanType_append_of_atTop (atTop_regap (fun _ _ _ h => h) _ h.noClause)
  intro l hl
  rw [map_token_regap]
  refine ⟨h.level.balanced.depth, ?_⟩
  cases notNull with
  | true =>
    cases hl
    rfl
  | false =>
    cases defaultValue with
    | none => cases hl
    | some e =>
      cases hl
      rfl

theorem columnDefinition_lexemes (strict inferId : Bool) (table : QualifiedName)
    {name type : String} {notNull : Bool} {defaultValue : Option String}
    (h : (Definition.column name type notNull defaultValue).Readable) :
    Script.columnDefinition strict inferId table
        (Definition.column name type notNull defaultValue).lexemes =
      .ok { name, type, nullable := !((inferId && name == implicitKeyName) || notNull), defaultValue,
            isPrimaryKey := inferId && name == implicitKeyName
            isUnique := inferId && name == implicitKeyName } := by
  obtain ⟨htype, hdefault⟩ := h
  have hname : Script.name "column name" (Definition.column name type notNull defaultValue).lexemes =
    .ok (name, regap [' '] (lexed type) ++
      ((if notNull then [keyword [' '] "NOT", keyword [' '] "NULL"] else []) ++
        defaultValue.toList.flatMap fun e => keyword [' '] "DEFAULT" :: regap [' '] (lexed e))) := rfl
  have hne : (regap [' '] (lexed type)).isEmpty = false := by
    obtain ⟨l, ls, hls, -⟩ := htype.flush
    rw [hls]
    rfl
  have hverbatim : String.ofList (verbatim (regap [' '] (lexed type))) = type := by
    rw [verbatim_regap, verbatim_of_flush htype.flush, ← htype.text_eq, String.ofList_toList]
  rw [Script.columnDefinition, hname]
  simp only [inContext, mapError_ok, bind, Except.bind, spanType_lexemes htype, hne, hverbatim,
    columnClauses_lexemes strict _ notNull hdefault]
  cases inferId && name == implicitKeyName <;> cases notNull <;> simp [ColumnDraft.markPrimaryKey]

theorem primaryKeyItem_lexemes {columns : List String} (h : columns ≠ []) :
    primaryKeyItem (inParens (listed quotedName columns)) = .ok (.primaryKey columns) := by
  obtain ⟨n, ns, rfl⟩ := List.exists_cons_of_ne_nil h
  have hlist := nameList_listed "primary key columns" n ns []
  rw [List.append_nil] at hlist
  rw [primaryKeyItem, hlist]
  rfl

theorem uniqueItem_lexemes (name : String) :
    uniqueItem (inParens (listed quotedName [name])) = .ok (.unique [name]) := by
  have hlist := nameList_listed "unique columns" name [] []
  rw [List.append_nil] at hlist
  rw [uniqueItem, hlist]
  rfl

theorem foreignKeyItem_lexemes (table : QualifiedName) (name source : String)
    (target : QualifiedName) (targetColumn : String) (onDelete onUpdate : Option Action) :
    foreignKeyItem table (some name) (inParens (listed quotedName [source]) ++
        (keyword [' '] "REFERENCES" :: (qualifiedLexemes [' '] target ++
          (inParens (listed quotedName [targetColumn]) ++
            (actionLexemes "DELETE" onDelete ++ actionLexemes "UPDATE" onUpdate))))) =
      .ok (.foreignKey ⟨name, source, target, targetColumn, onDelete, onUpdate⟩) := by
  let actions := actionLexemes "DELETE" onDelete ++ actionLexemes "UPDATE" onUpdate
  let back := inParens (listed quotedName [targetColumn]) ++ actions
  have hsource := nameList_listed "foreign key column" source []
    (keyword [' '] "REFERENCES" :: (qualifiedLexemes [' '] target ++ back))
  have hreferences : expectKeywords ["REFERENCES"]
    (keyword [' '] "REFERENCES" :: (qualifiedLexemes [' '] target ++ back)) =
      .ok (qualifiedLexemes [' '] target ++ back) := rfl
  have htarget : qualifiedName "referenced table" (qualifiedLexemes [' '] target ++ back) =
    .ok (target, back) := rfl
  have hcolumn := nameList_listed "referenced column" targetColumn [] actions
  have hactions : referenceActions {} actions = _ := referenceActions_lexemes onDelete onUpdate
  rw [foreignKeyItem, hsource]
  simp only [inContext, bind, Except.bind, hreferences, htarget, back, hcolumn, hactions]
  rfl

theorem tableItem_text (options : Options) (table : QualifiedName) (d : Definition)
    (h : d.Readable) :
    tableItem options table d.text.toList = .ok (d.item options.inferId) := by
  have hlex : lex d.text.toList = .ok d.lexemes := by
    have := lexemes_eq_ok_iff.2 ⟨(List.append_nil _).symm, d.chain_lexemes h, .closed .nil⟩
    rw [lex, ← d.written_lexemes h, this]
    rfl
  rw [tableItem, hlex]
  cases d with
  | column name type notNull defaultValue =>
    change (Script.columnDefinition _ _ _ _).bind _ = _
    rw [columnDefinition_lexemes _ _ _ h]
    rfl
  | primaryKey columns => exact primaryKeyItem_lexemes h
  | unique name => exact uniqueItem_lexemes name
  | foreignKey name source target targetColumn onDelete onUpdate =>
    exact foreignKeyItem_lexemes table name source target targetColumn onDelete onUpdate

/-! ## Statements -/

/-- What a statement is read as. -/
def Statement.read (options : Options) : Statement → Except String Entry
  | .createSchema name => .ok (.schema name)
  | .createType key values => .ok (.type ⟨key, values⟩)
  | .createTable key definitions =>
    (TableDraft.ofItems options.strict key
      (definitions.map (Definition.item options.inferId))).map .table
  | .commentOnTable key text => .ok (.comment ⟨.table key, some text⟩)
  | .commentOnColumn key column text => .ok (.comment ⟨.column key column, some text⟩)

theorem moreEnumValues_listed (ss : List String) (rest : List Lexeme) :
    moreEnumValues ((ss.flatMap fun s => [comma, quotedLiteral [' '] s]) ++
      closeParen [] :: rest) = .ok (ss, rest) := by
  induction ss with
  | nil => cases rest <;> rfl
  | cons s ss ih =>
    simp only [List.flatMap_cons, List.cons_append, List.nil_append]
    rw [moreEnumValues]
    change (moreEnumValues _).bind _ = _
    rw [ih]
    rfl

theorem enumValues_listed (s : String) (ss : List String) (rest : List Lexeme) :
    enumValues (listed quotedLiteral (s :: ss) ++ closeParen [] :: rest) = .ok (s :: ss, rest) := by
  change (moreEnumValues ((ss.flatMap fun s => [comma, quotedLiteral [' '] s]) ++
    closeParen [] :: rest)).bind _ = _
  rw [moreEnumValues_listed]
  rfl

theorem mapM_tableItem (options : Options) (table : QualifiedName) {ds : List Definition}
    (h : ∀ d ∈ ds, d.Readable) :
    (ds.map fun d => d.text.toList).mapM (tableItem options table) =
      .ok (ds.map (Definition.item options.inferId)) := by
  induction ds with
  | nil => rfl
  | cons d ds ih =>
    have hds := ih fun x hx => h x (List.mem_cons_of_mem d hx)
    rw [List.map_cons, List.mapM_cons, tableItem_text options table d (h d List.mem_cons_self), hds]
    rfl

theorem createTable_lexemes (options : Options) (isDefined : QualifiedName → Bool)
    (key : QualifiedName) {ds : List Definition} (h : ∀ d ∈ ds, d.Readable)
    (hdefined : isDefined key = false) :
    createTable options isDefined (qualifiedLexemes [' '] key ++
        (openParen [' '] :: (bodyLexemes ds ++ [closeParen (bodyGap ds), semicolon]))) =
      (TableDraft.ofItems options.strict key (ds.map (Definition.item options.inferId))).map
        .table := by
  let inside := openParen [' '] :: (bodyLexemes ds ++ [closeParen (bodyGap ds), semicolon])
  have hkey : qualifiedName "table name" (skipKeywords ["IF", "NOT", "EXISTS"]
      (qualifiedLexemes [' '] key ++ inside)) = .ok (key, inside) := by
    refine qualifiedName_lexemes (fun l hl => ?_) _ [' '] key
    cases hl
    decide
  have hbalanced := balanced_bodyLexemes h
  have henclosed : (takeToken .openParen inside).bind (enclosed 0) =
      some ⟨bodyLexemes ds, closeParen (bodyGap ds), [semicolon]⟩ :=
    enclosed_append hbalanced.closed hbalanced.depth rfl
  have hitems : (listItems (Enclosed.body ⟨bodyLexemes ds, closeParen (bodyGap ds), [semicolon]⟩)).mapM
      (tableItem options key) = .ok (ds.map (Definition.item options.inferId)) := by
    rw [← mapM_tableItem options key h, ← listItems_body h]
    rfl
  change createTable options isDefined (qualifiedLexemes [' '] key ++ inside) = _
  rw [createTable, hkey]
  simp only [inContext, mapError_ok, bind, Except.bind, henclosed, hdefined, hitems]
  cases TableDraft.ofItems options.strict key (ds.map (Definition.item options.inferId)) <;> rfl

theorem commentText_lexemes {text : String} (h : text ≠ "") :
    Script.commentText [keyword [' '] "IS", quotedLiteral [' '] text, semicolon] = .ok (some text) := by
  have htext : (text == "") = false := beq_eq_false_iff_ne.2 h
  change Except.ok (if text == "" then none else some text) = _
  rw [htext]
  rfl

theorem createType_lexemes (strict : Bool) (text : List Char) (key : QualifiedName)
    {values : List String} (h : values ≠ []) :
    createType strict text (qualifiedLexemes [' '] key ++
        (keyword [' '] "AS" :: keyword [' '] "ENUM" ::
          (inParens (listed quotedLiteral values) ++ [semicolon]))) =
      .ok (some (.type ⟨key, values⟩)) := by
  obtain ⟨v, vs, rfl⟩ := List.exists_cons_of_ne_nil h
  let back := listed quotedLiteral (v :: vs) ++ closeParen [] :: [semicolon]
  have hback : inParens (listed quotedLiteral (v :: vs)) ++ [semicolon] = openParen [' '] :: back := by
    simp [inParens, back]
  have hkey : qualifiedName "type name" (qualifiedLexemes [' '] key ++
      (keyword [' '] "AS" :: keyword [' '] "ENUM" :: openParen [' '] :: back)) =
    .ok (key, keyword [' '] "AS" :: keyword [' '] "ENUM" :: openParen [' '] :: back) := rfl
  have has : expectKeywords ["AS"] (keyword [' '] "AS" :: keyword [' '] "ENUM" ::
    openParen [' '] :: back) = .ok (keyword [' '] "ENUM" :: openParen [' '] :: back) := rfl
  have henum : takeKeywords ["ENUM"] (keyword [' '] "ENUM" :: openParen [' '] :: back) =
    some (openParen [' '] :: back) := rfl
  have hopen : expectToken .openParen "`(` before enum values" (openParen [' '] :: back) =
    .ok back := rfl
  have hvalues : enumValues back = .ok (v :: vs, [semicolon]) := enumValues_listed v vs [semicolon]
  rw [hback]
  simp only [createType, inContext, mapError_ok, bind, Except.bind, hkey, has, henum, hopen, hvalues]
  rfl

theorem commentOnTable_lexemes (key : QualifiedName) {text : String} (h : text ≠ "") :
    commentOnTable (qualifiedLexemes [' '] key ++
        [keyword [' '] "IS", quotedLiteral [' '] text, semicolon]) =
      .ok (.comment ⟨.table key, some text⟩) := by
  have hkey : qualifiedName "table name" (qualifiedLexemes [' '] key ++
    [keyword [' '] "IS", quotedLiteral [' '] text, semicolon]) =
      .ok (key, [keyword [' '] "IS", quotedLiteral [' '] text, semicolon]) := rfl
  simp only [commentOnTable, inContext, bind, Except.bind, hkey, commentText_lexemes h]
  rfl

theorem commentOnColumn_lexemes (key : QualifiedName) (column : String) {text : String}
    (h : text ≠ "") :
    commentOnColumn (qualifiedLexemes [' '] key ++ [dot, quotedName [] column,
        keyword [' '] "IS", quotedLiteral [' '] text, semicolon]) =
      .ok (.comment ⟨.column key column, some text⟩) := by
  have hcolumn : names .dot "column name" (qualifiedLexemes [' '] key ++ [dot, quotedName [] column,
      keyword [' '] "IS", quotedLiteral [' '] text, semicolon]) =
    .ok ((key.schema, [key.name, column]),
      [keyword [' '] "IS", quotedLiteral [' '] text, semicolon]) := rfl
  simp only [commentOnColumn, inContext, bind, Except.bind, hcolumn, QualifiedName.columnOfParts?,
    commentText_lexemes h]
  rfl

theorem readStatement_text (options : Options) {isDefined : QualifiedName → Bool} (s : Statement)
    (h : s.Readable)
    (hdefined : ∀ key definitions, s = .createTable key definitions → isDefined key = false) :
    readStatement options isDefined s.text.toList = (s.read options).map some := by
  have hlex : lex s.text.toList = .ok s.lexemes := by
    rw [lex, s.lexemes_text h]
    rfl
  have hsome : (s.lexemes.all fun l => l.token == .semicolon) = false := by
    cases s <;> rfl
  rw [readStatement, hlex]
  simp only [mapError_ok, bind, Except.bind, hsome, Bool.false_eq_true, if_false]
  cases s with
  | createSchema name => rfl
  | createType key values =>
    have hdispatch : dispatch statementRules (Statement.createType key values).lexemes =
      some (.createType, qualifiedLexemes [' '] key ++ (keyword [' '] "AS" ::
        keyword [' '] "ENUM" :: (inParens (listed quotedLiteral values) ++ [semicolon]))) := by
      simp only [Statement.lexemes, Statement.phrase, List.cons_append, List.append_assoc]
      rfl
    rw [hdispatch]
    exact createType_lexemes options.strict _ key h
  | createTable key definitions =>
    have htable := createTable_lexemes options isDefined key h (hdefined key definitions rfl)
    have hdispatch : dispatch statementRules (Statement.createTable key definitions).lexemes =
      some (.createTable, qualifiedLexemes [' '] key ++ (openParen [' '] ::
        (bodyLexemes definitions ++ [closeParen (bodyGap definitions), semicolon]))) := by
      simp only [Statement.lexemes, Statement.phrase, List.cons_append, List.append_assoc]
      rfl
    rw [hdispatch]
    simp only [htable, Statement.read]
    cases TableDraft.ofItems options.strict key
      (definitions.map (Definition.item options.inferId)) <;> rfl
  | commentOnTable key text =>
    have hdispatch : dispatch statementRules (Statement.commentOnTable key text).lexemes =
      some (.commentOnTable, qualifiedLexemes [' '] key ++
        [keyword [' '] "IS", quotedLiteral [' '] text, semicolon]) := rfl
    rw [hdispatch]
    simp only [commentOnTable_lexemes key h]
    rfl
  | commentOnColumn key column text =>
    have hdispatch : dispatch statementRules (Statement.commentOnColumn key column text).lexemes =
      some (.commentOnColumn, qualifiedLexemes [' '] key ++ [dot, quotedName [] column,
        keyword [' '] "IS", quotedLiteral [' '] text, semicolon]) := rfl
    rw [hdispatch]
    simp only [commentOnColumn_lexemes key column h]
    rfl

/-- Two `CREATE TABLE` statements with one text are read with the same items. -/
theorem map_item_eq_of_text_eq {key : QualifiedName} {ds ds' : List Definition}
    (h : ∀ d ∈ ds, d.Readable) (h' : ∀ d ∈ ds', d.Readable)
    (htext : (Statement.createTable key ds).text = (Statement.createTable key ds').text)
    (inferId : Bool) : ds.map (Definition.item inferId) = ds'.map (Definition.item inferId) := by
  have hlexemes : (Statement.createTable key ds).lexemes = (Statement.createTable key ds').lexemes := by
    have hread := (Statement.createTable key ds).lexemes_text h
    rw [htext, (Statement.createTable key ds').lexemes_text h'] at hread
    exact (Prod.mk.inj (Except.ok.inj hread)).1.symm
  have hphrase := (List.cons.inj (List.cons.inj (List.append_cancel_right hlexemes)).2).2
  have hinside := (List.cons.inj (List.append_cancel_left hphrase)).2
  obtain ⟨hbody, hclose⟩ := List.append_inj' hinside rfl
  have hgap : bodyGap ds = bodyGap ds' := congrArg Lexeme.gap (List.cons.inj hclose).1
  have htexts : (ds.map fun d => d.text.toList) = ds'.map fun d => d.text.toList := by
    rw [← listItems_body h, hbody, hgap, listItems_body h']
  have hitems := mapM_tableItem { inferId } key h
  rw [htexts, mapM_tableItem { inferId } key h'] at hitems
  exact (Except.ok.inj hitems).symm

end SchemaDdl.Ddl
