import SchemaDdl.Proofs.Reading.Body

/-!
# Statements on their own

Of the statements before it, a statement only sees which tables they define. So what a script
declares hangs on its statements one by one, as long as no table is defined twice.
-/

namespace SchemaDdl.Script

/-- What a statement declares if no table is defined before it. -/
def readAlone (options : Options) (text : List Char) : Except String (Option Entry) :=
  readStatement options (fun _ => false) text

section Change

variable {options : Options} {isDefined isDefined' : QualifiedName → Bool}

theorem createTable_change {ls : List Lexeme} {e : Entry} (h : createTable options isDefined ls = .ok e)
    (hnew : ∀ t, e = .table t → isDefined' t.key = false) :
    createTable options isDefined' ls = .ok e := by
  obtain ⟨key, rest, body, items, t, hkey, hbody, hdone, -, hitems, ht, rfl⟩ :=
    createTable_eq_ok_iff.1 h
  have hdefined := hnew t rfl
  rw [Draft.key_ofItems ht] at hdefined
  exact createTable_eq_ok_iff.2
    ⟨key, rest, body, items, t, hkey, hbody, hdone, hdefined, hitems, ht, rfl⟩

/-- A statement is read alike as long as the table that it declares is not defined before. -/
theorem readStatement_change {text : List Char} {e : Option Entry}
    (h : readStatement options isDefined text = .ok e)
    (hnew : ∀ t, e = some (.table t) → isDefined' t.key = false) :
    readStatement options isDefined' text = .ok e := by
  obtain ⟨ls, hls, h⟩ := bind_eq_ok_iff.1 h
  refine bind_eq_ok_iff.2 ⟨ls, hls, ?_⟩
  by_cases hall : (ls.all fun l => l.token == .semicolon) = true
  · rw [if_pos hall] at h ⊢
    exact h
  · rw [if_neg hall] at h ⊢
    cases hdispatch : dispatch statementRules ls with
    | none =>
      rw [hdispatch] at h
      exact h
    | some p =>
      obtain ⟨kind, rest⟩ := p
      rw [hdispatch] at h
      cases kind with
      | createTable =>
        obtain ⟨e', he, h⟩ := bind_eq_ok_iff.1 h
        cases h
        exact bind_eq_ok_iff.2 ⟨e', createTable_change he fun t ht => hnew t (congrArg some ht), rfl⟩
      | _ => exact h

theorem readStatement_eq_ok_iff {text : List Char} {e : Option Entry} :
    readStatement options isDefined text = .ok e ↔
      readAlone options text = .ok e ∧ ∀ t, e = some (.table t) → isDefined t.key = false := by
  constructor
  · intro h
    refine ⟨readStatement_change h fun _ _ => rfl, fun t ht => ?_⟩
    rw [ht] at h
    exact (readStatement_sound h).2 t rfl
  · exact fun h => readStatement_change h.1 h.2

end Change

/-! ## Kinds of statements -/

def statementKind? (text : List Char) : Option StatementKind :=
  match lex text with
  | .ok ls => (dispatch statementRules ls).map Prod.fst
  | .error _ => none

def isCreateType (text : List Char) : Bool :=
  statementKind? text == some .createType

def isComment (text : List Char) : Bool :=
  statementKind? text == some .commentOnTable || statementKind? text == some .commentOnColumn

section Kind

variable {options : Options} {isDefined : QualifiedName → Bool} {text : List Char} {e : Entry}

/-- What a statement declares is of its kind. -/
theorem kind_of_readStatement (h : readStatement options isDefined text = .ok (some e)) :
    (e.type?.isSome → isCreateType text = true) ∧ (e.comment?.isSome → isComment text = true) := by
  obtain ⟨ls, hls, h⟩ := bind_eq_ok_iff.1 h
  have hkind : statementKind? text = (dispatch statementRules ls).map Prod.fst := by
    rw [statementKind?, mapError_eq_ok_iff.1 hls]
  rw [isCreateType, isComment, hkind]
  by_cases hall : (ls.all fun l => l.token == .semicolon) = true
  · rw [if_pos hall] at h
    cases h
  · rw [if_neg hall] at h
    cases hdispatch : dispatch statementRules ls with
    | none =>
      rw [hdispatch] at h
      cases unsupported_eq_ok h
    | some p =>
      obtain ⟨kind, rest⟩ := p
      rw [hdispatch] at h
      cases kind with
      | createSchema =>
        obtain ⟨e', he, h⟩ := bind_eq_ok_iff.1 h
        cases h
        obtain ⟨name, rfl⟩ := createSchema_sound he
        exact ⟨fun hs => (by cases hs), fun hs => (by cases hs)⟩
      | createType =>
        obtain ⟨t, rfl, -⟩ := createType_sound h
        exact ⟨fun _ => rfl, fun hs => (by cases hs)⟩
      | createTable =>
        obtain ⟨e', he, h⟩ := bind_eq_ok_iff.1 h
        cases h
        obtain ⟨-, -, -, -, t, -, -, -, -, -, -, rfl⟩ := createTable_eq_ok_iff.1 he
        exact ⟨fun hs => (by cases hs), fun hs => (by cases hs)⟩
      | commentOnTable =>
        obtain ⟨e', he, h⟩ := bind_eq_ok_iff.1 h
        cases h
        obtain ⟨c, rfl, -⟩ := commentOnTable_sound he
        exact ⟨fun hs => (by cases hs), fun _ => rfl⟩
      | commentOnColumn =>
        obtain ⟨e', he, h⟩ := bind_eq_ok_iff.1 h
        cases h
        obtain ⟨c, rfl, -⟩ := commentOnColumn_sound he
        exact ⟨fun hs => (by cases hs), fun _ => rfl⟩

end Kind

/-! ## Statements with another body -/

section Table

variable {options : Options} {text text' : List Char}

/-- A `CREATE TABLE` statement declares what its body makes up. -/
theorem TableLexemes.Reads.readAlone_iff {c : TableLexemes} {key : QualifiedName}
    (h : c.Reads key text) {e : Option Entry} :
    readAlone options text = .ok e ↔ isDone c.enclosed.rest = true ∧ ∃ items t,
      (listItems c.texts.body).mapM (tableItem options key) = .ok items ∧
        TableDraft.ofItems options.strict key items = .ok t ∧ e = some (.table t) := by
  obtain ⟨rest, hdispatch, hkey⟩ := h.key
  have hlex : lex text = .ok (c.front ++ c.opening :: c.inside) := by
    rw [lex, h.lexemes]
    rfl
  have hall : ((c.front ++ c.opening :: c.inside).all fun l => l.token == .semicolon) = false :=
    List.all_eq_false.2 ⟨c.opening, by simp, by simp [h.opening]⟩
  have hrule : dispatch statementRules (c.front ++ c.opening :: c.inside) =
      some (.createTable, rest ++ c.opening :: c.inside) := by
    rw [dispatch_front h.opening, hdispatch]
    rfl
  have hname : qualifiedName "table name"
      (skipKeywords ["IF", "NOT", "EXISTS"] (rest ++ c.opening :: c.inside)) =
        .ok (key, c.opening :: c.inside) := by
    rw [skipKeywords_front h.opening]
    exact (qualifiedName_front h.opening).2 ⟨[], hkey, rfl⟩
  have hbody : (takeToken .openParen (c.opening :: c.inside)).bind (Script.enclosed 0) =
      some c.enclosed := by
    rw [takeToken, h.opening]
    exact h.enclosed
  have hread : readAlone options text =
      (createTable options (fun _ => false) (rest ++ c.opening :: c.inside)).map some := by
    rw [readAlone, readStatement, hlex]
    simp only [mapError_ok, bind, Except.bind, hall, hrule]
    cases createTable options (fun _ => false) (rest ++ c.opening :: c.inside) <;> rfl
  rw [hread]
  constructor
  · intro h
    obtain ⟨e', he, rfl⟩ := exists_of_map_eq_ok h
    obtain ⟨key', rest', body, items, t, hkey', hbody', hdone, -, hitems, ht, rfl⟩ :=
      createTable_eq_ok_iff.1 he
    rw [hname] at hkey'
    cases hkey'
    rw [hbody] at hbody'
    cases hbody'
    exact ⟨hdone, items, t, hitems, ht, rfl⟩
  · rintro ⟨hdone, items, t, hitems, ht, rfl⟩
    have he : createTable options (fun _ => false) (rest ++ c.opening :: c.inside) = .ok (.table t) :=
      createTable_eq_ok_iff.2 ⟨key, _, _, items, t, hname, hbody, hdone, rfl, hitems, ht, rfl⟩
    rw [he]
    rfl

/-- `CREATE TABLE` statements that differ only in the order of their items declare the same. -/
theorem readAlone_of_rearranged {x : TableText} {body : List Char} (h : tableText? text = some x)
    (h' : tableText? text' = some { x with body })
    (hbody : Rearranged [isColumnItem, isForeignKeyItem] (listItems x.body) (listItems body))
    {e : Option Entry} (he : readAlone options text = .ok e) : readAlone options text' = .ok e := by
  obtain ⟨c, key, hc, rfl⟩ := exists_reads_of_tableText? h
  obtain ⟨c', key', hc', htexts⟩ := exists_reads_of_tableText? h'
  have hhead : c'.texts.head = c.texts.head := by rw [htexts]
  have htail : c'.texts.tail = c.texts.tail := by rw [htexts]
  have hbody' : c'.texts.body = body := by rw [htexts]
  have hkey := hc.key_eq hc' hhead
  have hrest := hc.rest_eq hc' htail
  obtain ⟨hdone, items, t, hitems, ht, rfl⟩ := hc.readAlone_iff.1 he
  obtain ⟨items', hitems', ht'⟩ := exists_ofItems_of_rearranged hbody hitems ht
  subst hkey
  refine hc'.readAlone_iff.2 ⟨hrest ▸ hdone, items', t, ?_, ht', rfl⟩
  rwa [hbody']

end Table

end SchemaDdl.Script
