import SchemaDdl.Ddl.Statement
import SchemaDdl.Proofs.Reading.Excerpt

/-!
# The lexemes of generated statements

Each definition and each statement as a list of lexemes, with the separators in the gaps. Quoting
keeps every name and every literal one token, and types and defaults bring the lexemes that they
have on their own.
-/

namespace SchemaDdl.Ddl

open Script

theorem quotedText_doubled (quote : Char) (cs : List Char) :
    quotedText quote (doubled quote cs ++ [quote]) = some ⟨cs, doubled quote cs ++ [quote], []⟩ := by
  induction cs with
  | nil => simp [doubled, quotedText]
  | cons c cs ih =>
    by_cases hc : c = quote
    · subst hc
      simp [doubled, quotedText, ih]
    · cases hd : doubled quote cs with
      | nil =>
        rw [hd, List.nil_append] at ih
        have hcs : cs = [] := by simpa [quotedText, eq_comm] using ih
        simp [doubled, quotedText, hc, hcs]
      | cons d ds =>
        rw [hd, List.cons_append] at ih
        simp [doubled, quotedText, hc, hd, ih]

theorem spells_identifier (s : String) : Spells (.quoted s) (identifier s).toList := by
  have h := Spells.quoted (quotedText_doubled '"' s.toList)
  rw [String.ofList_toList] at h
  rw [identifier, quoted, String.toList_ofList]
  exact h

theorem spells_literal (s : String) : Spells (.string s) (literal s).toList := by
  have h := Spells.string (quotedText_doubled '\'' s.toList)
  rw [String.ofList_toList] at h
  rw [literal, quoted, String.toList_ofList]
  exact h

/-- Whether the string is one word. -/
def isWord (w : String) : Bool :=
  match w.toList with
  | [] => false
  | c :: cs => startsWord c && cs.all continuesWord

theorem spells_word {w : String} (h : isWord w = true) : Spells (.word w) w.toList := by
  unfold isWord at h
  split at h
  · cases h
  · rename_i c cs hw
    rw [Bool.and_eq_true, List.all_eq_true] at h
    have := Spells.word h.1 h.2
    rwa [← hw, String.ofList_toList] at this

/-! ## Single lexemes -/

def keyword (gap : List Char) (w : String) : Lexeme :=
  ⟨gap, w.toList, .word w⟩

def quotedName (gap : List Char) (s : String) : Lexeme :=
  ⟨gap, (identifier s).toList, .quoted s⟩

def quotedLiteral (gap : List Char) (s : String) : Lexeme :=
  ⟨gap, (literal s).toList, .string s⟩

def openParen (gap : List Char) : Lexeme :=
  ⟨gap, ['('], .openParen⟩

def closeParen (gap : List Char) : Lexeme :=
  ⟨gap, [')'], .closeParen⟩

def comma : Lexeme :=
  ⟨[], [','], .comma⟩

def dot : Lexeme :=
  ⟨[], ['.'], .dot⟩

def semicolon : Lexeme :=
  ⟨[], [';'], .semicolon⟩

/-! ## Phrases -/

def qualifiedLexemes (gap : List Char) (key : QualifiedName) : List Lexeme :=
  [quotedName gap key.schema, dot, quotedName [] key.name]

/-- Names or literals with commas between them. -/
def listed (mk : List Char → String → Lexeme) : List String → List Lexeme
  | [] => []
  | s :: ss => mk [] s :: ss.flatMap fun s => [comma, mk [' '] s]

def inParens (ls : List Lexeme) : List Lexeme :=
  openParen [' '] :: (ls ++ [closeParen []])

def actionLexemes (event : String) : Option Action → List Lexeme
  | none => []
  | some a => keyword [' '] "ON" :: keyword [' '] event :: a.keywords.map (keyword [' '])

/-- The lexemes of a text that can be read. -/
def lexed (s : String) : List Lexeme :=
  match lexemes s.toList with
  | .ok (ls, _) => ls
  | .error _ => []

def Definition.lexemes : Definition → List Lexeme
  | .column name type notNull defaultValue =>
    quotedName [] name :: (regap [' '] (lexed type) ++
      ((if notNull then [keyword [' '] "NOT", keyword [' '] "NULL"] else []) ++
        defaultValue.toList.flatMap fun e => keyword [' '] "DEFAULT" :: regap [' '] (lexed e)))
  | .primaryKey columns =>
    keyword [] "PRIMARY" :: keyword [' '] "KEY" :: inParens (listed quotedName columns)
  | .unique name => keyword [] "UNIQUE" :: inParens (listed quotedName [name])
  | .foreignKey name source target targetColumn onDelete onUpdate =>
    keyword [] "CONSTRAINT" :: quotedName [' '] name :: keyword [' '] "FOREIGN" ::
      keyword [' '] "KEY" :: (inParens (listed quotedName [source]) ++
        (keyword [' '] "REFERENCES" :: (qualifiedLexemes [' '] target ++
          (inParens (listed quotedName [targetColumn]) ++
            (actionLexemes "DELETE" onDelete ++ actionLexemes "UPDATE" onUpdate)))))

/-- The gap in front of each definition in a table body. -/
def itemGap : List Char :=
  ['\n', ' ', ' ']

def bodyLexemes : List Definition → List Lexeme
  | [] => []
  | d :: ds => regap itemGap d.lexemes ++ ds.flatMap fun d => comma :: regap itemGap d.lexemes

/-- The gap behind the last definition. -/
def bodyGap (ds : List Definition) : List Char :=
  if ds.isEmpty then itemGap ++ ['\n'] else ['\n']

/-- The lexemes of a statement up to its semicolon. -/
def Statement.phrase : Statement → List Lexeme
  | .createSchema name =>
    [keyword [] "CREATE", keyword [' '] "SCHEMA", keyword [' '] "IF", keyword [' '] "NOT",
      keyword [' '] "EXISTS", quotedName [' '] name]
  | .createType key values =>
    keyword [] "CREATE" :: keyword [' '] "TYPE" :: (qualifiedLexemes [' '] key ++
      (keyword [' '] "AS" :: keyword [' '] "ENUM" :: inParens (listed quotedLiteral values)))
  | .createTable key definitions =>
    keyword [] "CREATE" :: keyword [' '] "TABLE" :: (qualifiedLexemes [' '] key ++
      (openParen [' '] :: (bodyLexemes definitions ++ [closeParen (bodyGap definitions)])))
  | .commentOnTable key text =>
    keyword [] "COMMENT" :: keyword [' '] "ON" :: keyword [' '] "TABLE" ::
      (qualifiedLexemes [' '] key ++ [keyword [' '] "IS", quotedLiteral [' '] text])
  | .commentOnColumn key column text =>
    keyword [] "COMMENT" :: keyword [' '] "ON" :: keyword [' '] "COLUMN" ::
      (qualifiedLexemes [' '] key ++
        [dot, quotedName [] column, keyword [' '] "IS", quotedLiteral [' '] text])

def Statement.lexemes (s : Statement) : List Lexeme :=
  s.phrase ++ [semicolon]

/-! ## Texts -/

theorem intercalate_cons {α : Type} (sep : List α) (x : List α) (xs : List (List α)) :
    sep.intercalate (x :: xs) = x ++ xs.flatMap fun y => sep ++ y := by
  induction xs generalizing x with
  | nil => simp
  | cons y ys ih => rw [List.flatMap_cons, List.append_assoc, ← ih y]; simp [List.intercalate]

theorem written_listed {mk : List Char → String → Lexeme} {spell : String → String}
    (hmk : ∀ g s, mk g s = ⟨g, (spell s).toList, (mk g s).token⟩) (ss : List String) :
    written (listed mk ss) = (", ".intercalate (ss.map spell)).toList := by
  have hgap (g : List Char) (s : String) : (mk g s).gap = g := by rw [hmk]
  have htext (g : List Char) (s : String) : (mk g s).text = (spell s).toList := by rw [hmk]
  rw [String.toList_intercalate, List.map_map]
  cases ss with
  | nil => rfl
  | cons s ss =>
    rw [List.map_cons, intercalate_cons, listed, written_cons, hgap, htext, List.nil_append]
    congr 1
    induction ss with
    | nil => rfl
    | cons t ts ih =>
      rw [List.flatMap_cons, List.map_cons, List.flatMap_cons, written_append, ih]
      simp [hgap, htext, comma, Function.comp_apply]

theorem toList_qualified (key : QualifiedName) :
    (qualified key).toList = (identifier key.schema).toList ++ '.' :: (identifier key.name).toList := by
  simp [qualified]

theorem written_qualifiedLexemes (gap : List Char) (key : QualifiedName) :
    written (qualifiedLexemes gap key) = gap ++ (qualified key).toList := by
  rw [toList_qualified]
  simp [qualifiedLexemes, quotedName, dot]

theorem written_listed_quotedName (ss : List String) :
    written (listed quotedName ss) = (identifiers ss).toList :=
  written_listed (fun _ _ => rfl) ss

theorem written_inParens (ls : List Lexeme) :
    written (inParens ls) = ' ' :: '(' :: (written ls ++ [')']) := by
  simp [inParens, openParen, closeParen]

theorem actionText_some (event : String) (a : Action) :
    actionText event (some a) = " ON " ++ event ++ " " ++ a.spelling := rfl

theorem toList_spelling (a : Action) :
    ' ' :: a.spelling.toList = written (a.keywords.map (keyword [' '])) := by
  cases a <;> rfl

theorem written_actionLexemes (event : String) (a : Option Action) :
    written (actionLexemes event a) = (actionText event a).toList := by
  cases a with
  | none => rfl
  | some a =>
    have hon : " ON ".toList = ' ' :: "ON".toList ++ [' '] := rfl
    have hblank : " ".toList = [' '] := rfl
    rw [actionLexemes, written_cons, written_cons, ← toList_spelling, actionText_some,
      String.toList_append, String.toList_append, String.toList_append, hon, hblank]
    simp [keyword]

/-! ## Definitions -/

theorem lexed_eq {s : String} {ls : List Lexeme} (h : Excerpt s.toList ls) : lexed s = ls := by
  rw [lexed, h.read]

/-- The raw text in a definition is read as it is written, and no list is empty that has to hold
something. -/
def Definition.Readable : Definition → Prop
  | .column _ type _ defaultValue =>
    TypeExcerpt type.toList (lexed type) ∧ ∀ e ∈ defaultValue, DefaultExcerpt e.toList (lexed e)
  | .primaryKey columns => columns ≠ []
  | _ => True

theorem written_pasted {s : String} (h : Excerpt s.toList (lexed s)) (g : List Char) :
    written (regap g (lexed s)) = g ++ s.toList := by
  rw [written_regap h.flush.ne_nil, verbatim_of_flush h.flush, ← h.text_eq]

theorem written_column {name type : String} {notNull : Bool} {defaultValue : Option String}
    (h : (Definition.column name type notNull defaultValue).Readable) :
    written (Definition.column name type notNull defaultValue).lexemes =
      (Definition.column name type notNull defaultValue).text.toList := by
  obtain ⟨htype, hdefault⟩ := h
  have htext : (Definition.column name type notNull defaultValue).text =
      " ".intercalate ([identifier name, type] ++ (if notNull then ["NOT NULL"] else []) ++
        defaultValue.toList.map ("DEFAULT " ++ ·)) := rfl
  have hblank : " ".toList = [' '] := rfl
  have hnot : written (if notNull then [keyword [' '] "NOT", keyword [' '] "NULL"] else []) =
      (if notNull then ["NOT NULL"] else []).flatMap fun s => ' ' :: s.toList := by
    cases notNull <;> rfl
  have hword : "DEFAULT ".toList = "DEFAULT".toList ++ [' '] := rfl
  have hpasted : written (defaultValue.toList.flatMap fun e =>
      keyword [' '] "DEFAULT" :: regap [' '] (lexed e)) =
        (defaultValue.toList.map ("DEFAULT " ++ ·)).flatMap fun s => ' ' :: s.toList := by
    cases defaultValue with
    | none => rfl
    | some e =>
      have := written_pasted (hdefault e rfl).toExcerpt [' ']
      simp [keyword, this, hword]
  rw [Definition.lexemes, written_cons, written_append, written_append,
    written_pasted htype.toExcerpt, hnot, hpasted, htext, String.toList_intercalate, hblank]
  simp [quotedName, intercalate_cons, List.flatMap_map]

theorem written_foreignKey (name source : String) (target : QualifiedName) (targetColumn : String)
    (onDelete onUpdate : Option Action) :
    written (Definition.foreignKey name source target targetColumn onDelete onUpdate).lexemes =
      (Definition.foreignKey name source target targetColumn onDelete onUpdate).text.toList := by
  have htext : (Definition.foreignKey name source target targetColumn onDelete onUpdate).text =
      ("CONSTRAINT " ++ identifier name ++ " FOREIGN KEY (" ++ identifier source ++ ") ") ++
        ("REFERENCES " ++ qualified target ++ " (" ++ identifier targetColumn ++ ")") ++
        actionText "DELETE" onDelete ++ actionText "UPDATE" onUpdate := rfl
  have hconstraint : "CONSTRAINT ".toList = "CONSTRAINT".toList ++ [' '] := rfl
  have hforeign : " FOREIGN KEY (".toList =
      ' ' :: "FOREIGN".toList ++ ' ' :: "KEY".toList ++ [' ', '('] := rfl
  have hreferences : "REFERENCES ".toList = "REFERENCES".toList ++ [' '] := rfl
  have hclose : ") ".toList = [')', ' '] := rfl
  have hopen : " (".toList = [' ', '('] := rfl
  have hback : ")".toList = [')'] := rfl
  rw [htext, Definition.lexemes]
  simp only [String.toList_append, hconstraint, hforeign, hreferences, hclose, hopen, hback,
    written_cons, written_append, written_inParens, written_listed_quotedName,
    written_qualifiedLexemes, written_actionLexemes]
  simp [keyword, quotedName, identifiers]

theorem Definition.written_lexemes (d : Definition) (h : d.Readable) :
    written d.lexemes = d.text.toList := by
  cases d with
  | column name type notNull defaultValue => exact written_column h
  | primaryKey columns =>
    have htext : (Definition.primaryKey columns).text =
        "PRIMARY KEY (" ++ identifiers columns ++ ")" := rfl
    have hfront : "PRIMARY KEY (".toList = "PRIMARY".toList ++ ' ' :: "KEY".toList ++ [' ', '('] := rfl
    have hback : ")".toList = [')'] := rfl
    rw [htext, String.toList_append, String.toList_append, hfront, hback, Definition.lexemes,
      written_cons, written_cons, written_inParens, written_listed_quotedName]
    simp [keyword]
  | unique name =>
    have htext : (Definition.unique name).text = "UNIQUE (" ++ identifier name ++ ")" := rfl
    have hfront : "UNIQUE (".toList = "UNIQUE".toList ++ [' ', '('] := rfl
    have hback : ")".toList = [')'] := rfl
    rw [htext, String.toList_append, String.toList_append, hfront, hback, Definition.lexemes,
      written_cons, written_inParens, written_listed_quotedName]
    simp [keyword, identifiers]
  | foreignKey name source target targetColumn onDelete onUpdate =>
    exact written_foreignKey name source target targetColumn onDelete onUpdate

theorem Definition.flush_lexemes (d : Definition) : Flush d.lexemes := by
  cases d <;> exact ⟨_, _, rfl, rfl⟩

theorem bodyLexemes_cons_cons (d d' : Definition) (ds : List Definition) :
    bodyLexemes (d :: d' :: ds) = regap itemGap d.lexemes ++ comma :: bodyLexemes (d' :: ds) := by
  simp [bodyLexemes]

/-! ## Statements -/

/-- The raw text in a statement is read as it is written, and nothing is empty that counts as none
then. -/
def Statement.Readable : Statement → Prop
  | .createSchema _ => True
  | .createType _ values => values ≠ []
  | .createTable _ definitions => ∀ d ∈ definitions, d.Readable
  | .commentOnTable _ text => text ≠ ""
  | .commentOnColumn _ _ text => text ≠ ""

theorem written_body {ds : List Definition} (h : ∀ d ∈ ds, d.Readable) :
    written (bodyLexemes ds) ++ bodyGap ds =
      itemGap ++ (",\n  ".intercalate (ds.map Definition.text)).toList ++ ['\n'] := by
  have hsep : ",\n  ".toList = ',' :: itemGap := rfl
  cases ds with
  | nil => rfl
  | cons d ds =>
    have hitem (x : Definition) (hx : x ∈ d :: ds) :
        written (regap itemGap x.lexemes) = itemGap ++ x.text.toList := by
      rw [written_regap x.flush_lexemes.ne_nil, verbatim_of_flush x.flush_lexemes,
        x.written_lexemes (h x hx)]
    have hmore (xs : List Definition) (hxs : ∀ x ∈ xs, x ∈ d :: ds) :
        written (xs.flatMap fun x => comma :: regap itemGap x.lexemes) =
          xs.flatMap fun x => ',' :: (itemGap ++ x.text.toList) := by
      induction xs with
      | nil => rfl
      | cons x xs ih =>
        rw [List.flatMap_cons, List.flatMap_cons, written_append, written_cons,
          hitem x (hxs x List.mem_cons_self), ih fun y hy => hxs y (List.mem_cons_of_mem x hy)]
        rfl
    rw [bodyLexemes, written_append, hitem d List.mem_cons_self,
      hmore ds fun x hx => List.mem_cons_of_mem d hx, String.toList_intercalate, hsep,
      List.map_map, List.map_cons, intercalate_cons, List.flatMap_map]
    simp [bodyGap]

theorem Statement.written_lexemes (s : Statement) (h : s.Readable) :
    written s.lexemes = s.text.toList := by
  rw [Statement.lexemes, written_append]
  cases s with
  | createSchema name =>
    have htext : (Statement.createSchema name).text =
      "CREATE SCHEMA IF NOT EXISTS " ++ identifier name ++ ";" := rfl
    have hfront : "CREATE SCHEMA IF NOT EXISTS ".toList = "CREATE".toList ++ ' ' :: "SCHEMA".toList ++
      ' ' :: "IF".toList ++ ' ' :: "NOT".toList ++ ' ' :: "EXISTS".toList ++ [' '] := rfl
    have hback : ";".toList = [';'] := rfl
    rw [htext, String.toList_append, String.toList_append, hfront, hback, Statement.phrase]
    simp [keyword, quotedName, semicolon]
  | createType key values =>
    have htext : (Statement.createType key values).text = "CREATE TYPE " ++ qualified key ++
      " AS ENUM (" ++ ", ".intercalate (values.map literal) ++ ");" := rfl
    have hfront : "CREATE TYPE ".toList = "CREATE".toList ++ ' ' :: "TYPE".toList ++ [' '] := rfl
    have hmiddle : " AS ENUM (".toList =
      ' ' :: "AS".toList ++ ' ' :: "ENUM".toList ++ [' ', '('] := rfl
    have hback : ");".toList = [')', ';'] := rfl
    have hvalues : written (listed quotedLiteral values) =
        (", ".intercalate (values.map literal)).toList := written_listed (fun _ _ => rfl) values
    rw [htext, Statement.phrase]
    simp only [String.toList_append, hfront, hmiddle, hback, written_cons, written_append,
      written_qualifiedLexemes, written_inParens, hvalues]
    simp [keyword, semicolon]
  | createTable key definitions =>
    have htext : (Statement.createTable key definitions).text = "CREATE TABLE " ++ qualified key ++
      " (\n  " ++ ",\n  ".intercalate (definitions.map Definition.text) ++ "\n);" := rfl
    have hfront : "CREATE TABLE ".toList = "CREATE".toList ++ ' ' :: "TABLE".toList ++ [' '] := rfl
    have hmiddle : " (\n  ".toList = [' ', '('] ++ itemGap := rfl
    have hback : "\n);".toList = ['\n', ')', ';'] := rfl
    have hbody (rest : List Char) : written (bodyLexemes definitions) ++ (bodyGap definitions ++ rest) =
        itemGap ++ ((",\n  ".intercalate (definitions.map Definition.text)).toList ++ '\n' :: rest) := by
      rw [← List.append_assoc, written_body h, List.append_assoc, List.append_assoc,
        List.singleton_append]
    rw [htext, Statement.phrase]
    simp only [String.toList_append, hfront, hmiddle, hback, written_cons, written_append,
      written_qualifiedLexemes]
    simp [keyword, openParen, closeParen, semicolon, hbody]
  | commentOnTable key text =>
    have htext : (Statement.commentOnTable key text).text =
      "COMMENT ON TABLE " ++ qualified key ++ " IS " ++ literal text ++ ";" := rfl
    have hfront : "COMMENT ON TABLE ".toList =
      "COMMENT".toList ++ ' ' :: "ON".toList ++ ' ' :: "TABLE".toList ++ [' '] := rfl
    have hmiddle : " IS ".toList = ' ' :: "IS".toList ++ [' '] := rfl
    have hback : ";".toList = [';'] := rfl
    rw [htext, Statement.phrase]
    simp only [String.toList_append, hfront, hmiddle, hback, written_cons, written_append,
      written_qualifiedLexemes]
    simp [keyword, quotedLiteral, semicolon]
  | commentOnColumn key column text =>
    have htext : (Statement.commentOnColumn key column text).text =
      "COMMENT ON COLUMN " ++ qualified key ++ "." ++ identifier column ++ " IS " ++
        literal text ++ ";" := rfl
    have hfront : "COMMENT ON COLUMN ".toList =
      "COMMENT".toList ++ ' ' :: "ON".toList ++ ' ' :: "COLUMN".toList ++ [' '] := rfl
    have hdot : ".".toList = ['.'] := rfl
    have hmiddle : " IS ".toList = ' ' :: "IS".toList ++ [' '] := rfl
    have hback : ";".toList = [';'] := rfl
    rw [htext, Statement.phrase]
    simp only [String.toList_append, hfront, hdot, hmiddle, hback, written_cons, written_append,
      written_qualifiedLexemes]
    simp [keyword, quotedName, quotedLiteral, dot, semicolon]

end SchemaDdl.Ddl
