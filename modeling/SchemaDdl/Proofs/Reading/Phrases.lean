import SchemaDdl.Proofs.Reading.WrittenClauses

/-!
# Phrases of a statement

Statements are made of phrases: keywords, dotted names, lists in parentheses, referential actions. Each
capture takes exactly the phrase that its grammar derives and leaves what follows, provided that what
follows cannot go on with the phrase.
-/

namespace SchemaDdl.Script

variable {ls rest : List Lexeme}

/-! ## Keywords -/

theorem takeKeywords_eq_some_iff {ks : List String} :
    takeKeywords ks ls = some rest ↔ ∃ front, ls = front ++ rest ∧ AreKeywords ks front := by
  constructor
  · intro h
    induction ks generalizing ls with
    | nil =>
      cases h
      exact ⟨[], rfl, rfl⟩
    | cons k ks ih =>
      cases ls with
      | nil => cases h
      | cons l ls =>
        rw [takeKeywords] at h
        split at h
        · rename_i hl
          obtain ⟨front, rfl, hfront⟩ := ih h
          exact ⟨l :: front, rfl, areKeywords_cons.2 ⟨l, front, rfl, hl, hfront⟩⟩
        · cases h
  · rintro ⟨front, rfl, hfront⟩
    exact hfront.take rest

theorem orExpected_eq_ok_iff {taken : Option (List Lexeme)} {what : String} :
    (match taken with
      | some behind => .ok behind
      | none => expected what ls) = (.ok rest : Except String (List Lexeme)) ↔ taken = some rest := by
  cases taken with
  | some behind =>
    constructor <;> intro h
    · exact congrArg some (Except.ok.inj h)
    · exact congrArg Except.ok (Option.some.inj h)
  | none =>
    constructor <;> intro h <;> cases h

theorem takeKeyword_eq_some_iff {k : String} :
    takeKeywords [k] ls = some rest ↔ ∃ l, ls = l :: rest ∧ l.token.isKeyword k = true := by
  cases ls with
  | nil => simp [takeKeywords]
  | cons l ls =>
    rw [takeKeywords]
    by_cases hl : l.token.isKeyword k = true <;> simp [takeKeywords, hl]

theorem expectKeyword_eq_ok_iff {k : String} :
    expectKeywords [k] ls = .ok rest ↔ ∃ l, ls = l :: rest ∧ l.token.isKeyword k = true :=
  orExpected_eq_ok_iff.trans takeKeyword_eq_some_iff

/-- Whether the two sequences can both stand at the front. -/
def agree (ks ks' : List String) : Bool :=
  (ks.zip ks').all fun p => sameKeyword p.1 p.2

theorem agree_of_takeKeywords {ks ks' : List String} {rest' : List Lexeme}
    (h : takeKeywords ks ls = some rest) (h' : takeKeywords ks' ls = some rest') :
    agree ks ks' = true := by
  induction ks generalizing ks' ls with
  | nil => rfl
  | cons k ks ih =>
    cases ks' with
    | nil => rfl
    | cons k' ks' =>
      obtain ⟨front, rfl, hfront⟩ := takeKeywords_eq_some_iff.1 h
      obtain ⟨l, front, rfl, hl, hfront⟩ := areKeywords_cons.1 hfront
      rw [List.cons_append, takeKeywords, Token.isKeyword_eq hl] at h'
      split at h'
      · rename_i hsame
        rw [agree, List.zip_cons_cons, List.all_cons, Bool.and_eq_true]
        exact ⟨hsame, ih (hfront.take rest) h'⟩
      · cases h'

/-- Of alternatives that never agree the one that stands at the front is taken. -/
theorem findSome?_takeKeywords {α β : Type} (keywords : α → List String) (result : α → β) {xs : List α}
    (hdistinct : ∀ x ∈ xs, ∀ y ∈ xs, agree (keywords x) (keywords y) = true → x = y) {x : α} (hx : x ∈ xs)
    (h : takeKeywords (keywords x) ls = some rest) :
    (xs.findSome? fun y => (takeKeywords (keywords y) ls).map fun behind => (result y, behind)) =
      some (result x, rest) := by
  have hsome : ((xs.findSome? fun y => (takeKeywords (keywords y) ls).map fun behind =>
      (result y, behind))).isSome := by
    rw [List.findSome?_isSome_iff]
    exact ⟨x, hx, by rw [h]; rfl⟩
  obtain ⟨p, hp⟩ := Option.isSome_iff_exists.1 hsome
  obtain ⟨y, hy, hyp⟩ := List.exists_of_findSome?_eq_some hp
  obtain ⟨behind, hbehind, rfl⟩ := Option.map_eq_some_iff.1 hyp
  obtain rfl := hdistinct x hx y hy (agree_of_takeKeywords h hbehind)
  cases h.symm.trans hbehind
  exact hp

theorem action_eq_ok_iff {a : Action} :
    action ls = .ok (a, rest) ↔ ∃ front, ls = front ++ rest ∧ AreKeywords a.keywords front := by
  have hdistinct : ∀ a ∈ Action.all, ∀ b ∈ Action.all, agree a.keywords b.keywords = true → a = b := by
    decide
  rw [← takeKeywords_eq_some_iff, action]
  constructor
  · intro h
    split at h
    · rename_i capture hcapture
      cases h
      obtain ⟨b, -, hb⟩ := List.exists_of_findSome?_eq_some hcapture
      obtain ⟨behind, hbehind, heq⟩ := Option.map_eq_some_iff.1 hb
      cases heq
      exact hbehind
    · cases h
  · intro h
    have hfound := findSome?_takeKeywords Action.keywords id hdistinct a.mem_all h
    simp only [id_eq] at hfound
    rw [hfound]

/-! ## Single lexemes -/

theorem takeToken_eq_some_iff {t : Token} :
    takeToken t ls = some rest ↔ ∃ l, ls = l :: rest ∧ l.token = t := by
  cases ls with
  | nil => simp [takeToken]
  | cons l ls =>
    rw [takeToken]
    by_cases hl : l.token = t <;> simp [hl]

theorem expectToken_eq_ok_iff {t : Token} {what : String} :
    expectToken t what ls = .ok rest ↔ ∃ l, ls = l :: rest ∧ l.token = t :=
  orExpected_eq_ok_iff.trans takeToken_eq_some_iff

def SpellsName (t : Token) (n : String) : Prop :=
  t.name? = some n

def SpellsString (t : Token) (s : String) : Prop :=
  t = .string s

theorem name_eq_ok_iff {what n : String} :
    name what ls = .ok (n, rest) ↔ ∃ l, ls = l :: rest ∧ SpellsName l.token n := by
  constructor
  · intro h
    cases ls with
    | nil => cases h
    | cons l ls =>
      rw [name] at h
      split at h
      · rename_i m hm
        cases h
        exact ⟨l, rfl, hm⟩
      · cases h
  · rintro ⟨l, rfl, hl⟩
    have hname : l.token.name? = some n := hl
    rw [name, hname]

theorem stringLiteral_eq_ok_iff {what s : String} :
    stringLiteral what ls = .ok (s, rest) ↔ ∃ l, ls = l :: rest ∧ SpellsString l.token s := by
  constructor
  · intro h
    cases ls with
    | nil => cases h
    | cons l ls =>
      rw [stringLiteral] at h
      split at h
      · rename_i s' hs'
        cases h
        exact ⟨l, rfl, hs'⟩
      · cases h
  · rintro ⟨l, rfl, hl⟩
    have hstring : l.token = .string s := hl
    rw [stringLiteral, hstring]

/-- Nothing, or the semicolon that ends the statement. -/
inductive Ending : List Lexeme → Prop
  | nothing : Ending []
  | semicolon {l : Lexeme} : l.token = .semicolon → Ending [l]

theorem finish_eq_ok_iff {what : String} : finish what ls = .ok () ↔ Ending ls := by
  have hdone : isDone ls = true ↔ Ending ls := by
    constructor
    · intro h
      match ls with
      | [] => exact .nothing
      | [l] => exact .semicolon (eq_of_beq h)
      | l :: m :: ls => cases h
    · rintro (_ | hl)
      · rfl
      · exact beq_iff_eq.2 hl
  rw [← hdone, finish]
  cases isDone ls with
  | true => exact iff_of_true rfl rfl
  | false => constructor <;> intro h <;> cases h

/-! ## Lists -/

section Lists

variable {α : Type} (separator : Token) (spells : Token → α → Prop)

/-- Elements that each stand behind a separator. -/
inductive Behind : List Lexeme → List α → Prop
  | nil : Behind [] []
  | cons {s l : Lexeme} {ls : List Lexeme} {a : α} {as : List α} :
    s.token = separator → spells l.token a → Behind ls as → Behind (s :: l :: ls) (a :: as)

/-- One element or more, with separators between them. -/
inductive Listed : List Lexeme → List α → Prop
  | mk {l : Lexeme} {ls : List Lexeme} {a : α} {as : List α} :
    spells l.token a → Behind separator spells ls as → Listed (l :: ls) (a :: as)

end Lists

theorem behind_concat_iff {α : Type} {separator : Token} {spells : Token → α → Prop} {ls : List Lexeme}
    {as : List α} {a : α} : Behind separator spells ls (as ++ [a]) ↔
      ∃ front s l, ls = front ++ [s, l] ∧ Behind separator spells front as ∧ s.token = separator ∧
        spells l.token a := by
  constructor
  · intro h
    induction as generalizing ls with
    | nil =>
      cases h with
      | cons hs hl hmore =>
        cases hmore
        exact ⟨[], _, _, rfl, .nil, hs, hl⟩
    | cons b as ih =>
      cases h with
      | @cons s l _ _ _ hs hl hmore =>
        obtain ⟨front, s', l', rfl, hfront, hs', hl'⟩ := ih hmore
        exact ⟨s :: l :: front, s', l', rfl, .cons hs hl hfront, hs', hl'⟩
  · rintro ⟨front, s, l, rfl, hfront, hs, hl⟩
    induction hfront with
    | nil => exact .cons hs hl .nil
    | cons hs' hl' _ ih => exact .cons hs' hl' ih

/-- What is left cannot go on with a list. -/
def NotNext (t : Token) (rest : List Lexeme) : Prop :=
  ∀ l ∈ rest.head?, l.token ≠ t

theorem moreNames_of_notNext {separator : Token} {what : String} (h : NotNext separator rest) :
    moreNames separator what rest = .ok ([], rest) := by
  cases rest with
  | nil => rfl
  | cons l rest =>
    have hl : ¬(l.token == separator) = true := fun heq => h l rfl (eq_of_beq heq)
    cases rest <;> rw [moreNames, if_neg hl]

theorem moreNames_eq_ok_iff {separator : Token} {what : String} {ns : List String} :
    moreNames separator what ls = .ok (ns, rest) ↔
      ∃ front, ls = front ++ rest ∧ Behind separator SpellsName front ns ∧ NotNext separator rest := by
  constructor
  · intro h
    fun_induction moreNames separator what ls generalizing ns with
    | case1 =>
      cases h
      exact ⟨[], rfl, .nil, fun l hl => by cases hl⟩
    | case2 => cases h
    | case3 l hl =>
      cases h
      exact ⟨[], rfl, .nil, fun m hm => by cases hm; exact fun heq => hl (beq_iff_eq.2 heq)⟩
    | case4 l m ls hl n hn ih =>
      obtain ⟨⟨ns', rest'⟩, hmore, h⟩ := bind_eq_ok_iff.1 h
      cases h
      obtain ⟨front, rfl, hfront, hrest⟩ := ih hmore
      exact ⟨l :: m :: front, rfl, .cons (eq_of_beq hl) hn hfront, hrest⟩
    | case5 => cases h
    | case6 l m ls hl =>
      cases h
      exact ⟨[], rfl, .nil, fun m hm => by cases hm; exact fun heq => hl (beq_iff_eq.2 heq)⟩
  · rintro ⟨front, rfl, hfront, hrest⟩
    induction hfront with
    | nil => exact moreNames_of_notNext hrest
    | @cons s l ls a as hs hl _ ih =>
      have hname : l.token.name? = some a := hl
      rw [List.cons_append, List.cons_append, moreNames, if_pos (beq_iff_eq.2 hs), hname]
      simp only [ih]
      rfl

theorem names_eq_ok_iff {separator : Token} {what : String} {ns : String × List String} :
    names separator what ls = .ok (ns, rest) ↔
      ∃ front, ls = front ++ rest ∧ Listed separator SpellsName front (ns.1 :: ns.2) ∧
        NotNext separator rest := by
  rw [names]
  simp only [bind_eq_ok_iff, Prod.exists, name_eq_ok_iff, moreNames_eq_ok_iff]
  constructor
  · rintro ⟨n, _, ⟨l, rfl, hl⟩, more, _, ⟨front, rfl, hfront, hrest⟩, h⟩
    cases h
    exact ⟨l :: front, rfl, .mk hl hfront, hrest⟩
  · rintro ⟨front, rfl, ⟨hl, hfront⟩, hrest⟩
    exact ⟨_, _, ⟨_, rfl, hl⟩, _, _, ⟨_, rfl, hfront, hrest⟩, rfl⟩

theorem notNext_cons {t : Token} {l : Lexeme} (h : l.token ≠ t) (rest : List Lexeme) :
    NotNext t (l :: rest) := by
  intro m hm
  cases hm
  exact h

theorem nameList_eq_ok_iff {what : String} {ns : List String} :
    nameList what ls = .ok (ns, rest) ↔
      ∃ left front right, ls = left :: (front ++ right :: rest) ∧ left.token = .openParen ∧
        Listed .comma SpellsName front ns ∧ right.token = .closeParen := by
  rw [nameList]
  simp only [bind_eq_ok_iff, Prod.exists, expectToken_eq_ok_iff, names_eq_ok_iff]
  constructor
  · rintro ⟨_, ⟨left, rfl, hleft⟩, first, more, _, ⟨front, rfl, hfront, -⟩, _, ⟨right, rfl, hright⟩, h⟩
    cases h
    exact ⟨left, front, right, rfl, hleft, hfront, hright⟩
  · rintro ⟨left, front, right, rfl, hleft, hfront, hright⟩
    cases hfront with
    | mk hl hmore =>
      refine ⟨_, ⟨left, rfl, hleft⟩, _, _, _, ⟨_, rfl, .mk hl hmore, ?_⟩, _, ⟨right, rfl, hright⟩, rfl⟩
      exact notNext_cons (by rw [hright]; exact Token.noConfusion) rest

/-! ## Qualified names -/

/-- The last part is the name and the part before it the schema, the default one if there is none. -/
def Qualifies (key : QualifiedName) (parts : List String) : Prop :=
  parts.getLast? = some key.name ∧ parts.dropLast.getLast?.getD defaultSchema = key.schema

/-- Names with dots between them. -/
def QualifiedPhrase (ls : List Lexeme) (key : QualifiedName) : Prop :=
  ∃ parts, Listed .dot SpellsName ls parts ∧ Qualifies key parts

theorem qualifies_iff {key : QualifiedName} {first : String} {more : List String} :
    Qualifies key (first :: more) ↔ .ofParts first more = key := by
  have hparts : Qualifies (.ofParts first more) (first :: more) := by
    fun_induction QualifiedName.ofParts first more with
    | case1 name => exact ⟨rfl, rfl⟩
    | case2 schema name => exact ⟨rfl, rfl⟩
    | case3 front part next rest ih =>
      obtain ⟨hname, hschema⟩ := ih
      refine ⟨?_, ?_⟩
      · rw [List.getLast?_cons_cons]
        exact hname
      · rw [← hschema]
        cases rest <;> rfl
  constructor
  · rintro ⟨hname, hschema⟩
    obtain ⟨hname', hschema'⟩ := hparts
    cases key
    cases Option.some.inj (hname'.symm.trans hname)
    cases hschema'.symm.trans hschema
    rfl
  · rintro rfl
    exact hparts

theorem qualifiedName_eq_ok_iff {what : String} {key : QualifiedName} :
    qualifiedName what ls = .ok (key, rest) ↔
      ∃ front, ls = front ++ rest ∧ QualifiedPhrase front key ∧ NotNext .dot rest := by
  rw [qualifiedName]
  simp only [bind_eq_ok_iff, Prod.exists, names_eq_ok_iff]
  constructor
  · rintro ⟨first, more, _, ⟨front, rfl, hfront, hrest⟩, h⟩
    cases h
    exact ⟨front, rfl, ⟨_, hfront, qualifies_iff.2 rfl⟩, hrest⟩
  · rintro ⟨front, rfl, ⟨parts, hparts, hkey⟩, hrest⟩
    cases hparts with
    | mk hl hmore =>
      cases qualifies_iff.1 hkey
      exact ⟨_, _, _, ⟨_, rfl, .mk hl hmore, hrest⟩, rfl⟩

/-! ## Referential actions -/

/-- What a foreign key reacts to. -/
inductive Event where
  | delete
  | update
  deriving DecidableEq, Repr

def Event.keyword : Event → String
  | .delete => "DELETE"
  | .update => "UPDATE"

/-- Any number of events with an action for each. -/
inductive Reactions : List Lexeme → List (Event × Action) → Prop
  | nil : Reactions [] []
  | cons {event : Event} {a : Action} {on phrase ls : List Lexeme} {rs : List (Event × Action)} :
    AreKeywords ["ON", event.keyword] on → AreKeywords a.keywords phrase → Reactions ls rs →
      Reactions (on ++ (phrase ++ ls)) ((event, a) :: rs)

/-- The action that is given last for the event. -/
def lastReaction (event : Event) (rs : List (Event × Action)) : Option Action :=
  (rs.reverse.find? fun r => r.1 == event).map Prod.snd

namespace ReferenceActions

def set (actions : ReferenceActions) (event : Event) (a : Action) : ReferenceActions :=
  match event with
  | .delete => { actions with onDelete := some a }
  | .update => { actions with onUpdate := some a }

/-- The reactions in place of those before, as far as there are any. -/
def replacedBy (actions : ReferenceActions) (rs : List (Event × Action)) : ReferenceActions where
  onDelete := (lastReaction .delete rs).or actions.onDelete
  onUpdate := (lastReaction .update rs).or actions.onUpdate

theorem set_replacedBy (actions : ReferenceActions) (event : Event) (a : Action)
    (rs : List (Event × Action)) :
    (actions.set event a).replacedBy rs = actions.replacedBy ((event, a) :: rs) := by
  have hlast (e : Event) (before : Option Action) : (lastReaction e ((event, a) :: rs)).or before =
      (lastReaction e rs).or (if event = e then some a else before) := by
    rw [lastReaction, lastReaction, List.reverse_cons, List.find?_append]
    cases rs.reverse.find? fun r => r.1 == e with
    | some r => rfl
    | none => by_cases he : event = e <;> simp [he]
  cases event <;> simp [replacedBy, set, hlast]

end ReferenceActions

theorem referenceActions_of_event {event : Event} {behind : List Lexeme}
    (h : takeKeywords ["ON", event.keyword] ls = some behind) (acc : ReferenceActions) :
    referenceActions acc ls =
      action behind >>= fun p => referenceActions (acc.set event p.1) p.2 := by
  rw [referenceActions_eq]
  cases event with
  | delete =>
    have hdelete : takeKeywords ["ON", "DELETE"] ls = some behind := h
    rw [hdelete]
    rfl
  | update =>
    have hdelete : takeKeywords ["ON", "DELETE"] ls = none := by
      rw [Option.eq_none_iff_forall_ne_some]
      intro rest hrest
      exact absurd (agree_of_takeKeywords h hrest) (by decide)
    have hupdate : takeKeywords ["ON", "UPDATE"] ls = some behind := h
    rw [hdelete, hupdate]
    rfl

/-- Without another event reading ends, if `ON` does not promise one. -/
theorem referenceActions_of_none (h : ∀ event : Event, takeKeywords ["ON", event.keyword] ls = none)
    (acc : ReferenceActions) :
    referenceActions acc ls =
      if (takeKeywords ["ON"] ls).isSome then .error "expected DELETE or UPDATE after ON"
      else .ok (acc, ls) := by
  have hdelete : takeKeywords ["ON", "DELETE"] ls = none := h .delete
  have hupdate : takeKeywords ["ON", "UPDATE"] ls = none := h .update
  rw [referenceActions_eq, hdelete, hupdate]

theorem referenceActions_eq_ok_iff {acc actions : ReferenceActions} :
    referenceActions acc ls = .ok (actions, rest) ↔ ∃ front rs, ls = front ++ rest ∧
      Reactions front rs ∧ takeKeywords ["ON"] rest = none ∧ actions = acc.replacedBy rs := by
  constructor
  · intro h
    -- on the length, for an event with its action takes some lexemes
    induction hn : ls.length using Nat.strongRecOn generalizing ls acc with
    | _ n ih =>
      by_cases hevent : ∃ event : Event, (takeKeywords ["ON", event.keyword] ls).isSome
      · obtain ⟨event, hsome⟩ := hevent
        obtain ⟨behind, hbehind⟩ := Option.isSome_iff_exists.1 hsome
        rw [referenceActions_of_event hbehind] at h
        obtain ⟨⟨a, more⟩, ha, h⟩ := bind_eq_ok_iff.1 h
        have hlt := length_takeKeywords_lt hbehind
        have hlt' := length_action_lt ha
        obtain ⟨front, rs, rfl, hfront, hrest, rfl⟩ := ih more.length (by omega) h rfl
        obtain ⟨on, rfl, hon⟩ := takeKeywords_eq_some_iff.1 hbehind
        obtain ⟨phrase, rfl, hphrase⟩ := action_eq_ok_iff.1 ha
        refine ⟨on ++ (phrase ++ front), (event, a) :: rs, by simp, .cons hon hphrase hfront, hrest, ?_⟩
        exact acc.set_replacedBy event a rs
      · rw [not_exists] at hevent
        rw [referenceActions_of_none fun event => Option.not_isSome_iff_eq_none.1 (hevent event)] at h
        split at h
        · cases h
        · rename_i hon
          cases h
          exact ⟨[], [], rfl, .nil, Option.not_isSome_iff_eq_none.1 hon, rfl⟩
  · rintro ⟨front, rs, rfl, hfront, hrest, rfl⟩
    induction hfront generalizing acc with
    | nil =>
      have hnone (event : Event) : takeKeywords ["ON", event.keyword] rest = none := by
        cases rest with
        | nil => rfl
        | cons l rest =>
          rw [takeKeywords] at hrest ⊢
          split
          · rename_i hl
            rw [if_pos hl] at hrest
            cases hrest
          · rfl
      rw [List.nil_append, referenceActions_of_none hnone, hrest]
      rfl
    | @cons event a on phrase ls rs hon hphrase _ ih =>
      have hbehind := hon.take (phrase ++ ls ++ rest)
      have haction : action (phrase ++ ls ++ rest) = .ok (a, ls ++ rest) :=
        action_eq_ok_iff.2 ⟨phrase, List.append_assoc _ _ _, hphrase⟩
      rw [← List.append_assoc] at hbehind
      rw [referenceActions_of_event hbehind, haction, ← acc.set_replacedBy]
      exact ih

end SchemaDdl.Script
