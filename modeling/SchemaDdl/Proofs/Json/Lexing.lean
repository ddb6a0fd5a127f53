import SchemaDdl.Proofs.Decimal.NumberText
import SchemaDdl.Proofs.Json.Quoted

/-!
# Tokens of printed JSON

The tokens of a value are laid out over its parts as the printed text is, and the printed text is
read as these tokens.
-/

namespace SchemaDdl.Json

/-- A value that can be read from a printed text: none of its parts is unreadable, and every number
is read back as itself. -/
inductive Printable : Json → Prop where
  | null : Printable .null
  | bool (b : Bool) : Printable (.bool b)
  | number {n : Decimal.Number} (h : Decimal.Number.ofChars? (numberChars n) = some n) :
    Printable (.number n)
  | string (s : String) : Printable (.string s)
  | array {items : List Json} (h : ∀ j ∈ items, Printable j) : Printable (.array items)
  | object {members : List (String × Json)} (h : ∀ m ∈ members, Printable m.2) :
    Printable (.object members)

mutual

/-- The tokens that a value is printed as. -/
def valueTokens : Json → List Token
  | .array items => .openArray :: itemTokens items ++ [.closeArray]
  | .object members => .openObject :: memberTokens members ++ [.closeObject]
  | .string s => [.string (some s)]
  | j => [.scalar j]

def itemTokens : List Json → List Token
  | [] => []
  | [j] => valueTokens j
  | j :: k :: js => valueTokens j ++ .comma :: itemTokens (k :: js)

def memberTokens : List (String × Json) → List Token
  | [] => []
  | [(k, j)] => .string (some k) :: .colon :: valueTokens j
  | (k, j) :: m :: ms => .string (some k) :: .colon :: valueTokens j ++ .comma :: memberTokens (m :: ms)

end

/-- A text that is read as certain tokens, whatever follows it, as long as that cannot be part of a
number. Every token takes a character. -/
structure Spells (cs : List Char) (ts : List Token) : Prop where
  length_le : ts.length ≤ cs.length
  reads {n : Nat} {rest : List Char} {us : List Token} (hrest : Decimal.Stops rest)
    (h : tokensWithin (n + 1) rest = some us) :
    tokensWithin (n + ts.length + 1) (cs ++ rest) = some (ts ++ us)

/-! ## Reading within a bound -/

theorem tokensWithin_blank {c : Char} (hc : isSpace c = true) (n : Nat) (cs : List Char) :
    tokensWithin (n + 1) (c :: cs) = tokensWithin (n + 1) cs := by
  rw [tokensWithin, tokensWithin, List.dropWhile_cons_of_pos hc]

theorem tokensWithin_token {c : Char} {cs rest : List Char} {t : Token} (hc : isSpace c = false)
    (h : token? c cs = some (t, rest)) (n : Nat) :
    tokensWithin (n + 1) (c :: cs) = (tokensWithin n rest).map (t :: ·) := by
  have hfront : (c :: cs).dropWhile isSpace = c :: cs := by simp [hc]
  rw [tokensWithin, hfront]
  simp only [h, Option.bind_eq_bind, Option.bind_some]
  cases tokensWithin n rest <;> rfl

/-- A larger bound changes nothing. -/
theorem tokensWithin_succ {n : Nat} {cs : List Char} {ts : List Token}
    (h : tokensWithin n cs = some ts) : tokensWithin (n + 1) cs = some ts := by
  induction n generalizing cs ts with
  | zero =>
    obtain ⟨hnil, rfl⟩ : cs = [] ∧ [] = ts := by simpa [tokensWithin] using h
    rw [hnil]
    rfl
  | succ n ih =>
    rw [tokensWithin] at h ⊢
    split at h
    · exact h
    · rename_i c rest _
      simp only [Option.bind_eq_bind, Option.bind_eq_some_iff] at h ⊢
      obtain ⟨p, htoken, ts, hrest, hts⟩ := h
      exact ⟨p, htoken, ts, ih hrest, hts⟩

theorem tokensWithin_mono {n m : Nat} {cs : List Char} {ts : List Token}
    (h : tokensWithin n cs = some ts) (hnm : n ≤ m) : tokensWithin m cs = some ts := by
  induction hnm with
  | refl => exact h
  | step _ ih => exact tokensWithin_succ ih

namespace Spells

variable {cs ds : List Char} {ts us : List Token}

theorem nil : Spells [] [] where
  length_le := Nat.le_refl 0
  reads _ h := h

theorem append (hc : Spells cs ts) (hd : Spells ds us) (hstops : Decimal.Stops ds) :
    Spells (cs ++ ds) (ts ++ us) where
  length_le := by
    have := hc.length_le
    have := hd.length_le
    simp only [List.length_append]
    omega
  reads {n rest vs} hrest h := by
    have hboth := hc.reads (hstops.append hrest) (hd.reads hrest h)
    rw [List.append_assoc, List.append_assoc, List.length_append, ← hboth]
    congr 1
    omega

theorem blank {c : Char} (hc : isSpace c = true) (h : Spells cs ts) : Spells (c :: cs) ts where
  length_le := Nat.le_succ_of_le h.length_le
  reads hrest hread := by
    rw [List.cons_append, tokensWithin_blank hc]
    exact h.reads hrest hread

/-- A token in front of the others. -/
theorem token {c : Char} {t : Token} (hc : isSpace c = false) (h : Spells ds ts)
    (ht : ∀ rest, Decimal.Stops rest → token? c (cs ++ (ds ++ rest)) = some (t, ds ++ rest)) :
    Spells (c :: cs ++ ds) (t :: ts) where
  length_le := by
    have := h.length_le
    simp only [List.length_append, List.length_cons]
    omega
  reads {n rest vs} hrest hread := by
    rw [List.cons_append, List.cons_append, List.append_assoc,
      tokensWithin_token hc (ht rest hrest), List.length_cons, ← Nat.add_assoc,
      h.reads hrest hread]
    rfl

theorem mark {c : Char} {t : Token} (hc : isSpace c = false)
    (ht : ∀ rest, token? c rest = some (t, rest)) (h : Spells ds ts) : Spells (c :: ds) (t :: ts) :=
  @token [] ds ts c t hc h fun rest _ => ht (ds ++ rest)

theorem single {c : Char} {t : Token} (hc : isSpace c = false)
    (ht : ∀ rest, Decimal.Stops rest → token? c (cs ++ rest) = some (t, rest)) :
    Spells (c :: cs) [t] := by
  have h := @token cs [] [] c t hc nil ht
  rwa [List.append_nil] at h

theorem tokens?_eq (h : Spells cs ts) : tokens? cs = some ts := by
  have hread : tokensWithin (0 + ts.length + 1) (cs ++ []) = some (ts ++ []) :=
    h.reads Decimal.stops_nil rfl
  have hle := h.length_le
  rw [List.append_nil, List.append_nil] at hread
  exact tokensWithin_mono hread (by omega)

end Spells

/-! ## Scalars -/

theorem spells_quoted (s : String) : Spells (quotedChars s) [.string (some s)] := by
  have hquoted : quotedChars s = '"' :: (s.toList.flatMap escapedChar ++ ['"']) := rfl
  rw [hquoted]
  apply Spells.single rfl
  intro rest _
  rw [List.append_assoc]
  exact token?_quoted s rest

theorem afterWord?_append (word : String) (rest : List Char) :
    afterWord? word (word.toList ++ rest) = some rest := by
  have hfront : word.toList.isPrefixOf (word.toList ++ rest) = true := by simp
  rw [afterWord?, if_pos hfront, ← String.length_toList, List.drop_left]

theorem spells_word {c : Char} {word : String} {j : Json} (hc : isSpace c = false)
    (ht : ∀ cs, token? c cs = (afterWord? word cs).map fun rest => (.scalar j, rest)) :
    Spells (c :: word.toList) [.scalar j] := by
  apply Spells.single hc
  intro rest _
  rw [ht, afterWord?_append]
  rfl

/-- A character that a number starts with starts no other token. -/
theorem token?_of_number {c : Char} {cs rest : List Char} {t : Decimal.NumberText}
    (h : Decimal.numberText? (c :: cs) = some (t, rest)) :
    isSpace c = false ∧ token? c cs = some (.scalar (scalarOfNumber t), rest) := by
  have hne {d : Char} (hd : ¬(d = '-' ∨ d.isDigit = true)) : c ≠ d := by
    rintro rfl
    exact hd (Decimal.head_of_numberText? h)
  constructor
  · simp only [isSpace, Bool.or_eq_false_iff, beq_eq_false_iff_ne]
    exact ⟨⟨⟨hne (by decide), hne (by decide)⟩, hne (by decide)⟩, hne (by decide)⟩
  · rw [token?.eq_11, h, Option.map_some] <;> exact hne (by decide)

theorem spells_number {n : Decimal.Number}
    (h : Decimal.Number.ofChars? (numberChars n) = some n) :
    Spells (numberChars n) [.scalar (.number n)] := by
  obtain ⟨t, hread, hvalue⟩ := Decimal.Number.ofChars?_eq_some_iff.1 h
  obtain ⟨c, cs, hcs⟩ := List.exists_cons_of_ne_nil (Decimal.ne_nil_of_numberText? hread)
  have hscalar : scalarOfNumber t = .number n := by rw [scalarOfNumber, hvalue]
  rw [hcs] at hread ⊢
  apply Spells.single (token?_of_number hread).1
  intro rest hrest
  have hmore : Decimal.numberText? (c :: (cs ++ rest)) = some (t, rest) :=
    Decimal.numberText?_append hread hrest
  rw [(token?_of_number hmore).2, hscalar]

/-! ## Printed values -/

theorem Spells.newLine {cs : List Char} {ts : List Token} (h : Spells cs ts) (indent : Nat) :
    Spells (newLine indent ++ cs) ts := by
  have hspaces (k : Nat) : Spells (List.replicate k ' ' ++ cs) ts := by
    induction k with
    | zero => exact h
    | succ k ih => exact ih.blank rfl
  exact (hspaces (2 * indent)).blank rfl

theorem stops_newLine (indent : Nat) (cs : List Char) : Decimal.Stops (newLine indent ++ cs) :=
  Decimal.stops_cons rfl _

theorem spells_items (indent : Nat) {items : List Json}
    (h : ∀ j ∈ items, Spells (prettyChars indent j) (valueTokens j)) :
    Spells (prettyItems indent items) (itemTokens items) := by
  induction items with
  | nil => exact .nil
  | cons j js ih =>
    have hj := h j List.mem_cons_self
    have hjs := ih fun i hi => h i (List.mem_cons_of_mem j hi)
    cases js with
    | nil => exact hj.newLine indent
    | cons k js =>
      have hcomma : Spells (',' :: prettyItems indent (k :: js)) (.comma :: itemTokens (k :: js)) :=
        hjs.mark rfl fun _ => rfl
      have hall := hj.append hcomma (Decimal.stops_cons rfl _)
      rw [prettyItems, itemTokens, List.append_assoc]
      exact hall.newLine indent

theorem spells_member (indent : Nat) (k : String) {j : Json}
    (hj : Spells (prettyChars indent j) (valueTokens j)) :
    Spells (newLine indent ++ quotedChars k ++ [':', ' '] ++ prettyChars indent j)
      (.string (some k) :: .colon :: valueTokens j) := by
  have hcolon : Spells (':' :: ' ' :: prettyChars indent j) (.colon :: valueTokens j) :=
    (hj.blank rfl).mark rfl fun _ => rfl
  have hall := (spells_quoted k).append hcolon (Decimal.stops_cons rfl _)
  rw [List.append_assoc, List.append_assoc]
  exact hall.newLine indent

theorem spells_members (indent : Nat) {members : List (String × Json)}
    (h : ∀ m ∈ members, Spells (prettyChars indent m.2) (valueTokens m.2)) :
    Spells (prettyMembers indent members) (memberTokens members) := by
  induction members with
  | nil => exact .nil
  | cons m ms ih =>
    obtain ⟨k, j⟩ := m
    have hm := spells_member indent k (h (k, j) List.mem_cons_self)
    have hms := ih fun i hi => h i (List.mem_cons_of_mem _ hi)
    cases ms with
    | nil => exact hm
    | cons m ms =>
      have hcomma : Spells (',' :: prettyMembers indent (m :: ms))
          (.comma :: memberTokens (m :: ms)) := hms.mark rfl fun _ => rfl
      exact hm.append hcomma (Decimal.stops_cons rfl _)

/-- A bracketed part of a printed text, with its closing bracket on a line of its own. -/
theorem Spells.enclosed {l r : Char} {lt rt : Token} {cs : List Char} {ts : List Token}
    (h : Spells cs ts) (indent : Nat) (hl : isSpace l = false) (hr : isSpace r = false)
    (hlt : ∀ rest, token? l rest = some (lt, rest)) (hrt : ∀ rest, token? r rest = some (rt, rest)) :
    Spells (l :: cs ++ Json.newLine indent ++ [r]) (lt :: ts ++ [rt]) := by
  have hclose : Spells (Json.newLine indent ++ [r]) [rt] :=
    (Spells.nil.mark hr hrt).newLine indent
  have hall := (h.append hclose (stops_newLine indent [r])).mark hl hlt
  rwa [List.append_assoc]

/-- A printed value is read as its tokens. -/
theorem Printable.spells {j : Json} (h : Printable j) (indent : Nat) :
    Spells (prettyChars indent j) (valueTokens j) := by
  induction h generalizing indent with
  | null => exact @spells_word 'n' "ull" .null rfl fun _ => rfl
  | bool b =>
    cases b with
    | false => exact @spells_word 'f' "alse" (.bool false) rfl fun _ => rfl
    | true => exact @spells_word 't' "rue" (.bool true) rfl fun _ => rfl
  | number h => exact spells_number h
  | string s => exact spells_quoted s
  | @array items _ ih =>
    cases items with
    | nil => exact (Spells.nil.mark rfl fun _ => rfl).mark rfl fun _ => rfl
    | cons j js =>
      have hitems := spells_items (indent + 1) fun i hi => ih i hi (indent + 1)
      exact hitems.enclosed indent rfl rfl (fun _ => rfl) fun _ => rfl
  | @object members _ ih =>
    cases members with
    | nil => exact (Spells.nil.mark rfl fun _ => rfl).mark rfl fun _ => rfl
    | cons m ms =>
      have hmembers := spells_members (indent + 1) fun i hi => ih i hi (indent + 1)
      exact hmembers.enclosed indent rfl rfl (fun _ => rfl) fun _ => rfl

end SchemaDdl.Json
