import SchemaDdl.Proofs.Text.Classes
import SchemaDdl.Proofs.Text.Decomposition
import SchemaDdl.Proofs.Text.FreeNames

/-!
# Constraint names

A sanitized name is made of words with single underscores between them and starts with a letter.
Sanitizing leaves such a name alone, and telling it apart from other names keeps its form. What the
decomposition of a text does with characters outside ASCII does not matter for that.
-/

namespace SchemaDdl.Naming

/-- A lower-case ASCII letter or a digit. -/
def isSnakeChar (c : Char) : Bool :=
  c.isLower || c.isDigit

/-- Words of lower-case letters and digits with single underscores between them. -/
inductive Snake : List Char → Prop where
  | last {c : Char} (hc : isSnakeChar c = true) : Snake [c]
  | next {c : Char} {cs : List Char} (hc : isSnakeChar c = true) (h : Snake cs) : Snake (c :: cs)
  | word {c : Char} {cs : List Char} (hc : isSnakeChar c = true) (h : Snake cs) :
    Snake (c :: '_' :: cs)

def startsLower : List Char → Bool
  | [] => false
  | c :: _ => c.isLower

/-- A name that sanitizing leaves alone. -/
structure Clean (name : String) : Prop where
  snake : Snake name.toList
  letter : startsLower name.toList = true

/-! ## Snake case -/

theorem isSnakeChar_iff_toNat {c : Char} :
    isSnakeChar c = true ↔ (97 ≤ c.toNat ∧ c.toNat ≤ 122) ∨ (48 ≤ c.toNat ∧ c.toNat ≤ 57) := by
  rw [isSnakeChar, Bool.or_eq_true, Text.isLower_iff_toNat, Text.isDigit_iff_toNat]

theorem isAlphanum_iff {c : Char} : c.isAlphanum = true ↔ c.isAlpha = true ∨ c.isDigit = true := by
  have halphanum : c.isAlphanum = (c.isAlpha || c.isDigit) := rfl
  rw [halphanum, Bool.or_eq_true]

theorem toNat_lt_of_isSnakeChar {c : Char} (hc : isSnakeChar c = true) : c.toNat < 128 := by
  rw [isSnakeChar_iff_toNat] at hc
  omega

theorem isAlphanum_of_isSnakeChar {c : Char} (hc : isSnakeChar c = true) : c.isAlphanum = true := by
  rw [isSnakeChar_iff_toNat] at hc
  rw [isAlphanum_iff, Text.isAlpha_iff_toNat, Text.isDigit_iff_toNat]
  omega

theorem toLower_of_isSnakeChar {c : Char} (hc : isSnakeChar c = true) : c.toLower = c := by
  apply Text.toLower_of_not_isUpper
  rw [isSnakeChar_iff_toNat] at hc
  rw [Text.isUpper_iff_toNat]
  omega

theorem isSnakeChar_toLower {c : Char} (hc : c.isAlphanum = true) : isSnakeChar c.toLower = true := by
  rw [isAlphanum_iff, Text.isAlpha_iff_toNat, Text.isDigit_iff_toNat] at hc
  rw [isSnakeChar_iff_toNat]
  by_cases hupper : c.isUpper = true
  · have hbounds := Text.isUpper_iff_toNat.1 hupper
    rw [Text.toNat_toLower hupper]
    omega
  · rw [Text.toLower_of_not_isUpper hupper]
    rw [Text.isUpper_iff_toNat] at hupper
    omega

theorem joinFrom_cons {c : Char} (hc : isSnakeChar c = true) (started : Bool) (cs : List Char) :
    joinFrom started false (c :: cs) = c :: joinFrom true false cs := by
  rw [joinFrom, Text.isDiacritic_of_ascii (toNat_lt_of_isSnakeChar hc), isAlphanum_of_isSnakeChar hc,
    toLower_of_isSnakeChar hc, Bool.and_false]
  rfl

theorem joinFrom_pending {c : Char} (hc : isSnakeChar c = true) (cs : List Char) :
    joinFrom true true (c :: cs) = '_' :: joinFrom true false (c :: cs) := by
  rw [joinFrom_cons hc, joinFrom, Text.isDiacritic_of_ascii (toNat_lt_of_isSnakeChar hc),
    isAlphanum_of_isSnakeChar hc, toLower_of_isSnakeChar hc]
  rfl

theorem Snake.exists_cons {cs : List Char} (h : Snake cs) :
    ∃ d ds, cs = d :: ds ∧ isSnakeChar d = true := by
  cases h with
  | last hc => exact ⟨_, [], rfl, hc⟩
  | next hc h => exact ⟨_, _, rfl, hc⟩
  | word hc h => exact ⟨_, _, rfl, hc⟩

theorem Snake.isSnakeChar_or_eq {cs : List Char} (h : Snake cs) {c : Char} (hc : c ∈ cs) :
    isSnakeChar c = true ∨ c = '_' := by
  induction h with
  | last hd => exact .inl (List.mem_singleton.1 hc ▸ hd)
  | next hd _ ih =>
    rcases List.mem_cons.1 hc with rfl | hc
    · exact .inl hd
    · exact ih hc
  | word hd _ ih =>
    rcases List.mem_cons.1 hc with rfl | hc
    · exact .inl hd
    · rcases List.mem_cons.1 hc with rfl | hc
      · exact .inr rfl
      · exact ih hc

theorem Snake.ascii {cs : List Char} (h : Snake cs) : ∀ c ∈ cs, c.toNat < 128 := by
  intro c hc
  rcases h.isSnakeChar_or_eq hc with hc | rfl
  · exact toNat_lt_of_isSnakeChar hc
  · decide

/-- Snake case changes nothing the second time. -/
theorem Snake.joinFrom_eq {cs : List Char} (h : Snake cs) (started : Bool) :
    joinFrom started false cs = cs := by
  induction h generalizing started with
  | last hc =>
    rw [joinFrom_cons hc]
    rfl
  | next hc h ih => rw [joinFrom_cons hc, ih]
  | word hc h ih =>
    obtain ⟨d, ds, rfl, hd⟩ := h.exists_cons
    have hunderscore : joinFrom true false ('_' :: d :: ds) = joinFrom true true (d :: ds) := rfl
    rw [joinFrom_cons hc, hunderscore, joinFrom_pending hd, ih]

/-- What follows the first character of snake case: nothing, more of the word or the next word. -/
inductive Tail : List Char → Prop where
  | nil : Tail []
  | more {cs : List Char} (h : Snake cs) : Tail cs
  | word {cs : List Char} (h : Snake cs) : Tail ('_' :: cs)

theorem Tail.snake {c : Char} {cs : List Char} (hc : isSnakeChar c = true) (h : Tail cs) :
    Snake (c :: cs) := by
  cases h with
  | nil => exact .last hc
  | more h => exact .next hc h
  | word h => exact .word hc h

theorem tail_joinFrom (pending : Bool) (cs : List Char) : Tail (joinFrom true pending cs) := by
  induction cs generalizing pending with
  | nil => exact .nil
  | cons c cs ih =>
    rw [joinFrom]
    split
    · exact ih pending
    · split
      · rename_i hb
        have hsnake := (ih false).snake (isSnakeChar_toLower hb)
        cases pending with
        | false => exact .more hsnake
        | true => exact .word hsnake
      · exact ih true

theorem joinFrom_false (pending : Bool) (cs : List Char) :
    joinFrom false pending cs = [] ∨ Snake (joinFrom false pending cs) := by
  induction cs generalizing pending with
  | nil => exact .inl rfl
  | cons c cs ih =>
    rw [joinFrom]
    split
    · exact ih pending
    · split
      · rename_i hb
        exact .inr ((tail_joinFrom false cs).snake (isSnakeChar_toLower hb))
      · exact ih true

theorem snake_snakeCaseBy {decompose : List Char → List Char} {raw : String}
    (h : snakeCaseBy decompose raw ≠ "") : Snake (snakeCaseBy decompose raw).toList := by
  rw [snakeCaseBy, String.toList_ofList]
  rcases joinFrom_false false (decompose raw.toList) with hnil | hsnake
  · rw [snakeCaseBy, hnil] at h
    exact absurd rfl h
  · exact hsnake

/-! ## Sanitized names -/

/-- A name could start with an underscore, but snake case does not. -/
theorem Snake.startsName_eq {cs : List Char} (h : Snake cs) : startsName cs = startsLower cs := by
  obtain ⟨c, cs, rfl, hc⟩ := h.exists_cons
  have hne : (c == '_') = false := by
    rw [beq_eq_false_iff_ne]
    rintro rfl
    exact absurd hc (by decide)
  simp [startsName, startsLower, hne]

theorem clean_withLetter {name : String} (h : Snake name.toList) : Clean (withLetter name) := by
  rw [withLetter, h.startsName_eq]
  split
  · rename_i hletter
    exact ⟨h, hletter⟩
  · have hfront : ("c_" ++ name).toList = 'c' :: '_' :: name.toList := by
      rw [String.toList_append]
      rfl
    constructor
    · rw [hfront]
      exact .word rfl h
    · rw [hfront]
      rfl

theorem snake_of_all {cs : List Char} (hne : cs ≠ []) (h : ∀ c ∈ cs, isSnakeChar c = true) :
    Snake cs := by
  induction cs with
  | nil => exact absurd rfl hne
  | cons c cs ih =>
    have hc := h c List.mem_cons_self
    cases cs with
    | nil => exact .last hc
    | cons d ds => exact .next hc (ih (by simp) fun x hx => h x (List.mem_cons_of_mem c hx))

theorem snake_lastResort : Snake lastResort.toList := by
  have hall : lastResort.toList.all isSnakeChar = true := by decide
  exact snake_of_all (by decide) (List.all_eq_true.1 hall)

theorem clean_sanitizeBy (decompose : List Char → List Char) (raw fallback : String) :
    Clean (sanitizeBy decompose raw fallback) := by
  rw [sanitizeBy]
  split
  · rename_i hraw
    exact clean_withLetter (snake_snakeCaseBy (by simpa using hraw))
  · apply clean_withLetter
    split
    · rename_i hfallback
      exact snake_snakeCaseBy (by simpa using hfallback)
    · exact snake_lastResort

theorem clean_sanitize (raw fallback : String) : Clean (sanitize raw fallback) := by
  rw [sanitize_eq_sanitizeBy]
  exact clean_sanitizeBy _ raw fallback

theorem Clean.sanitizeBy_eq {decompose : List Char → List Char} (hascii : Text.KeepsAscii decompose)
    {name : String} (h : Clean name) (fallback : String) :
    sanitizeBy decompose name fallback = name := by
  have hcase : snakeCaseBy decompose name = name := by
    rw [snakeCaseBy, hascii _ h.snake.ascii, h.snake.joinFrom_eq, String.ofList_toList]
  have hne : (name != "") = true := by
    rw [bne_iff_ne]
    rintro rfl
    obtain ⟨hsnake, -⟩ := h
    cases hsnake
  have hstarts : startsName name.toList = true := h.snake.startsName_eq.trans h.letter
  rw [sanitizeBy, hcase, hne]
  exact if_pos hstarts

theorem Clean.sanitize_eq {name : String} (h : Clean name) (fallback : String) :
    sanitize name fallback = name := by
  rw [sanitize_eq_sanitizeBy]
  exact h.sanitizeBy_eq Text.keepsAscii_unaccented fallback

/-! ## Names told apart -/

theorem Snake.append {xs ys : List Char} (hx : Snake xs) (hy : Snake ys) :
    Snake (xs ++ '_' :: ys) := by
  induction hx with
  | last hc => exact .word hc hy
  | next hc _ ih => exact .next hc ih
  | word hc _ ih => exact .word hc ih

/-- A decimal numeral, leading zeros allowed. -/
structure IsNumeral (text : String) : Prop where
  nonempty : text ≠ ""
  digits : ∀ c ∈ text.toList, c.isDigit = true

theorem isNumeral_toString (k : Nat) : IsNumeral (toString k) := by
  constructor
  · intro h
    have hlist := congrArg String.toList h
    rw [toList_toString] at hlist
    exact Nat.toDigits_ne_nil hlist
  · rw [toList_toString]
    exact fun c hc => Nat.isDigit_of_mem_toDigits (by decide) (Nat.le_refl 10) hc

theorem Clean.append_numeral {base numeral : String} (h : Clean base) (hnumeral : IsNumeral numeral) :
    Clean (base ++ "_" ++ numeral) := by
  obtain ⟨hsnake, hletter⟩ := h
  have hnumeral : Snake numeral.toList := by
    refine snake_of_all (fun hnil => hnumeral.nonempty (String.toList_eq_nil_iff.1 hnil)) fun c hc => ?_
    rw [isSnakeChar, hnumeral.digits c hc, Bool.or_true]
  constructor
  · rw [toList_append_underscore]
    exact hsnake.append hnumeral
  · obtain ⟨d, ds, hbase, -⟩ := hsnake.exists_cons
    rw [hbase] at hletter
    rw [toList_append_underscore, hbase]
    exact hletter

theorem clean_ensureUnique {base : String} (h : Clean base) (existing : List String) :
    Clean (ensureUnique base existing) := by
  by_cases hmem : base ∈ existing
  · obtain ⟨k, heq, -⟩ := exists_numbered_ensureUnique hmem
    rw [heq]
    exact h.append_numeral (isNumeral_toString k)
  · rwa [ensureUnique_of_free hmem]

theorem clean_of_mem_inTurn {taken bases : List String} (h : ∀ base ∈ bases, Clean base) {name : String}
    (hname : name ∈ inTurn ensureUnique taken bases) : Clean name := by
  induction bases generalizing taken with
  | nil => cases hname
  | cons base bases ih =>
    rw [inTurn, List.mem_cons] at hname
    rcases hname with rfl | hname
    · exact clean_ensureUnique (h base List.mem_cons_self) taken
    · exact ih (fun b hb => h b (List.mem_cons_of_mem base hb)) hname

end SchemaDdl.Naming
