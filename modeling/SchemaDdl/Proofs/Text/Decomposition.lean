import SchemaDdl.Naming

/-!
# Snake case of decomposed texts

Snake case looks at a text through a decomposition, which puts the marks of a letter behind the letter.
All that the form of a name depends on is that the decomposition leaves ASCII texts alone. To take the
marks off each letter is such a decomposition.
-/

namespace SchemaDdl

namespace Text

theorem isDiacritic_of_ascii {c : Char} (h : c.toNat < 128) : isDiacritic c = false := by
  simp only [isDiacritic, Bool.and_eq_false_imp, decide_eq_true_eq]
  omega

theorem baseLetter_eq_or_ascii (c : Char) : baseLetter c = c ∨ (baseLetter c).toNat < 128 := by
  have hbase : (accentedLetters.all fun entry => decide (entry.1.toNat < 128)) = true := by decide
  rw [baseLetter]
  split
  · exact .inl rfl
  · split
    · rename_i entry hentry
      exact .inr (of_decide_eq_true (List.all_eq_true.1 hbase entry (List.mem_of_find?_eq_some hentry)))
    · exact .inl rfl

/-- A letter without its marks. A mark on its own stays. -/
def unaccented (c : Char) : Char :=
  if isDiacritic c then c else baseLetter c

theorem isDiacritic_unaccented (c : Char) : isDiacritic (unaccented c) = isDiacritic c := by
  rw [unaccented]
  split
  · rfl
  · rename_i hmark
    rcases baseLetter_eq_or_ascii c with hbase | hbase
    · rw [hbase]
    · rw [isDiacritic_of_ascii hbase, Bool.eq_false_iff.2 hmark]

/-- A decomposition that leaves texts of ASCII characters alone. -/
def KeepsAscii (decompose : List Char → List Char) : Prop :=
  ∀ cs : List Char, (∀ c ∈ cs, c.toNat < 128) → decompose cs = cs

theorem keepsAscii_unaccented : KeepsAscii (List.map unaccented) := by
  intro cs hcs
  refine (List.map_congr_left fun c hc => ?_).trans (List.map_id cs)
  rw [unaccented, isDiacritic_of_ascii (hcs c hc), baseLetter_of_ascii (hcs c hc)]
  rfl

end Text

namespace Naming

/-- Joins the runs of ASCII letters and digits of a decomposed text by underscores, in lower case, and
passes over the marks. -/
def joinFrom (started pending : Bool) : List Char → List Char
  | [] => []
  | c :: cs =>
    if Text.isDiacritic c then joinFrom started pending cs
    else if c.isAlphanum then
      if started && pending then '_' :: c.toLower :: joinFrom true false cs
      else c.toLower :: joinFrom true false cs
    else joinFrom started true cs

section

variable (decompose : List Char → List Char)

def snakeCaseBy (raw : String) : String :=
  String.ofList (joinFrom false false (decompose raw.toList))

def sanitizeBy (raw fallback : String) : String :=
  let primary := snakeCaseBy decompose raw
  if primary != "" then withLetter primary
  else
    let second := snakeCaseBy decompose fallback
    withLetter (if second != "" then second else lastResort)

def constraintNameBy (parts : List String) (fallback : String) : String :=
  sanitizeBy decompose ("_".intercalate (parts.filter (· != ""))) fallback

end

/-! ## Letters without their marks -/

theorem snakeFrom_eq_joinFrom (started pending : Bool) (cs : List Char) :
    snakeFrom started pending cs = joinFrom started pending (cs.map Text.unaccented) := by
  induction cs generalizing started pending with
  | nil => rfl
  | cons c cs ih =>
    rw [snakeFrom, List.map_cons, joinFrom, Text.isDiacritic_unaccented, ih, ih, ih, Text.unaccented]
    cases Text.isDiacritic c <;> rfl

theorem snakeCase_eq (raw : String) : snakeCase raw = snakeCaseBy (List.map Text.unaccented) raw :=
  congrArg String.ofList (snakeFrom_eq_joinFrom false false raw.toList)

theorem sanitize_eq_sanitizeBy (raw fallback : String) :
    sanitize raw fallback = sanitizeBy (List.map Text.unaccented) raw fallback := by
  rw [sanitize, sanitizeBy, snakeCase_eq, snakeCase_eq]

theorem constraintName_eq (parts : List String) (fallback : String) :
    constraintName parts fallback = constraintNameBy (List.map Text.unaccented) parts fallback :=
  sanitize_eq_sanitizeBy _ fallback

end Naming

end SchemaDdl
