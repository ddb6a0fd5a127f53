import SchemaDdl.Proofs.Text.Names

/-!
# Sanitizing as a closure

Sanitizing gives neat names and leaves exactly the neat names alone. A neat name stays neat with a
number behind it, so that neither a name that is told apart from others nor one that is built from
parts changes when it is sanitized again.
-/

namespace SchemaDdl.Naming

/-- Lower-case letters, digits and underscores: a letter in front, no two underscores side by side and
none at the end. -/
structure Neat (name : String) : Prop where
  nonempty : name ≠ ""
  letter : ∃ c cs, name.toList = c :: cs ∧ c.isLower = true
  plain : ∀ c ∈ name.toList, c.isLower = true ∨ c.isDigit = true ∨ c = '_'
  single : name.toList.IsChain fun c d => c ≠ '_' ∨ d ≠ '_'
  ended : name.toList.getLast? ≠ some '_'

/-! ## Neat names are the clean ones -/

theorem ne_of_isSnakeChar {c : Char} (hc : isSnakeChar c = true) : c ≠ '_' := by
  rintro rfl
  exact absurd hc (by decide)

theorem Snake.single {cs : List Char} (h : Snake cs) : cs.IsChain fun c d => c ≠ '_' ∨ d ≠ '_' := by
  induction h with
  | last hc => exact List.isChain_singleton _
  | next hc h ih =>
    obtain ⟨d, ds, rfl, -⟩ := h.exists_cons
    exact List.isChain_cons_cons.2 ⟨.inl (ne_of_isSnakeChar hc), ih⟩
  | word hc h ih =>
    obtain ⟨d, ds, rfl, hd⟩ := h.exists_cons
    exact List.isChain_cons_cons.2 ⟨.inl (ne_of_isSnakeChar hc),
      List.isChain_cons_cons.2 ⟨.inr (ne_of_isSnakeChar hd), ih⟩⟩

theorem Snake.ended {cs : List Char} (h : Snake cs) : cs.getLast? ≠ some '_' := by
  induction h with
  | last hc => exact fun hlast => ne_of_isSnakeChar hc (Option.some.inj hlast)
  | next hc h ih =>
    obtain ⟨d, ds, rfl, -⟩ := h.exists_cons
    rwa [List.getLast?_cons_cons]
  | word hc h ih =>
    obtain ⟨d, ds, rfl, -⟩ := h.exists_cons
    rwa [List.getLast?_cons_cons, List.getLast?_cons_cons]

/-- Behind an underscore stands a word, as it neither ends the name nor has another one beside it. -/
theorem tail_of_single {cs : List Char} (hplain : ∀ c ∈ cs, isSnakeChar c = true ∨ c = '_')
    (hsingle : cs.IsChain fun c d => c ≠ '_' ∨ d ≠ '_') (hended : cs.getLast? ≠ some '_') :
    Tail cs := by
  induction cs with
  | nil => exact .nil
  | cons c cs ih =>
    have hrest : cs.getLast? ≠ some '_' := by
      cases cs with
      | nil => exact fun hlast => by cases hlast
      | cons d ds => rwa [List.getLast?_cons_cons] at hended
    have htail := ih (fun d hd => hplain d (List.mem_cons_of_mem c hd)) hsingle.tail hrest
    rcases hplain c List.mem_cons_self with hc | rfl
    · exact .more (htail.snake hc)
    · cases htail with
      | nil => exact absurd rfl hended
      | more h => exact .word h
      | word h => simp at hsingle

theorem Clean.neat {name : String} (h : Clean name) : Neat name := by
  obtain ⟨hsnake, hletter⟩ := h
  obtain ⟨c, cs, hname, -⟩ := hsnake.exists_cons
  refine ⟨?_, ⟨c, cs, hname, ?_⟩, fun d hd => ?_, hsnake.single, hsnake.ended⟩
  · rintro rfl
    cases hname
  · rw [hname] at hletter
    exact hletter
  · rw [← or_assoc, ← Bool.or_eq_true]
    exact hsnake.isSnakeChar_or_eq hd

theorem Neat.clean {name : String} (h : Neat name) : Clean name := by
  obtain ⟨-, ⟨c, cs, hname, hletter⟩, hplain, hsingle, hended⟩ := h
  have hsnake (d : Char) (hd : d ∈ name.toList) : isSnakeChar d = true ∨ d = '_' := by
    rw [isSnakeChar, Bool.or_eq_true, or_assoc]
    exact hplain d hd
  have htail := tail_of_single hsnake hsingle hended
  rw [hname] at htail
  constructor
  · rw [hname]
    cases htail with
    | more h => exact h
    | word h => exact absurd hletter (by decide)
  · rw [hname]
    exact hletter

/-! ## The closure -/

/-- Sanitizing as a closure onto the neat names, with the snake case that it goes by and the names that
it builds from parts. -/
structure Closure (snakeCase : String → String) (sanitize : String → String → String)
    (constraintName : List String → String → String) : Prop where
  neat : ∀ raw fallback, Neat (sanitize raw fallback)
  fixed_iff : ∀ name g, sanitize name g = name ↔ Neat name
  again : ∀ raw fallback g, sanitize (sanitize raw fallback) g = sanitize raw fallback
  numeral : ∀ raw fallback g k, IsNumeral k →
    sanitize (sanitize raw fallback ++ "_" ++ k) g = sanitize raw fallback ++ "_" ++ k
  built : ∀ parts fallback g, sanitize (constraintName parts fallback) g = constraintName parts fallback
  independent : ∀ raw fallback g, snakeCase raw ≠ "" → sanitize raw fallback = sanitize raw g

theorem sanitizeBy_of_ne {decompose : List Char → List Char} {raw : String}
    (h : snakeCaseBy decompose raw ≠ "") (fallback : String) :
    sanitizeBy decompose raw fallback = withLetter (snakeCaseBy decompose raw) :=
  if_pos (bne_iff_ne.2 h)

theorem closure_sanitizeBy {decompose : List Char → List Char} (h : Text.KeepsAscii decompose) :
    Closure (snakeCaseBy decompose) (sanitizeBy decompose) (constraintNameBy decompose) where
  neat raw fallback := (clean_sanitizeBy decompose raw fallback).neat
  fixed_iff name g := by
    constructor
    · intro hfixed
      exact hfixed ▸ (clean_sanitizeBy decompose name g).neat
    · exact fun hneat => hneat.clean.sanitizeBy_eq h g
  again raw fallback g := (clean_sanitizeBy decompose raw fallback).sanitizeBy_eq h g
  numeral raw fallback g k hk :=
    ((clean_sanitizeBy decompose raw fallback).append_numeral hk).sanitizeBy_eq h g
  built _ fallback g := (clean_sanitizeBy decompose _ fallback).sanitizeBy_eq h g
  independent raw fallback g hraw := by rw [sanitizeBy_of_ne hraw, sanitizeBy_of_ne hraw]

/-- Sanitizing is a closure onto the neat names, and it is one for every way of decomposing texts that
leaves ASCII texts alone. -/
theorem closure_sanitize :
    Closure snakeCase sanitize constraintName ∧
    ∀ decompose, Text.KeepsAscii decompose →
      Closure (snakeCaseBy decompose) (sanitizeBy decompose) (constraintNameBy decompose) := by
  refine ⟨?_, fun decompose h => closure_sanitizeBy h⟩
  have hcase : snakeCase = snakeCaseBy (List.map Text.unaccented) := funext snakeCase_eq
  have hsanitize : sanitize = sanitizeBy (List.map Text.unaccented) :=
    funext fun raw => funext (sanitize_eq_sanitizeBy raw)
  have hname : constraintName = constraintNameBy (List.map Text.unaccented) :=
    funext fun parts => funext (constraintName_eq parts)
  rw [hcase, hsanitize, hname]
  exact closure_sanitizeBy Text.keepsAscii_unaccented

/-- A fallback that starts with a digit, and an accent that is decomposed as a mark behind its letter,
with a run of separators after it. -/
theorem closure_sanitize_accented :
    let decompose : List Char → List Char :=
      List.flatMap fun c => if c = 'É' then ['E', '\u0301'] else [c]
    sanitize "!!" "1st Key!" = "c_1st_key" ∧ Neat "c_1st_key" ∧
    Text.KeepsAscii decompose ∧ sanitizeBy decompose "1É--x!" "y" = "c_1e_x" ∧ Neat "c_1e_x" ∧
    IsNumeral "007" ∧ sanitizeBy decompose "c_1e_x_007" "z" = "c_1e_x_007" ∧
    snakeCaseBy decompose "1É--x!" ≠ "" ∧
    sanitizeBy decompose "1É--x!" "y" = sanitizeBy decompose "1É--x!" "z" := by
  intro decompose
  have hascii : Text.KeepsAscii decompose := by
    intro cs hcs
    refine (List.flatMap_congr fun c hc => ?_).trans (List.flatMap_singleton' cs)
    refine if_neg ?_
    rintro rfl
    exact absurd (hcs _ hc) (by decide)
  obtain ⟨hsanitize, hclosure⟩ := closure_sanitize
  have hkey : sanitize "!!" "1st Key!" = "c_1st_key" := by decide +kernel
  have hname : sanitizeBy decompose "1É--x!" "y" = "c_1e_x" := by decide +kernel
  have hcase : snakeCaseBy decompose "1É--x!" ≠ "" := by decide +kernel
  have hdigits : "007".toList.all Char.isDigit = true := by decide
  have hnumeral : IsNumeral "007" := ⟨by decide, List.all_eq_true.1 hdigits⟩
  have hneat := (hclosure decompose hascii).neat "1É--x!" "y"
  have hfixed := (hclosure decompose hascii).numeral "1É--x!" "y" "z" "007" hnumeral
  rw [hname] at hneat hfixed
  exact ⟨hkey, hkey ▸ hsanitize.neat "!!" "1st Key!", hascii, hname, hneat, hnumeral, hfixed, hcase,
    (hclosure decompose hascii).independent "1É--x!" "y" "z" hcase⟩

end SchemaDdl.Naming
