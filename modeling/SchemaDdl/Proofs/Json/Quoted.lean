import SchemaDdl.Json.Print
import SchemaDdl.Json.Token

/-!
# Quoted strings

A printed string reads as itself. Every character is printed as one unit of a string body: the
control characters without an escape of their own as codes, all others as characters. No code is
half of a surrogate pair, as codes stand for control characters only.
-/

namespace SchemaDdl.Json

theorem hexValue?_hexDigit (n : Nat) : hexValue? (hexDigit n) = some (n % 16) := by
  have hdigits : ∀ d < 16, hexValue? (Nat.digitChar d) = some d := by decide
  exact hdigits (n % 16) (Nat.mod_lt n (by decide))

/-- The four digits of a control character's escape. -/
theorem hex4?_hexDigit {n : Nat} (hn : n < 0x20) :
    hex4? '0' '0' (hexDigit (n / 16)) (hexDigit n) = some n := by
  have hzero : hexValue? '0' = some 0 := rfl
  have hsum : ((0 * 16 + 0) * 16 + n / 16 % 16) * 16 + n % 16 = n := by omega
  rw [hex4?, hzero, hexValue?_hexDigit, hexValue?_hexDigit]
  exact congrArg some hsum

/-- What a unit that is not half of a surrogate pair stands for. -/
def StringUnit.char? : StringUnit → Option Char
  | .char c => some c
  | .code n => if isLeading n || isTrailing n then none else some (Char.ofNat n)

theorem joinUnits_cons {u : StringUnit} {c : Char} (hu : u.char? = some c)
    (us : List StringUnit) : joinUnits (u :: us) = (joinUnits us).map (c :: ·) := by
  cases u with
  | char d =>
    obtain rfl : d = c := Option.some.inj hu
    rfl
  | code n =>
    rw [StringUnit.char?, Option.ite_none_left_eq_some, Bool.or_eq_true, not_or] at hu
    obtain ⟨⟨hleading, htrailing⟩, hc⟩ := hu
    obtain rfl : Char.ofNat n = c := Option.some.inj hc
    rw [joinUnits.eq_def]
    simp only [hleading, htrailing, Bool.false_eq_true, if_false]

theorem char?_code {c : Char} (hc : c.toNat < 0x20) : (StringUnit.code c.toNat).char? = some c := by
  have hhalf : (isLeading c.toNat || isTrailing c.toNat) = false := by
    simp only [isLeading, isTrailing, Bool.or_eq_false_iff, Bool.and_eq_false_imp,
      decide_eq_true_eq]
    omega
  rw [StringUnit.char?, hhalf, Char.ofNat_toNat]
  rfl

/-- A string body with one more unit in front. -/
def withUnit (u : StringUnit) (body : Option (List StringUnit × List Char)) :
    Option (List StringUnit × List Char) :=
  body.map fun (units, rest) => (u :: units, rest)

theorem stringUnits_simple {e c : Char} (he : simpleEscape? e = some c) (cs : List Char) :
    stringUnits ('\\' :: e :: cs) = withUnit (.char c) (stringUnits cs) := by
  have hu : e ≠ 'u' := by
    rintro rfl
    simp [simpleEscape?] at he
  rw [stringUnits.eq_4 _ _ fun _ _ _ _ _ h _ => hu h, he]
  cases stringUnits cs <;> rfl

theorem stringUnits_code {n : Nat} (hn : n < 0x20) (cs : List Char) :
    stringUnits ('\\' :: 'u' :: '0' :: '0' :: hexDigit (n / 16) :: hexDigit n :: cs) =
      withUnit (.code n) (stringUnits cs) := by
  rw [stringUnits, hex4?_hexDigit hn]
  cases stringUnits cs <;> rfl

theorem stringUnits_plain {c : Char} (hquote : c ≠ '"') (hslash : c ≠ '\\')
    (hc : ¬c.toNat < 0x20) (cs : List Char) :
    stringUnits (c :: cs) = withUnit (.char c) (stringUnits cs) := by
  have hplain : (c == '\\' || decide (c.toNat < 0x20)) = false := by simp [hslash, hc]
  rw [stringUnits.eq_5 _ _ hquote (fun _ _ _ _ _ h _ => hslash h) fun _ _ h _ => hslash h, hplain]
  cases stringUnits cs <;> rfl

/-- Every character is printed as one unit that stands for it. -/
theorem exists_unit (c : Char) :
    ∃ u : StringUnit, u.char? = some c ∧
      ∀ cs, stringUnits (escapedChar c ++ cs) = withUnit u (stringUnits cs) := by
  have hsimple {e d : Char} (he : simpleEscape? e = some d) :
      ∃ u : StringUnit, u.char? = some d ∧
        ∀ cs, stringUnits (['\\', e] ++ cs) = withUnit u (stringUnits cs) :=
    ⟨.char d, rfl, stringUnits_simple he⟩
  rw [escapedChar]
  iterate 7
    split
    · rename_i h
      rw [eq_of_beq h]
      exact hsimple rfl
  rename_i hquote hslash _ _ _ _ _
  split
  · rename_i hc
    exact ⟨.code c.toNat, char?_code hc, stringUnits_code hc⟩
  · rename_i hc
    rw [beq_iff_eq] at hquote hslash
    exact ⟨.char c, rfl, stringUnits_plain hquote hslash hc⟩

/-- The body of a printed string, up to its closing quote, stands for the string. -/
theorem stringUnits_escaped (cs rest : List Char) :
    ∃ us, stringUnits (cs.flatMap escapedChar ++ '"' :: rest) = some (us, rest) ∧
      joinUnits us = some cs := by
  induction cs with
  | nil => exact ⟨[], rfl, rfl⟩
  | cons c cs ih =>
    obtain ⟨us, hunits, hjoin⟩ := ih
    obtain ⟨u, hu, hread⟩ := exists_unit c
    refine ⟨u :: us, ?_, ?_⟩
    · rw [List.flatMap_cons, List.append_assoc, hread, hunits]
      rfl
    · rw [joinUnits_cons hu, hjoin]
      rfl

/-- The token of a printed string. -/
theorem token?_quoted (s : String) (rest : List Char) :
    token? '"' (s.toList.flatMap escapedChar ++ '"' :: rest) = some (.string (some s), rest) := by
  obtain ⟨us, hunits, hjoin⟩ := stringUnits_escaped s.toList rest
  simp only [token?, hunits, hjoin, Option.map_some, String.ofList_toList]

end SchemaDdl.Json
