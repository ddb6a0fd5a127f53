import SchemaDdl.Script.Token

/-!
# Character classes

The classes of characters that the lexer tells apart do not meet: a blank character starts or
continues no word and no number, and a word does not start with a digit.
-/

namespace SchemaDdl.Text

theorem CodeRanges.has_eq_false {ranges : CodeRanges} {lo hi n : Nat}
    (h : (ranges.all fun r => r.2 < lo || hi < r.1) = true) (hlo : lo ≤ n) (hhi : n ≤ hi) :
    ranges.has n = false := by
  rw [Bool.eq_false_iff]
  intro hn
  obtain ⟨r, hr, h1, h2⟩ := (CodeRanges.has_iff ranges n).1 hn
  have := List.all_eq_true.1 h r hr
  simp only [Bool.or_eq_true, decide_eq_true_eq] at this
  omega

/-! ## ASCII letters -/

theorem isUpper_iff_toNat {c : Char} : c.isUpper = true ↔ 65 ≤ c.toNat ∧ c.toNat ≤ 90 := by
  have hupper : c.isUpper = decide (c.val ≥ 'A'.val ∧ c.val ≤ 'Z'.val) := rfl
  rw [hupper, decide_eq_true_eq, ge_iff_le, UInt32.le_iff_toNat_le, UInt32.le_iff_toNat_le]
  exact Iff.rfl

theorem isLower_iff_toNat {c : Char} : c.isLower = true ↔ 97 ≤ c.toNat ∧ c.toNat ≤ 122 := by
  have hlower : c.isLower = (decide (c.val ≥ 'a'.val) && decide (c.val ≤ 'z'.val)) := rfl
  rw [hlower, Bool.and_eq_true, decide_eq_true_eq, decide_eq_true_eq, ge_iff_le,
    UInt32.le_iff_toNat_le, UInt32.le_iff_toNat_le]
  exact Iff.rfl

theorem isAlpha_iff_toNat {c : Char} :
    c.isAlpha = true ↔ (65 ≤ c.toNat ∧ c.toNat ≤ 90) ∨ (97 ≤ c.toNat ∧ c.toNat ≤ 122) := by
  have halpha : c.isAlpha = (c.isUpper || c.isLower) := rfl
  rw [halpha, Bool.or_eq_true, isUpper_iff_toNat, isLower_iff_toNat]

theorem isDigit_iff_toNat {c : Char} : c.isDigit = true ↔ 48 ≤ c.toNat ∧ c.toNat ≤ 57 :=
  Char.isDigit_iff_toNat

theorem toLower_of_not_isUpper {c : Char} (h : ¬c.isUpper = true) : c.toLower = c :=
  dif_neg fun hupper => h (decide_eq_true hupper)

theorem toNat_toLower {c : Char} (h : c.isUpper = true) : c.toLower.toNat = c.toNat + 32 := by
  have hlower : c.toLower.val = c.val + ('a'.val - 'A'.val) :=
    congrArg Char.val (dif_pos (of_decide_eq_true h))
  have hsum := congrArg UInt32.toNat hlower
  rw [UInt32.toNat_add, show ('a'.val - 'A'.val).toNat = 32 from rfl] at hsum
  have hbounds := isUpper_iff_toNat.1 h
  have hval : c.val.toNat = c.toNat := rfl
  have hval' : c.toLower.val.toNat = c.toLower.toNat := rfl
  omega

/-! ## Blank characters -/

/-- Blank characters lie in five intervals that hold no letter and no number. -/
theorem toNat_of_isBlank {c : Char} (h : isBlank c = true) :
    (0x9 ≤ c.toNat ∧ c.toNat ≤ 0x20) ∨ (0x85 ≤ c.toNat ∧ c.toNat ≤ 0xA0) ∨
      (0x1680 ≤ c.toNat ∧ c.toNat ≤ 0x1680) ∨ (0x2000 ≤ c.toNat ∧ c.toNat ≤ 0x205F) ∨
        (0x3000 ≤ c.toNat ∧ c.toNat ≤ 0x3000) := by
  simp only [isBlank, Bool.or_eq_true, Bool.and_eq_true, beq_iff_eq, decide_eq_true_eq] at h
  omega

theorem isAlphabetic_of_isBlank {c : Char} (h : isBlank c = true) : isAlphabetic c = false := by
  rcases toNat_of_isBlank h with h | h | h | h | h
  · rw [isAlphabetic_of_ascii (by omega), Bool.eq_false_iff, ne_eq, isAlpha_iff_toNat]
    omega
  all_goals
    rw [isAlphabetic, if_neg (by omega)]
    exact CodeRanges.has_eq_false (by decide +kernel) h.1 h.2

theorem isDigit_of_isBlank {c : Char} (h : isBlank c = true) : c.isDigit = false := by
  rw [Bool.eq_false_iff, ne_eq, isDigit_iff_toNat]
  rcases toNat_of_isBlank h with h | h | h | h | h <;> omega

theorem isNumeric_of_isBlank {c : Char} (h : isBlank c = true) : isNumeric c = false := by
  have hd := isDigit_of_isBlank h
  rcases toNat_of_isBlank h with h | h | h | h | h
  · rwa [isNumeric_of_ascii (by omega)]
  all_goals
    rw [isNumeric, if_neg (by omega)]
    exact CodeRanges.has_eq_false (by decide +kernel) h.1 h.2

end SchemaDdl.Text

namespace SchemaDdl.Script

/-- A character of a class is not among characters outside the class. -/
theorem notMem_of_class {p : Char → Bool} {cs : List Char} (hcs : cs.any p = false) {c : Char}
    (h : p c = true) : c ∉ cs :=
  fun hc => List.any_eq_false.1 hcs c hc h

theorem ne_of_isBlank {c d : Char} (h : Text.isBlank c = true) (hd : Text.isBlank d = false) :
    c ≠ d := by
  rintro rfl
  simp [h] at hd

theorem continuesWord_of_isBlank {c : Char} (h : Text.isBlank c = true) :
    continuesWord c = false := by
  simp [continuesWord, Text.isAlphabetic_of_isBlank h, Text.isNumeric_of_isBlank h,
    ne_of_isBlank h (show Text.isBlank '_' = false by decide),
    ne_of_isBlank h (show Text.isBlank '$' = false by decide)]

theorem continuesNumber_of_isBlank {c : Char} (h : Text.isBlank c = true) :
    continuesNumber c = false := by
  simp [continuesNumber, Text.isDigit_of_isBlank h,
    ne_of_isBlank h (show Text.isBlank '.' = false by decide)]

theorem isBlank_of_startsWord {c : Char} (h : startsWord c = true) : Text.isBlank c = false := by
  rw [Bool.eq_false_iff]
  intro hb
  simp [startsWord, Text.isAlphabetic_of_isBlank hb,
    ne_of_isBlank hb (show Text.isBlank '_' = false by decide)] at h

theorem isBlank_of_isDigit {c : Char} (h : c.isDigit = true) : Text.isBlank c = false := by
  rw [Bool.eq_false_iff]
  intro hb
  simp [Text.isDigit_of_isBlank hb] at h

theorem isDigit_of_startsWord {c : Char} (h : startsWord c = true) : c.isDigit = false := by
  have h9 : '9'.toNat = 57 := rfl
  have h0 : '0'.toNat = 48 := rfl
  rw [Bool.eq_false_iff, ne_eq, Char.isDigit_iff_toNat]
  intro hd
  have hc : c ≠ '_' := by
    rintro rfl
    simp at hd
  rw [startsWord, Text.isAlphabetic_of_ascii (by omega), Bool.or_eq_true,
    Text.isAlpha_iff_toNat] at h
  rcases h with h | h
  · omega
  · simp [hc] at h

end SchemaDdl.Script
