import SchemaDdl.Json.Print

/-!
# Number texts

A number text is read to its end: whatever follows it, it is the same number as long as what follows
cannot be part of a number. Integers of sixty-four bits, with or without sign, read back from their
digits.
-/

namespace SchemaDdl.Decimal

/-- A character that a number may go on with. -/
def isNumberChar (c : Char) : Bool :=
  c.isDigit || c == '.' || c == 'e' || c == 'E'

/-- A text that cannot go on with a number that stands in front of it. -/
def Stops (cs : List Char) : Prop :=
  ∀ c ∈ cs.head?, isNumberChar c = false

theorem stops_nil : Stops [] := by
  simp [Stops]

theorem stops_cons {c : Char} (hc : isNumberChar c = false) (cs : List Char) : Stops (c :: cs) := by
  simpa [Stops] using hc

theorem Stops.append {cs ds : List Char} (hc : Stops cs) (hd : Stops ds) : Stops (cs ++ ds) := by
  cases cs with
  | nil => exact hd
  | cons c cs => exact hc

theorem Stops.isDigit_eq_false {cs : List Char} (h : Stops cs) {c : Char} (hc : c ∈ cs.head?) :
    c.isDigit = false := by
  have := h c hc
  simp only [isNumberChar, Bool.or_eq_false_iff] at this
  exact this.1.1.1

/-! ## What follows a number -/

section

variable {cs ds r rest : List Char}

theorem takeWhile_append_of_stops (h : Stops rest) (cs : List Char) :
    (cs ++ rest).takeWhile Char.isDigit = cs.takeWhile Char.isDigit ∧
      (cs ++ rest).dropWhile Char.isDigit = cs.dropWhile Char.isDigit ++ rest := by
  induction cs with
  | nil =>
    cases rest with
    | nil => exact ⟨rfl, rfl⟩
    | cons c cs =>
      have hc : c.isDigit = false := h.isDigit_eq_false rfl
      simp [hc]
  | cons c cs ih =>
    cases hc : c.isDigit with
    | false => simp [hc]
    | true => simpa [hc] using ih

theorem someDigits?_append (h : someDigits? cs = some (ds, r)) (hrest : Stops rest) :
    someDigits? (cs ++ rest) = some (ds, r ++ rest) := by
  obtain ⟨htake, hdrop⟩ := takeWhile_append_of_stops hrest cs
  rw [someDigits?] at h ⊢
  rw [htake, hdrop]
  split at h
  · simp at h
  · obtain ⟨rfl, rfl⟩ := Prod.mk.inj (Option.some.inj h)
    rfl

theorem wholeDigits?_append (h : wholeDigits? cs = some (ds, r)) (hrest : Stops rest) :
    wholeDigits? (cs ++ rest) = some (ds, r ++ rest) := by
  obtain ⟨hdigits, hzero⟩ := Option.filter_eq_some_iff.1 h
  rw [wholeDigits?, someDigits?_append hdigits hrest, Option.filter_some, if_pos hzero]

theorem head?_append_ne {c : Char} (hc : isNumberChar c = true) (hcs : cs.head? ≠ some c)
    (hrest : Stops rest) : (cs ++ rest).head? ≠ some c := by
  rw [List.head?_append, ne_eq, Option.or_eq_some_iff, not_or]
  exact ⟨hcs, fun hr => absurd hc (by rw [hrest c hr.2]; decide)⟩

theorem fractionDigits?_of_head (h : cs.head? ≠ some '.') :
    fractionDigits? cs = some (none, cs) := by
  apply fractionDigits?.eq_2
  rintro ds rfl
  exact h rfl

theorem fractionDigits?_append {fraction : Option (List Char)}
    (h : fractionDigits? cs = some (fraction, r)) (hrest : Stops rest) :
    fractionDigits? (cs ++ rest) = some (fraction, r ++ rest) := by
  by_cases hpoint : cs.head? = some '.'
  · obtain ⟨cs, rfl⟩ := List.head?_eq_some_iff.1 hpoint
    obtain ⟨⟨ds, r⟩, hdigits, heq⟩ := Option.map_eq_some_iff.1 h
    obtain ⟨rfl, rfl⟩ := Prod.mk.inj heq
    rw [List.cons_append, fractionDigits?, someDigits?_append hdigits hrest]
    rfl
  · rw [fractionDigits?_of_head hpoint] at h
    obtain ⟨rfl, rfl⟩ := Prod.mk.inj (Option.some.inj h)
    exact fractionDigits?_of_head (head?_append_ne rfl hpoint hrest)

/-- The sign in front of some digits does not depend on what follows them. -/
theorem exists_signedDigits? (hne : cs ≠ []) :
    ∃ negative body, ∀ rest, signedDigits? (cs ++ rest) =
      (someDigits? (body ++ rest)).map fun (ds, rest) => ((negative, ds), rest) := by
  obtain ⟨c, cs, rfl⟩ := List.exists_cons_of_ne_nil hne
  by_cases hplus : c = '+'
  · subst hplus
    exact ⟨false, cs, fun rest => rfl⟩
  by_cases hminus : c = '-'
  · subst hminus
    exact ⟨true, cs, fun rest => rfl⟩
  refine ⟨false, c :: cs, fun rest => signedDigits?.eq_3 _ ?_ ?_⟩
  · rintro ds ⟨⟩
    exact hplus rfl
  · rintro ds ⟨⟩
    exact hminus rfl

theorem signedDigits?_append {e : Bool × List Char} (h : signedDigits? cs = some (e, r))
    (hrest : Stops rest) : signedDigits? (cs ++ rest) = some (e, r ++ rest) := by
  have hne : cs ≠ [] := by
    rintro rfl
    cases h
  obtain ⟨negative, body, hsplit⟩ := exists_signedDigits? hne
  have hnil := hsplit []
  rw [List.append_nil, List.append_nil, h] at hnil
  obtain ⟨⟨ds, r⟩, hdigits, heq⟩ := Option.map_eq_some_iff.1 hnil.symm
  obtain ⟨rfl, rfl⟩ := Prod.mk.inj heq
  rw [hsplit, someDigits?_append hdigits hrest]
  rfl

theorem exponentDigits?_of_head (hlower : cs.head? ≠ some 'e') (hupper : cs.head? ≠ some 'E') :
    exponentDigits? cs = some (none, cs) := by
  apply exponentDigits?.eq_3
  · rintro ds rfl
    exact hlower rfl
  · rintro ds rfl
    exact hupper rfl

theorem exponentDigits?_append {exponent : Option (Bool × List Char)}
    (h : exponentDigits? cs = some (exponent, r)) (hrest : Stops rest) :
    exponentDigits? (cs ++ rest) = some (exponent, r ++ rest) := by
  have hmarked {ds : List Char} (hds : (signedDigits? ds).map (fun d => (some d.1, d.2)) =
      some (exponent, r)) : (signedDigits? (ds ++ rest)).map (fun d => (some d.1, d.2)) =
        some (exponent, r ++ rest) := by
    obtain ⟨⟨e, r⟩, hsigned, heq⟩ := Option.map_eq_some_iff.1 hds
    obtain ⟨rfl, rfl⟩ := Prod.mk.inj heq
    rw [signedDigits?_append hsigned hrest]
    rfl
  by_cases hlower : cs.head? = some 'e'
  · obtain ⟨cs, rfl⟩ := List.head?_eq_some_iff.1 hlower
    exact hmarked h
  by_cases hupper : cs.head? = some 'E'
  · obtain ⟨cs, rfl⟩ := List.head?_eq_some_iff.1 hupper
    exact hmarked h
  rw [exponentDigits?_of_head hlower hupper] at h
  obtain ⟨rfl, rfl⟩ := Prod.mk.inj (Option.some.inj h)
  exact exponentDigits?_of_head (head?_append_ne rfl hlower hrest)
    (head?_append_ne rfl hupper hrest)

theorem takeMinus_of_ne {c : Char} (hc : c ≠ '-') (cs : List Char) :
    takeMinus (c :: cs) = (false, c :: cs) := by
  apply takeMinus.eq_2
  rintro ds ⟨⟩
  exact hc rfl

theorem takeMinus_append (hne : cs ≠ []) (rest : List Char) :
    takeMinus (cs ++ rest) = ((takeMinus cs).1, (takeMinus cs).2 ++ rest) := by
  obtain ⟨c, cs, rfl⟩ := List.exists_cons_of_ne_nil hne
  by_cases hminus : c = '-'
  · subst hminus
    rfl
  · rw [List.cons_append, takeMinus_of_ne hminus, takeMinus_of_ne hminus]
    rfl

theorem numberText?_eq_some_iff {t : NumberText} :
    numberText? cs = some (t, r) ↔
      (takeMinus cs).1 = t.negative ∧ ∃ r₁ r₂, wholeDigits? (takeMinus cs).2 = some (t.whole, r₁) ∧
        fractionDigits? r₁ = some (t.fraction, r₂) ∧ exponentDigits? r₂ = some (t.exponent, r) := by
  obtain ⟨negative, whole, fraction, exponent⟩ := t
  simp only [numberText?, Option.bind_eq_bind, Option.bind_eq_some_iff, Prod.exists, Option.pure_def,
    Option.some.injEq, Prod.mk.injEq, NumberText.mk.injEq]
  constructor
  · rintro ⟨whole, r₁, hwhole, fraction, r₂, hfraction, exponent, r, hexponent, ⟨rfl, rfl, rfl, rfl⟩,
      rfl⟩
    exact ⟨rfl, r₁, r₂, hwhole, hfraction, hexponent⟩
  · rintro ⟨rfl, r₁, r₂, hwhole, hfraction, hexponent⟩
    exact ⟨whole, r₁, hwhole, fraction, r₂, hfraction, exponent, r, hexponent, ⟨rfl, rfl, rfl, rfl⟩,
      rfl⟩

theorem ne_nil_of_numberText? {t : NumberText} (h : numberText? cs = some (t, r)) : cs ≠ [] := by
  rintro rfl
  cases h

/-- What follows a number does not change it. -/
theorem numberText?_append {t : NumberText} (h : numberText? cs = some (t, r))
    (hrest : Stops rest) : numberText? (cs ++ rest) = some (t, r ++ rest) := by
  have hne := ne_nil_of_numberText? h
  rw [numberText?_eq_some_iff] at h ⊢
  obtain ⟨hsign, r₁, r₂, hwhole, hfraction, hexponent⟩ := h
  rw [takeMinus_append hne]
  exact ⟨hsign, r₁ ++ rest, r₂ ++ rest, wholeDigits?_append hwhole hrest,
    fractionDigits?_append hfraction hrest, exponentDigits?_append hexponent hrest⟩

/-- A number starts with a digit or a minus. -/
theorem head_of_numberText? {c : Char} {t : NumberText} (h : numberText? (c :: cs) = some (t, r)) :
    c = '-' ∨ c.isDigit = true := by
  by_cases hminus : c = '-'
  · exact .inl hminus
  obtain ⟨-, r₁, r₂, hwhole, -, -⟩ := numberText?_eq_some_iff.1 h
  rw [takeMinus_of_ne hminus] at hwhole
  obtain ⟨hdigits, -⟩ := Option.filter_eq_some_iff.1 hwhole
  right
  apply Classical.byContradiction
  intro hdigit
  simp [someDigits?, hdigit] at hdigits

end

/-! ## Integers -/

theorem someDigits?_of_digits {ds : List Char} (hne : ds ≠ []) (hds : ∀ d ∈ ds, d.isDigit = true) :
    someDigits? ds = some (ds, []) := by
  have htake := @List.takeWhile_append_of_pos Char Char.isDigit ds [] hds
  have hdrop := @List.dropWhile_append_of_pos Char Char.isDigit ds [] hds
  rw [List.append_nil] at htake hdrop
  rw [someDigits?, htake, hdrop, List.takeWhile_nil, List.append_nil]
  obtain ⟨d, ds, rfl⟩ := List.exists_cons_of_ne_nil hne
  rfl

theorem toDigits_of_le {n : Nat} (hn : 10 ≤ n) :
    Nat.toDigits 10 n = Nat.toDigits 10 (n / 10) ++ [Nat.digitChar (n % 10)] :=
  Nat.toDigits_of_base_le (by decide) hn

theorem head?_toDigits {n : Nat} (hn : 0 < n) : (Nat.toDigits 10 n).head? ≠ some '0' := by
  induction n using Nat.strongRecOn with
  | ind n ih =>
    by_cases hlt : n < 10
    · have hdigits : ∀ d < 10, 0 < d → (Nat.toDigits 10 d).head? ≠ some '0' := by decide
      exact hdigits n hlt hn
    · have hfront := ih (n / 10) (by omega) (by omega)
      obtain ⟨d, ds, hd⟩ := List.exists_cons_of_ne_nil (Nat.toDigits_ne_nil (n := n / 10) (b := 10))
      rw [toDigits_of_le (by omega), hd]
      rwa [hd] at hfront

/-- The digits of a natural number have no leading zero. -/
theorem wholeDigits?_toDigits (n : Nat) :
    wholeDigits? (Nat.toDigits 10 n) = some (Nat.toDigits 10 n, []) := by
  have hdigits := someDigits?_of_digits (Nat.toDigits_ne_nil (n := n) (b := 10)) fun d hd =>
    Nat.isDigit_of_mem_toDigits (by decide) (Nat.le_refl 10) hd
  rw [wholeDigits?, hdigits, Option.filter_some, if_pos]
  rcases Nat.eq_zero_or_pos n with rfl | hn
  · rfl
  · rw [Bool.or_eq_true, bne_iff_ne]
    exact .inl (head?_toDigits hn)

/-- The parts of an integer as it is written. -/
def wholeText (negative : Bool) (n : Nat) : NumberText where
  negative
  whole := Nat.toDigits 10 n
  fraction := none
  exponent := none

theorem numberText?_minus (n : Nat) :
    numberText? ('-' :: Nat.toDigits 10 n) = some (wholeText true n, []) :=
  numberText?_eq_some_iff.2 ⟨rfl, [], [], wholeDigits?_toDigits n, rfl, rfl⟩

theorem numberText?_toDigits (n : Nat) :
    numberText? (Nat.toDigits 10 n) = some (wholeText false n, []) := by
  have hminus : takeMinus (Nat.toDigits 10 n) = (false, Nat.toDigits 10 n) := by
    apply takeMinus.eq_2
    intro ds heq
    have := Nat.isDigit_of_mem_toDigits (by decide) (Nat.le_refl 10)
      (heq ▸ List.mem_cons_self : '-' ∈ Nat.toDigits 10 n)
    exact absurd this (by decide)
  rw [numberText?_eq_some_iff, hminus]
  exact ⟨rfl, [], [], wholeDigits?_toDigits n, rfl, rfl⟩

theorem digitValue_digitChar {d : Nat} (hd : d < 10) : digitValue (Nat.digitChar d) = d := by
  have hdigits : ∀ d < 10, digitValue (Nat.digitChar d) = d := by decide
  exact hdigits d hd

theorem ofWhole_toDigits {n : Nat} (hn : n < 0x10000000000000000) :
    Significand.ofWhole (Nat.toDigits 10 n) = ⟨n, 0, false⟩ := by
  induction n using Nat.strongRecOn with
  | ind n ih =>
    have hpush {m d : Nat} (hd : d < 10) (hm : 10 * m + d < 0x10000000000000000) :
        Significand.pushWhole ⟨m, 0, false⟩ (Nat.digitChar d) = ⟨10 * m + d, 0, false⟩ := by
      simp [Significand.pushWhole, Significand.takes, Significand.pushed, digitValue_digitChar hd, hm]
    by_cases hlt : n < 10
    · have := hpush (m := 0) hlt (by omega)
      rw [Nat.toDigits_of_lt_base hlt]
      simpa [Significand.ofWhole] using this
    · have hlast := hpush (m := n / 10) (d := n % 10) (by omega) (by omega)
      rw [Nat.div_add_mod] at hlast
      rw [toDigits_of_le (by omega), Significand.ofWhole, List.foldl_append]
      rw [← Significand.ofWhole, ih (n / 10) (by omega) (by omega)]
      exact hlast

/-- The number that a whole text is. -/
def Number.ofChars? (cs : List Char) : Option Number :=
  match numberText? cs with
  | some (t, []) => Number.ofText? t
  | _ => none

theorem Number.ofChars?_eq_some_iff {cs : List Char} {n : Number} :
    Number.ofChars? cs = some n ↔ ∃ t, numberText? cs = some (t, []) ∧ Number.ofText? t = some n := by
  rw [Number.ofChars?]
  split
  · rename_i t hcs
    simp [hcs]
  · rename_i hcs
    constructor
    · rintro ⟨⟩
    · rintro ⟨t, ht, -⟩
      exact absurd ht (hcs t)

theorem numberChars_ofNat (n : Nat) : Json.numberChars (.int n) = Nat.toDigits 10 n := by
  have hrepr : toString (n : Int) = String.ofList (Nat.toDigits 10 n) := rfl
  rw [Json.numberChars, hrepr, String.toList_ofList]

theorem numberChars_negSucc (n : Nat) :
    Json.numberChars (.int (.negSucc n)) = '-' :: Nat.toDigits 10 (n + 1) := by
  have hrepr : toString (Int.negSucc n) = "-" ++ String.ofList (Nat.toDigits 10 (n + 1)) := rfl
  have hminus : "-".toList = ['-'] := rfl
  rw [Json.numberChars, hrepr, String.toList_append, hminus, String.toList_ofList]
  rfl

theorem ofText?_wholeText {n : Nat} (hn : n < 0x10000000000000000) :
    Number.ofText? (wholeText false n) = some (.int n) := by
  have hwhole : Significand.ofWhole (wholeText false n).whole = ⟨n, 0, false⟩ := ofWhole_toDigits hn
  rw [Number.ofText?, hwhole]
  rfl

theorem ofText?_minus {n : Nat} (hpos : 1 ≤ n) (hn : n ≤ 0x8000000000000000) :
    Number.ofText? (wholeText true n) = some (.int (-n)) := by
  have hwhole : Significand.ofWhole (wholeText true n).whole = ⟨n, 0, false⟩ :=
    ofWhole_toDigits (by omega)
  have hrange : (decide (1 ≤ n) && decide (n ≤ 0x8000000000000000)) = true := by simp [hpos, hn]
  rw [Number.ofText?, hwhole]
  exact if_pos hrange

/-- Integers that fit read back from their digits. -/
theorem ofChars?_int {i : Int} (hlow : -0x8000000000000000 ≤ i) (hhigh : i < 0x10000000000000000) :
    Number.ofChars? (Json.numberChars (.int i)) = some (.int i) := by
  rw [Number.ofChars?_eq_some_iff]
  cases i with
  | ofNat n =>
    rw [Int.ofNat_eq_natCast] at hhigh ⊢
    exact ⟨wholeText false n, by rw [numberChars_ofNat, numberText?_toDigits],
      ofText?_wholeText (by omega)⟩
  | negSucc n =>
    exact ⟨wholeText true (n + 1), by rw [numberChars_negSucc, numberText?_minus],
      ofText?_minus (by omega) (by omega)⟩

/-- The text of a double, if it has one, is read as that double. Reading rounds more than once, so
that this does not hold of every double. -/
def ReadsBack (f : Float) : Prop :=
  ∀ text, floatText? f = some text → Number.ofChars? text = some (.float f)

deriving instance DecidableEq for Number

instance (f : Float) : Decidable (ReadsBack f) :=
  inferInstanceAs (Decidable (∀ text ∈ floatText? f, Number.ofChars? text = some (.float f)))

theorem ofChars?_float {f : Float} (hfinite : f.isFinite = true) (h : ReadsBack f) :
    Number.ofChars? (Json.numberChars (.float f)) = some (.float f) := by
  obtain ⟨text, htext⟩ : ∃ text, floatText? f = some text := by
    rw [floatText?, if_pos hfinite]
    exact ⟨_, rfl⟩
  rw [Json.numberChars, htext]
  exact h text htext

end SchemaDdl.Decimal
