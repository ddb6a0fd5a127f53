import SchemaDdl.Decimal.Reading
import SchemaDdl.Proofs.Decimal.Rounding

/-!
# Doubles that are read are finite

A number text that is too large for a double has no number, so that a number that is read is never
infinite. It is never undefined either, as only finite doubles are multiplied and divided, and no
divisor is below two.
-/

open Float.Model Float.Model.UnpackedFloat

namespace SchemaDdl.Decimal

/-! ## Arithmetic -/

theorem round_ne_notANumber (sign : Sign) (m : Nat) (e : Int) (a : Accuracy) :
    roundWithAccuracy Format.binary64 sign m e a ≠ .notANumber := by
  obtain ⟨r, -, -, m', -, heq⟩ := roundWithAccuracy_eq sign m e a
  rw [heq]
  split <;> exact nofun

/-- The product of finite doubles is a number, though it may be too large. -/
theorem isFinite_mul {f g : Float} (hf : f.isFinite = true) (hg : g.isFinite = true)
    (h : (f * g).isInf = false) : (f * g).isFinite = true := by
  refine @isFinite_of_isInf (UnpackedFloat.mul Format.binary64 f.toModel.unpack g.toModel.unpack) ?_ h
  rcases unpack_of_isFinite hf with ⟨s, hf⟩ | ⟨s, m, e, hm, hf, -, -⟩ <;>
    rcases unpack_of_isFinite hg with ⟨s', hg⟩ | ⟨s', m', e', hm', hg, -, -⟩ <;> rw [hf, hg]
  · exact nofun
  · exact nofun
  · exact nofun
  · exact round_ne_notANumber _ _ _ _

/-- Whether a number is finite and, but for its sign, at least two. -/
def atLeastTwo : UnpackedFloat → Bool
  | .finite _ m e _ => 1 ≤ e + m.log2
  | _ => false

theorem exists_of_atLeastTwo {u : UnpackedFloat} (h : atLeastTwo u = true) :
    ∃ sign m e hm, u = .finite sign m e hm ∧ 1 ≤ e + m.log2 := by
  cases u with
  | finite sign m e hm => exact ⟨sign, m, e, hm, rfl, of_decide_eq_true h⟩
  | _ => cases h

theorem div_lt_of_log2 {m d n : Nat} (hm : m < 2 ^ n) (hd : 0 < d) :
    m / d < 2 ^ (n - d.log2) := by
  have hself := Nat.log2_self_le (Nat.ne_of_gt hd)
  apply Nat.div_lt_of_lt_mul
  calc m < 2 ^ n := hm
    _ ≤ 2 ^ (d.log2 + (n - d.log2)) := Nat.pow_le_pow_right (by decide) (by omega)
    _ = 2 ^ d.log2 * 2 ^ (n - d.log2) := Nat.pow_add ..
    _ ≤ d * 2 ^ (n - d.log2) := Nat.mul_le_mul_right _ hself

/-- A finite double is still finite when it is divided. -/
theorem isFinite_div {f g : Float} (hf : f.isFinite = true) (hg : atLeastTwo g.toModel.unpack = true) :
    (f / g).isFinite = true := by
  refine @isFinite_pack (UnpackedFloat.div Format.binary64 f.toModel.unpack g.toModel.unpack) ?_
  obtain ⟨s', d, e', hd, hg, hsize⟩ := exists_of_atLeastTwo hg
  rcases unpack_of_isFinite hf with ⟨s, hf⟩ | ⟨s, m, e, hm, hf, hlog, he⟩ <;> rw [hf, hg]
  · exact .zero _
  · have htarget : Format.binary64.targetExponent (totalExponent m e - totalExponent d e') ≤ 969 := by
      have hbits : Format.binary64.mantissaBits = 53 := rfl
      have hleast : Format.binary64.minExponent = -1074 := rfl
      rw [Format.targetExponent, hbits, hleast, totalExponent, totalExponent]
      omega
    rw [UnpackedFloat.div, divCore]
    dsimp only
    generalize hquotient : min (e - e') (Format.binary64.targetExponent
      (totalExponent m e - totalExponent d e')) = quotient
    generalize hshift : (e - e' - quotient).toNat = shift
    have hm53 : m < 2 ^ 53 := by
      have hlt := Nat.lt_log2_self (n := m)
      exact Nat.lt_of_lt_of_le hlt (Nat.pow_le_pow_right (by decide) (by omega))
    have hshifted : m <<< shift < 2 ^ (53 + shift) := by
      rw [Nat.shiftLeft_eq, Nat.pow_add]
      exact Nat.mul_lt_mul_of_pos_right hm53 (Nat.two_pow_pos shift)
    exact fits_round _ _ (div_lt_of_log2 hshifted hd) (by omega) (by omega)

theorem isFinite_neg {f : Float} (hf : f.isFinite = true) : (-f).isFinite = true := by
  refine @isFinite_pack f.toModel.unpack.neg ?_
  rcases unpack_of_isFinite hf with ⟨s, hf⟩ | ⟨s, m, e, hm, hf, -, he⟩ <;> rw [hf]
  · exact .zero _
  · exact .finite _ hm he

/-! ## Powers of ten -/

theorem powerOfTen_eq {k : Nat} (hlow : 22 < k) (hhigh : k ≤ 308) :
    (powerOfTen k).toModel = Float.Model.pack
      (roundWithAccuracy Format.binary64 .positive (2 ^ 53 * 10 ^ k) (-53) .exact) := by
  have hslow : ¬(1 < 2 ^ 53 ∧ k ≤ 22) := by omega
  have hbig : ¬((k : Int) > 2 ^ Format.binary64.exponentBits) := by
    have : (2 : Int) ^ Format.binary64.exponentBits = 2048 := rfl
    omega
  have hsmall : ¬((k : Int) < -((2 ^ Format.binary64.exponentBits : Int) + (Nat.log2 1 : Nat))) := by
    have : (2 : Int) ^ Format.binary64.exponentBits = 2048 := rfl
    omega
  have hmodel : UnpackedFloat.ofScientific Format.binary64 1 k =
      roundWithAccuracy Format.binary64 .positive (2 ^ 53 * 10 ^ k) (-53) .exact := by
    rw [UnpackedFloat.ofScientific, dif_neg (by decide), if_neg hbig, if_neg hsmall,
      if_pos (by omega)]
    rfl
  rw [powerOfTen, Float.ofScientific, dif_neg hslow]
  exact congrArg Float.Model.pack hmodel

theorem isFinite_largestPower : (powerOfTen largestPower).isFinite = true := by
  decide +kernel

theorem atLeastTwo_of_le : ∀ k ≤ 22, 1 ≤ k → atLeastTwo (powerOfTen k).toModel.unpack = true := by
  decide +kernel

/-- Rounding does not make a power of ten infinite: the largest one is evaluated, and the others are
far enough below the limit. -/
theorem exponent_powerOfTen {k m : Nat} {e : Int} {hm : 0 < m} (hlow : 22 < k)
    (hhigh : k ≤ largestPower) (hround : roundWithAccuracy Format.binary64 .positive
      (2 ^ 53 * 10 ^ k) (-53) .exact = .finite .positive m e hm) : e ≤ 971 := by
  rcases Nat.eq_or_lt_of_le hhigh with rfl | hlt
  · have hfinite := isFinite_largestPower
    rw [Float.isFinite, powerOfTen_eq hlow hhigh, hround, Float.Model.isFinite, unpack_pack] at hfinite
    apply Int.not_lt.1
    intro he
    rw [pack_of_lt _ hm he] at hfinite
    exact absurd hfinite (by decide)
  · obtain ⟨n, hn, hpow⟩ : ∃ n ≤ 1023, 10 ^ (largestPower - 1) < 2 ^ n :=
      ⟨1023, Nat.le_refl _, by decide +kernel⟩
    have hle : 10 ^ k ≤ 10 ^ (largestPower - 1) :=
      Nat.pow_le_pow_right (by decide) (Nat.le_sub_one_of_lt hlt)
    have hbound : 2 ^ 53 * 10 ^ k < 2 ^ (53 + n) := by
      rw [Nat.pow_add]
      exact Nat.mul_lt_mul_of_pos_left (Nat.lt_of_le_of_lt hle hpow) (Nat.two_pow_pos 53)
    have hfits := fits_round .positive (e := -53) .exact hbound (by omega) (by omega)
    rw [hround] at hfits
    cases hfits with
    | finite _ _ he => exact he

theorem atLeastTwo_powerOfTen {k : Nat} (hk : 1 ≤ k) (hmax : k ≤ largestPower) :
    atLeastTwo (powerOfTen k).toModel.unpack = true := by
  by_cases hsmall : k ≤ 22
  · exact atLeastTwo_of_le k hsmall hk
  have hten : 10 ≤ 10 ^ k := Nat.le_self_pow (by omega) 10
  obtain ⟨m, e, hm, hround, hlog, hsize⟩ := round_normal .positive (m := 2 ^ 53 * 10 ^ k)
    (e := -53) .exact (by omega) (by omega)
  have hplaces : 56 ≤ (2 ^ 53 * 10 ^ k).log2 := (Nat.le_log2 (by omega)).2 (by omega)
  have hhigh := exponent_powerOfTen (by omega) hmax hround
  obtain ⟨s, m', hm', hunpack, hlog'⟩ := unpack_pack_normal .positive hm hlog (by omega) hhigh
  rw [powerOfTen_eq (by omega) hmax, hround, hunpack, atLeastTwo, decide_eq_true_eq]
  omega

theorem isFinite_powerOfTen {k : Nat} (hmax : k ≤ largestPower) :
    (powerOfTen k).isFinite = true := by
  rcases Nat.eq_zero_or_pos k with rfl | hk
  · decide +kernel
  · obtain ⟨s, m, e, hm, hunpack, -⟩ := exists_of_atLeastTwo (atLeastTwo_powerOfTen hk hmax)
    rw [Float.isFinite, Float.Model.isFinite, hunpack]
    rfl

/-! ## Numbers -/

theorem fits_normalize {n k : Nat} (hn : n < 2 ^ k) (hk : k ≤ 1023) :
    Fits (UnpackedFloat.normalize Format.binary64 n 0 .positive) := by
  have hround : Fits (UnpackedFloat.round Format.binary64 .positive n 0) := by
    rw [UnpackedFloat.round, decreaseExponent]
    dsimp only
    generalize (0 - Format.binary64.targetExponent (totalExponent n 0)).toNat = shift
    have hshifted : n <<< shift < 2 ^ (k + shift) := by
      rw [Nat.shiftLeft_eq, Nat.pow_add]
      exact Nat.mul_lt_mul_of_pos_right hn (Nat.two_pow_pos shift)
    exact fits_round _ _ hshifted (by omega) (by omega)
  rw [UnpackedFloat.normalize]
  split
  · rename_i hcompare
    rw [Int.compare_eq_lt] at hcompare
    omega
  · exact .zero _
  · exact hround

theorem isFinite_floatOfNat (n : Nat) : (floatOfNat n).isFinite = true :=
  isFinite_pack (fits_normalize (UInt64.ofNat n).toNat_lt (by decide))

theorem isFinite_signed (negative : Bool) {f : Float} (hf : f.isFinite = true) :
    (signed negative f).isFinite = true := by
  cases negative with
  | false => exact hf
  | true => exact isFinite_neg hf

theorem isFinite_floatOfInt (i : Int) : (floatOfInt i).isFinite = true := by
  rw [floatOfInt]
  split
  · exact isFinite_neg (isFinite_floatOfNat _)
  · exact isFinite_floatOfNat _

theorem isFinite_scale? {f g : Float} {e : Int} (hf : f.isFinite = true) (h : scale? f e = some g) :
    g.isFinite = true := by
  fun_induction scale? f e with
  | case1 => cases h
  | case2 f e hlow hhigh g' hinf =>
    obtain rfl := Option.some.inj h
    exact isFinite_mul hf (isFinite_powerOfTen (by omega)) (Bool.eq_false_iff.2 hinf)
  | case3 =>
    obtain rfl := Option.some.inj h
    exact hf
  | case4 => cases h
  | case5 f e hlow hhigh =>
    obtain rfl := Option.some.inj h
    exact isFinite_div hf (atLeastTwo_powerOfTen (by omega) (by omega))
  | case6 =>
    obtain rfl := Option.some.inj h
    exact hf
  | case7 f e _ _ _ ih =>
    exact ih (isFinite_div hf (atLeastTwo_powerOfTen (by decide) (Nat.le_refl _))) h

/-- A number that is read is finite. -/
theorem isFinite_of_ofText? {t : NumberText} {n : Number} (h : Number.ofText? t = some n) :
    n.toFloat.isFinite = true := by
  have hfloat (h : (scale? (floatOfNat t.significand.value) t.significand.exponent).map
      (fun f => Number.float (signed t.negative f)) = some n) : n.toFloat.isFinite = true := by
    obtain ⟨f, hscale, rfl⟩ := Option.map_eq_some_iff.1 h
    exact isFinite_signed t.negative (isFinite_scale? (isFinite_floatOfNat _) hscale)
  rw [Number.ofText?] at h
  split at h
  · exact hfloat h
  split at h
  · obtain rfl := Option.some.inj h
    exact isFinite_floatOfInt _
  split at h
  · obtain rfl := Option.some.inj h
    exact isFinite_floatOfInt _
  · exact hfloat h

end SchemaDdl.Decimal
