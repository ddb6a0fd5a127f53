import Mathlib

/-!
# Rounded and packed doubles

A double is computed by rounding a mantissa with an exponent to fifty-three places and packing it.
What is rounded stays within a power of two, so that its exponent still fits when the number was not
too large, and a number with all its places keeps its exponent.
-/

open Float.Model Float.Model.UnpackedFloat

namespace SchemaDdl.Decimal

/-! ## Rounding -/

theorem mantissa_shiftRight (em : ExtendedMantissa) (n : Nat) :
    (em >>> n).mantissa = em.mantissa / 2 ^ n := by
  induction n with
  | zero => exact (Nat.div_one _).symm
  | succ n ih =>
    have hstep : (em >>> (n + 1)).mantissa = (em >>> n).mantissa / 2 := rfl
    rw [hstep, ih, Nat.div_div_eq_div_mul, Nat.pow_succ]

theorem mantissa_ofAccuracy (m : Nat) (a : Accuracy) :
    (ExtendedMantissa.ofMantissaAndAccuracy m a).mantissa = m := by
  rcases a with _ | o
  · rfl
  · cases o <;> rfl

theorem roundedMantissa_le (em : ExtendedMantissa) :
    em.mantissa ≤ em.roundedMantissa ∧ em.roundedMantissa ≤ em.mantissa + 1 := by
  obtain ⟨m, r, s⟩ := em
  cases r <;> cases s <;> simp [ExtendedMantissa.roundedMantissa, ExtendedMantissa.accuracy,
    Accuracy.roundToNearestEven]
  omega

/-- The exponent that suits a mantissa with some exponent. -/
def target (m : Nat) (e : Int) : Int :=
  max (m.log2 + 1 + e - 53) (-1074)

theorem targetExponent_eq (m : Nat) (e : Int) :
    Format.binary64.targetExponent (totalExponent m e) = target m e := by
  simp [Format.targetExponent, totalExponent, target, Format.mantissaBits, Format.minExponent]

theorem shiftToTargetExponent_eq (m : Nat) (e : Int) (a : Accuracy) :
    (shiftToTargetExponent Format.binary64 m e a).1.mantissa = m / 2 ^ (target m e - e).toNat ∧
      (shiftToTargetExponent Format.binary64 m e a).2 = max e (target m e) := by
  rw [shiftToTargetExponent, targetExponent_eq, shiftToExponent]
  constructor
  · rw [mantissa_shiftRight, mantissa_ofAccuracy]
  · dsimp only
    omega

/-- The parts of a rounded number: the mantissa is shifted, rounded up or not, and shifted again in
case it has got one place longer. -/
theorem roundWithAccuracy_eq (sign : Sign) (m : Nat) (e : Int) (a : Accuracy) :
    ∃ r, m / 2 ^ (target m e - e).toNat ≤ r ∧ r ≤ m / 2 ^ (target m e - e).toNat + 1 ∧
      ∃ m', m' = r / 2 ^ (target r (max e (target m e)) - max e (target m e)).toNat ∧
      roundWithAccuracy Format.binary64 sign m e a =
        if h : m' = 0 then .zero sign
        else .finite sign m' (max (max e (target m e)) (target r (max e (target m e))))
          (Nat.pos_of_ne_zero h) := by
  obtain ⟨hmantissa, hexponent⟩ := shiftToTargetExponent_eq m e a
  generalize hfirst : shiftToTargetExponent Format.binary64 m e a = first at hmantissa hexponent
  obtain ⟨hlow, hhigh⟩ := roundedMantissa_le first.1
  obtain ⟨hmantissa', hexponent'⟩ :=
    shiftToTargetExponent_eq first.1.roundedMantissa first.2 .exact
  rw [hmantissa] at hlow hhigh
  refine ⟨first.1.roundedMantissa, hlow, hhigh, _, rfl, ?_⟩
  rw [roundWithAccuracy, hfirst]
  rw [← hexponent]
  simp only [hmantissa', hexponent']

/-- A number that is zero or has an exponent that a double can hold. -/
inductive Fits : UnpackedFloat → Prop where
  | zero (sign : Sign) : Fits (.zero sign)
  | finite (sign : Sign) {m : Nat} {e : Int} (hm : 0 < m) (he : e ≤ 971) :
    Fits (.finite sign m e hm)

theorem log2_le_of_le_pow {n k : Nat} (h : n ≤ 2 ^ k) : n.log2 ≤ k := by
  rcases Nat.eq_zero_or_pos n with rfl | hn
  · exact Nat.zero_le k
  · have hself := Nat.log2_self_le (Nat.ne_of_gt hn)
    exact (Nat.pow_le_pow_iff_right (by decide : 1 < 2)).1 (Nat.le_trans hself h)

theorem log2_lt_of_lt_pow {n k : Nat} (hn : n ≠ 0) (h : n < 2 ^ k) : n.log2 < k :=
  (Nat.log2_lt hn).2 h

/-- Rounding may double a number but no more. -/
theorem fits_round (sign : Sign) {m k : Nat} {e : Int} (a : Accuracy) (hm : m < 2 ^ k)
    (hk : e + k ≤ 1023) (he : e ≤ 971) : Fits (roundWithAccuracy Format.binary64 sign m e a) := by
  obtain ⟨r, -, hr, m', -, heq⟩ := roundWithAccuracy_eq sign m e a
  have htarget : target m e ≤ 971 := by
    rw [target]
    rcases Nat.eq_zero_or_pos m with rfl | hpos
    · rw [Nat.log2_zero]
      omega
    · have := log2_lt_of_lt_pow (by omega) hm
      omega
  generalize hs : (target m e - e).toNat = s at hr
  have hshift : max e (target m e) = e + s := by omega
  have hrounded : (r.log2 : Int) + (e + s) ≤ 1023 := by
    by_cases hsk : s ≤ k
    · have hdiv : m / 2 ^ s < 2 ^ (k - s) := by
        apply Nat.div_lt_of_lt_mul
        rwa [← Nat.pow_add, Nat.add_sub_cancel' hsk]
      have := log2_le_of_le_pow (show r ≤ 2 ^ (k - s) by omega)
      omega
    · have hdiv : m / 2 ^ s = 0 :=
        Nat.div_eq_of_lt (Nat.lt_of_lt_of_le hm (Nat.pow_le_pow_right (by decide) (by omega)))
      have := log2_le_of_le_pow (show r ≤ 2 ^ 0 by omega)
      omega
  rw [heq]
  split
  · exact .zero sign
  · apply Fits.finite
    rw [hshift, target]
    omega

/-- A number that has all its places keeps them, and its size. -/
theorem round_normal (sign : Sign) {m : Nat} {e : Int} (a : Accuracy) (hm : 2 ^ 52 ≤ m)
    (he : -1074 ≤ e) : ∃ m' e' hm', roundWithAccuracy Format.binary64 sign m e a =
      .finite sign m' e' hm' ∧ m'.log2 = 52 ∧ e + m.log2 ≤ e' + 52 := by
  obtain ⟨r, hlow, hhigh, m', hm', heq⟩ := roundWithAccuracy_eq sign m e a
  have hlog : 52 ≤ m.log2 := (Nat.le_log2 (by omega)).2 hm
  have htarget : target m e = m.log2 - 52 + e := by
    rw [target]
    omega
  have hshift : (target m e - e).toNat = m.log2 - 52 := by omega
  have hexponent : max e (target m e) = e + (m.log2 - 52) := by omega
  have hpow : 2 ^ m.log2 = 2 ^ (m.log2 - 52) * 2 ^ 52 := by
    rw [← Nat.pow_add, Nat.sub_add_cancel hlog]
  have hbelow : 2 ^ 52 ≤ m / 2 ^ (m.log2 - 52) := by
    have hself := Nat.log2_self_le (show m ≠ 0 by omega)
    rw [Nat.le_div_iff_mul_le (Nat.two_pow_pos _), Nat.mul_comm, ← hpow]
    exact hself
  have habove : m / 2 ^ (m.log2 - 52) < 2 ^ 53 := by
    have hlt := Nat.lt_log2_self (n := m)
    apply Nat.div_lt_of_lt_mul
    omega
  rw [hshift] at hlow hhigh
  rw [hexponent] at hm' heq
  by_cases hcarry : r = 2 ^ 53
  · have hlog' : r.log2 = 53 := by rw [hcarry, Nat.log2_two_pow]
    have htarget' : target r (e + (m.log2 - 52)) = e + (m.log2 - 52) + 1 := by
      rw [target, hlog']
      omega
    have hone : (e + (m.log2 - 52) + 1 - (e + (m.log2 - 52))).toNat = 1 := by omega
    rw [htarget', hone, hcarry] at hm'
    rw [htarget'] at heq
    have hm52 : m' = 2 ^ 52 := by omega
    refine ⟨m', _, by omega, heq.trans (dif_neg (by omega)), by rw [hm52, Nat.log2_two_pow], by omega⟩
  · have hlog' : r.log2 = 52 := (Nat.log2_eq_iff (by omega)).2 ⟨by omega, by omega⟩
    have htarget' : target r (e + (m.log2 - 52)) = e + (m.log2 - 52) := by
      rw [target, hlog']
      omega
    rw [htarget', Int.sub_self, Int.toNat_zero, Nat.pow_zero, Nat.div_one] at hm'
    rw [htarget'] at heq
    refine ⟨m', _, by omega, heq.trans (dif_neg (by omega)), by rw [hm', hlog'], by omega⟩

/-! ## Packing -/

theorem isFinite_unpack (b : BitVec Format.binary64.numBits) :
    (UnpackedFloat.unpack Format.binary64 b).isFinite = true ↔ unpackExponent b ≠ -1#11 := by
  rw [UnpackedFloat.unpack]
  dsimp only
  split
  · rename_i hexponent
    split <;> simp [UnpackedFloat.isFinite, hexponent]
  · rename_i hexponent
    split
    · split <;> simpa [UnpackedFloat.isFinite] using hexponent
    · simpa [UnpackedFloat.isFinite] using hexponent

theorem unpack_pack (u : UnpackedFloat) : (Float.Model.pack u).unpack =
    UnpackedFloat.unpack Format.binary64 (UnpackedFloat.pack Format.binary64 u) := rfl

theorem pack_of_lt (sign : Sign) {m : Nat} {e : Int} (hm : 0 < m) (he : 971 < e) :
    UnpackedFloat.pack Format.binary64 (.finite sign m e hm) =
      packedInfinity Format.binary64 sign := by
  have hbias : (Format.binary64.exponentBias : Int) = 1023 := rfl
  rw [UnpackedFloat.pack]
  dsimp only
  rw [hbias, if_pos (by omega)]

/-- The exponent of a number that is not too large, zero if it has not all its places. -/
theorem unpackExponent_pack (sign : Sign) {m : Nat} {e : Int} (hm : 0 < m) (he : e ≤ 971) :
    unpackExponent (UnpackedFloat.pack Format.binary64 (.finite sign m e hm)) =
      if m.log2 = 52 then BitVec.ofNat 11 (e + 1075).toNat else 0#11 := by
  have hbias : (Format.binary64.exponentBias : Int) = 1023 := rfl
  have hplaces : m.log2 + 1 = Format.binary64.mantissaBits ↔ m.log2 = 52 := by
    have hbits : Format.binary64.mantissaBits = 53 := rfl
    rw [hbits]
    omega
  have hbiased : e + 1023 + ((52 : Nat) : Int) = e + 1075 := by omega
  rw [UnpackedFloat.pack]
  dsimp only
  rw [hbias, hbiased, if_neg (by omega)]
  by_cases hlog : m.log2 = 52
  · rw [if_pos (hplaces.2 hlog), if_pos hlog, unpackExponent_packComponents]
  · rw [if_neg (mt hplaces.1 hlog), if_neg hlog, unpackExponent_packComponents]

theorem toNat_biased {e : Int} (he : e ≤ 971) :
    (BitVec.ofNat 11 (e + 1075).toNat).toNat = (e + 1075).toNat := by
  rw [BitVec.toNat_ofNat]
  omega

theorem biased_ne {e : Int} (he : e ≤ 971) : BitVec.ofNat 11 (e + 1075).toNat ≠ -1#11 := by
  intro hones
  have := toNat_biased he
  rw [hones] at this
  change 2047 = (e + 1075).toNat at this
  omega

theorem isFinite_pack {u : UnpackedFloat} (h : Fits u) : (Float.Model.pack u).isFinite = true := by
  rw [Float.Model.isFinite, unpack_pack, isFinite_unpack]
  cases h with
  | zero sign => simp [UnpackedFloat.pack, packedZero]
  | finite sign hm he =>
    rw [unpackExponent_pack sign hm he]
    split
    · exact biased_ne he
    · decide

theorem isInf_packedInfinity (sign : Sign) :
    (UnpackedFloat.unpack Format.binary64 (packedInfinity Format.binary64 sign)).isInf = true := by
  cases sign <;> decide

/-- What is packed is finite, unless it is too large or no number to begin with. -/
theorem isFinite_of_isInf {u : UnpackedFloat} (hu : u ≠ .notANumber)
    (h : (Float.Model.pack u).isInf = false) : (Float.Model.pack u).isFinite = true := by
  rw [Float.Model.isInf, unpack_pack] at h
  cases u with
  | notANumber => exact absurd rfl hu
  | infinity sign =>
    rw [UnpackedFloat.pack, isInf_packedInfinity] at h
    cases h
  | zero sign => exact isFinite_pack (.zero sign)
  | finite sign m e hm =>
    by_cases he : e ≤ 971
    · exact isFinite_pack (.finite sign hm he)
    · rw [pack_of_lt sign hm (by omega), isInf_packedInfinity] at h
      cases h

theorem log2_normal (v : BitVec 52) : (1#1 ++ v).toNat.log2 = 52 := by
  have hlow : 2 ^ 52 ≤ (1#1 ++ v).toNat := by
    rw [BitVec.toNat_append]
    exact Nat.left_le_or
  have hhigh : (1#1 ++ v).toNat < 2 ^ (1 + 52) := BitVec.isLt _
  exact (Nat.log2_eq_iff (by omega)).2 ⟨hlow, hhigh⟩

/-- The parts of a double that has all its places. -/
theorem unpack_normal {b : BitVec Format.binary64.numBits} (h : unpackExponent b ≠ -1#11)
    (hzero : unpackExponent b ≠ 0#11) :
    ∃ sign m e hm, UnpackedFloat.unpack Format.binary64 b = .finite sign m e hm ∧ m.log2 = 52 ∧
      e = (unpackExponent b).toNat - 1075 := by
  have hbias : (Format.binary64.exponentBias : Int) = 1023 := rfl
  have hlog := log2_normal (unpackMantissa b)
  have hpos : 0 < (1#1 ++ unpackMantissa b).toNat := by
    apply Nat.pos_of_ne_zero
    intro hnone
    rw [hnone] at hlog
    cases hlog
  rw [UnpackedFloat.unpack]
  dsimp only
  rw [if_neg h, if_neg hzero, hbias]
  exact ⟨_, _, _, hpos, rfl, hlog, by omega⟩

/-- The parts of a finite double. -/
theorem unpack_of_isFinite {f : Float.Model} (h : f.isFinite = true) :
    (∃ sign, f.unpack = .zero sign) ∨
      ∃ sign m e hm, f.unpack = .finite sign m e hm ∧ m.log2 ≤ 52 ∧ e ≤ 971 := by
  let b : BitVec Format.binary64.numBits := f.toBits.toBitVec
  have hunpack : f.unpack = UnpackedFloat.unpack Format.binary64 b := rfl
  have hexponent : unpackExponent b ≠ -1#11 := (isFinite_unpack b).1 h
  rw [hunpack]
  by_cases hzero : unpackExponent b = 0#11
  · have hmantissa : (unpackMantissa b).toNat < 2 ^ 52 := (unpackMantissa b).isLt
    rw [UnpackedFloat.unpack]
    dsimp only
    rw [if_neg hexponent, if_pos hzero, hzero]
    split
    · exact .inl ⟨_, rfl⟩
    · rename_i hne
      have hpos : 0 < (unpackMantissa b).toNat :=
        Nat.pos_of_ne_zero fun hnone => hne (BitVec.eq_of_toNat_eq hnone)
      exact .inr ⟨_, _, _, hpos, rfl, log2_le_of_le_pow (Nat.le_of_lt hmantissa), by decide⟩
  · obtain ⟨sign, m, e, hm, heq, hlog, he⟩ := unpack_normal hexponent hzero
    have hbound : (unpackExponent b).toNat < 2 ^ 11 := (unpackExponent b).isLt
    have hne : (unpackExponent b).toNat ≠ 2047 :=
      fun hones => hexponent (BitVec.eq_of_toNat_eq hones)
    exact .inr ⟨sign, m, e, hm, heq, by omega, by omega⟩

/-- A number that has all its places keeps its exponent when it is packed. -/
theorem unpack_pack_normal (sign : Sign) {m : Nat} {e : Int} (hm : 0 < m) (hlog : m.log2 = 52)
    (hlow : -1074 ≤ e) (hhigh : e ≤ 971) :
    ∃ sign' m' hm', (Float.Model.pack (.finite sign m e hm)).unpack = .finite sign' m' e hm' ∧
      m'.log2 = 52 := by
  have hexponent := unpackExponent_pack sign hm hhigh
  have hbiased := toNat_biased hhigh
  rw [if_pos hlog] at hexponent
  have hones := biased_ne hhigh
  have hzero : BitVec.ofNat 11 (e + 1075).toNat ≠ 0#11 := by
    intro hnone
    rw [hnone] at hbiased
    change 0 = (e + 1075).toNat at hbiased
    omega
  rw [← hexponent] at hones hzero
  obtain ⟨sign', m', e', hm', heq, hlog', he'⟩ := unpack_normal hones hzero
  rw [hexponent, hbiased] at he'
  obtain rfl : e' = e := by omega
  exact ⟨sign', m', hm', heq, hlog'⟩

end SchemaDdl.Decimal
