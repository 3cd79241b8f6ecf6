import Mathlib
import Scheduling.Model.Node

/-!
# Integers as floats

A bound of a variable is a float. An integer of at most 53 bits fills the mantissa of a float from
the left, no bit of it is rounded away (`Binary64.ofNat_eq`), and the bits of the float are read
back as the same mantissa and exponent (`Binary64.unpack_pack`). So the integer can be read off its
float (`boundInt_ofInt`).
-/

open Float.Model Float.Model.UnpackedFloat

namespace Scheduling

namespace Binary64

variable {m : Nat} {e : Int}

/-! ### Rounding without loss -/

theorem targetExponent_eq (h : -1074 ≤ e - 53) : Format.binary64.targetExponent e = e - 53 := by
  have hmin : Format.binary64.minExponent = -1074 := by decide
  have hbits : (Format.binary64.mantissaBits : Int) = 53 := by decide
  rw [Format.targetExponent, hmin, hbits]
  omega

theorem log2_mul_two_pow (hm : m ≠ 0) (k : Nat) : (m * 2 ^ k).log2 = m.log2 + k := by
  have hpow : 0 < 2 ^ k := Nat.two_pow_pos k
  have hne : m * 2 ^ k ≠ 0 := Nat.mul_ne_zero hm (by omega)
  rw [Nat.log2_eq_iff hne, Nat.pow_add, Nat.add_right_comm, Nat.pow_add]
  exact ⟨Nat.mul_le_mul_right _ (Nat.log2_self_le hm),
    Nat.mul_lt_mul_of_pos_right Nat.lt_log2_self hpow⟩

theorem shiftRight_mul (m k : Nat) :
    (⟨m * 2 ^ k, false, false⟩ : ExtendedMantissa) >>> k = ⟨m, false, false⟩ := by
  show Nat.repeat ExtendedMantissa.shiftRightOne k _ = _
  induction k generalizing m with
  | zero => simp [Nat.repeat]
  | succ k ih =>
    have hm : m * 2 ^ (k + 1) = m * 2 * 2 ^ k := by rw [Nat.pow_succ', Nat.mul_assoc]
    rw [Nat.repeat, hm, ih]
    simp [ExtendedMantissa.shiftRightOne]

theorem shiftToTargetExponent_mul (k : Nat) (hm : m.log2 = 52) (he : -1074 ≤ e) :
    shiftToTargetExponent Format.binary64 (m * 2 ^ k) (e - k) .exact = (⟨m, false, false⟩, e) := by
  have hne : m ≠ 0 := by rintro rfl; simp at hm
  have htotal : totalExponent (m * 2 ^ k) (e - k) = e + 53 := by
    rw [totalExponent, log2_mul_two_pow hne, hm]
    omega
  have htarget : Format.binary64.targetExponent (e + 53) = e := by
    rw [targetExponent_eq (by omega)]
    omega
  have hshift : (e - (e - k)).toNat = k := by omega
  unfold shiftToTargetExponent shiftToExponent
  simp only [htotal, htarget, hshift]
  exact Prod.ext (shiftRight_mul m k) (by simp)

/-- A mantissa of 53 bits with zeros behind it is rounded to itself. -/
theorem roundWithAccuracy_mul (s : Sign) (k : Nat) (hm : m.log2 = 52) (he : -1074 ≤ e)
    (hpos : 0 < m) :
    roundWithAccuracy Format.binary64 s (m * 2 ^ k) (e - k) .exact = .finite s m e hpos := by
  have hfirst := shiftToTargetExponent_mul k hm he
  have hsecond := shiftToTargetExponent_mul 0 hm he
  rw [Nat.pow_zero, Nat.mul_one, Int.natCast_zero, Int.sub_zero] at hsecond
  have hrounded : (⟨m, false, false⟩ : ExtendedMantissa).roundedMantissa = m := rfl
  unfold roundWithAccuracy
  simp only [hfirst, hrounded, hsecond, dif_neg (Nat.ne_of_gt hpos)]

/-! ### Bits -/

theorem unpackSign_packComponents (s : Sign) (e : BitVec 11) (f : BitVec 52) :
    Sign.ofBitVec (unpackSign (packComponents Format.binary64 s e f)) = s := by
  show Sign.ofBitVec ((s.toBitVec ++ e ++ f).extractLsb' 63 1) = s
  rw [BitVec.extractLsb'_append_eq_of_le (by decide),
    BitVec.extractLsb'_append_eq_of_le (by decide)]
  cases s <;> rfl

/-- The bits of a float with a mantissa of 53 bits are read back as the float. -/
theorem unpack_pack (s : Sign) (hm : m.log2 = 52) (he : -1074 ≤ e) (he' : e ≤ 971)
    (hpos : 0 < m) :
    unpack Format.binary64 (UnpackedFloat.pack Format.binary64 (.finite s m e hpos)) =
      .finite s m e hpos := by
  have hlow : 2 ^ 52 ≤ m := hm ▸ Nat.log2_self_le (by omega)
  have hhigh : m < 2 ^ 53 := by
    have := Nat.lt_log2_self (n := m)
    rwa [hm] at this
  -- The exponent field is neither that of zero nor that of infinity.
  have hfield : (BitVec.ofNat 11 (e + 1075).toNat).toNat = (e + 1075).toNat := by
    rw [BitVec.toNat_ofNat]
    exact Nat.mod_eq_of_lt (by omega)
  have hne (k : Nat) (hk : k < 2048) (h : (e + 1075).toNat ≠ k) :
      BitVec.ofNat 11 (e + 1075).toNat ≠ BitVec.ofNat 11 k := by
    intro heq
    have := congrArg BitVec.toNat heq
    rw [hfield, BitVec.toNat_ofNat, Nat.mod_eq_of_lt hk] at this
    exact h this
  have hmantissa : (1#1 ++ BitVec.ofNat 52 m).toNat = m := by
    rw [BitVec.toNat_append, BitVec.toNat_ofNat, BitVec.toNat_ofNat, Nat.shiftLeft_eq]
    show 2 ^ 52 ||| m % 2 ^ 52 = m
    rw [Nat.or_comm, Nat.or_two_pow_eq_add_of_lt (Nat.mod_lt m (Nat.two_pow_pos 52))]
    omega
  have hbiased : (e + Format.binary64.exponentBias
      + Format.binary64.mantissaBitsWithoutImplicit).toNat = (e + 1075).toNat :=
    congrArg Int.toNat (show e + 1023 + 52 = e + 1075 by omega)
  have hpack : UnpackedFloat.pack Format.binary64 (.finite s m e hpos) =
      packComponents Format.binary64 s (BitVec.ofNat 11 (e + 1075).toNat) (BitVec.ofNat 52 m) := by
    have hfinite : ¬ 2 ^ Format.binary64.exponentBits ≤ (e + 1075).toNat + 1 := by
      show ¬ 2048 ≤ _
      omega
    rw [UnpackedFloat.pack]
    simp only [hbiased, if_neg hfinite, hm]
    exact if_pos rfl
  have hexponent : ((e + 1075).toNat : Int) - (Format.binary64.exponentBias
      + Format.binary64.mantissaBitsWithoutImplicit) = e := by
    show ((e + 1075).toNat : Int) - (1023 + 52) = e
    omega
  rw [hpack, UnpackedFloat.unpack]
  simp only [unpackMantissa_packComponents, unpackExponent_packComponents, hfield, hexponent,
    unpackSign_packComponents]
  refine (if_neg (hne 2047 (by omega) (by omega))).trans ?_
  refine (if_neg (hne 0 (by omega) (by omega))).trans ?_
  simp only [hmantissa]

/-! ### Integers -/

variable {n : Nat}

theorem log2_le (h : n < 2 ^ 53) : n.log2 ≤ 52 := by
  by_cases hn : n = 0
  · subst hn
    decide
  · have := (Nat.log2_lt hn).2 h
    omega

theorem log2_normal (hn : n ≠ 0) (h : n < 2 ^ 53) : (n * 2 ^ (52 - n.log2)).log2 = 52 := by
  have := log2_le h
  rw [log2_mul_two_pow hn]
  omega

/-- A natural number of 53 bits is rounded to itself. -/
theorem ofNat_eq (hn : n ≠ 0) (h : n < 2 ^ 53) (hpos : 0 < n * 2 ^ (52 - n.log2)) :
    UnpackedFloat.ofNat Format.binary64 n =
      .finite .positive (n * 2 ^ (52 - n.log2)) (n.log2 - 52) hpos := by
  have hlog := log2_le h
  have hgt : compare (n : Int) 0 = .gt := Int.compare_eq_gt.2 (by omega)
  have htarget : Format.binary64.targetExponent (totalExponent n 0) = n.log2 - 52 := by
    rw [totalExponent, targetExponent_eq (by omega)]
    omega
  have hshift : (0 - ((n.log2 : Int) - 52)).toNat = 52 - n.log2 := by omega
  have hexponent : (0 : Int) - (52 - n.log2 : Nat) = n.log2 - 52 - (0 : Nat) := by omega
  have hround := roundWithAccuracy_mul .positive 0 (log2_normal hn h)
    (e := n.log2 - 52) (by omega) hpos
  rw [Nat.pow_zero, Nat.mul_one] at hround
  rw [UnpackedFloat.ofNat, UnpackedFloat.ofInt, UnpackedFloat.normalize, hgt]
  simp only [Int.toNat_natCast, UnpackedFloat.round, htarget, decreaseExponent, hshift, hexponent]
  rw [Nat.shiftLeft_eq]
  exact hround

theorem unpack_ofNat (hn : n ≠ 0) (h : n < 2 ^ 53) (hpos : 0 < n * 2 ^ (52 - n.log2)) :
    (Float.ofNat n).toModel.unpack =
      .finite .positive (n * 2 ^ (52 - n.log2)) (n.log2 - 52) hpos := by
  have hlog := log2_normal hn h
  have hword : n.toUInt64.toNat = n := Nat.mod_eq_of_lt (by omega)
  have hle := log2_le h
  have hunpack := unpack_pack .positive hlog (e := n.log2 - 52) (by omega) (by omega) hpos
  have hconvert : n.toUInt64.toFloat.toModel.unpack =
      .finite .positive (n * 2 ^ (52 - n.log2)) (n.log2 - 52) hpos := by
    show UnpackedFloat.unpack Format.binary64 (UnpackedFloat.pack Format.binary64
      (UnpackedFloat.ofNat Format.binary64 n.toUInt64.toNat)) = _
    rw [hword, ofNat_eq hn h hpos, hunpack]
  have hone : (Float.ofBits 4607182418800017408).toModel.unpack =
      .finite .positive (2 ^ 52) (-52) (by decide) := by rfl
  have hscientific : Float.ofNat n = n.toUInt64.toFloat * Float.ofBits 4607182418800017408 := by
    show Float.ofScientific n false 0 = _
    rw [Float.ofScientific, dif_pos ⟨h, by decide⟩]
    rfl
  rw [hscientific]
  show UnpackedFloat.unpack Format.binary64 (UnpackedFloat.pack Format.binary64
    (UnpackedFloat.mul Format.binary64 n.toUInt64.toFloat.toModel.unpack
      (Float.ofBits 4607182418800017408).toModel.unpack)) = _
  rw [hconvert, hone]
  show UnpackedFloat.unpack Format.binary64 (UnpackedFloat.pack Format.binary64
    (roundWithAccuracy Format.binary64 .positive (n * 2 ^ (52 - n.log2) * 2 ^ 52)
      ((n.log2 : Int) - 52 - (52 : Nat)) .exact)) = _
  rw [roundWithAccuracy_mul .positive 52 hlog (by omega) hpos, hunpack]

theorem roundToInt_ofNat (s : Sign) (h : n < 2 ^ 53) :
    roundToInt s (n * 2 ^ (52 - n.log2)) (n.log2 - 52) = s.apply n := by
  have hlog := log2_le h
  have hup : ((n.log2 : Int) - 52 - 0).toNat = 0 := by omega
  have hdown : (0 - ((n.log2 : Int) - 52)).toNat = 52 - n.log2 := by omega
  have hdecrease : decreaseExponent (n * 2 ^ (52 - n.log2)) (n.log2 - 52) 0 =
      (n * 2 ^ (52 - n.log2), (n.log2 : Int) - 52) := by
    rw [decreaseExponent, hup]
    exact congrArg (Prod.mk _) (Int.sub_zero _)
  have hshift : (shiftToExponent (n * 2 ^ (52 - n.log2)) (n.log2 - 52) .exact 0).1 =
      ⟨n, false, false⟩ := by
    rw [shiftToExponent, hdown]
    exact shiftRight_mul n _
  rw [roundToInt, hdecrease]
  simp only [hshift]

/-- The float of a negative integer is that of its absolute value with the sign turned. -/
theorem unpack_ofInt {v : Int} (hv : v ≠ 0) (h : v.natAbs < 2 ^ 53)
    (hpos : 0 < v.natAbs * 2 ^ (52 - v.natAbs.log2)) :
    ∃ s : Sign, s.apply v.natAbs = v ∧ (Float.ofInt v).toModel.unpack =
      .finite s (v.natAbs * 2 ^ (52 - v.natAbs.log2)) (v.natAbs.log2 - 52) hpos := by
  cases v with
  | ofNat n => exact ⟨.positive, rfl, unpack_ofNat (by omega) h hpos⟩
  | negSucc n =>
    rw [Int.natAbs_negSucc] at h
    have hn := unpack_ofNat (Nat.succ_ne_zero n) h hpos
    refine ⟨.negative, rfl, ?_⟩
    show UnpackedFloat.unpack Format.binary64 (UnpackedFloat.pack Format.binary64
      (Float.ofNat (n + 1)).toModel.unpack.neg) = _
    rw [hn]
    have hlog := log2_le h
    exact unpack_pack .negative (log2_normal (Nat.succ_ne_zero n) h) (by omega) (by omega) hpos

end Binary64

/-- A float is known by its bits. -/
theorem toBits_injective : Function.Injective Float.toBits := by
  rintro ⟨⟨a, ha⟩⟩ ⟨⟨b, hb⟩⟩ h
  obtain rfl : a = b := h
  rfl

/-- An integer is read back from the float that stands for it. -/
theorem boundInt_ofInt {v : Int} (h : v.natAbs < 2 ^ 53) : boundInt (Float.ofInt v) = v := by
  by_cases hv : v = 0
  · subst hv
    decide +kernel
  have hpos : 0 < v.natAbs * 2 ^ (52 - v.natAbs.log2) :=
    Nat.mul_pos (by omega) (Nat.two_pow_pos _)
  obtain ⟨s, hs, hunpack⟩ := Binary64.unpack_ofInt hv h hpos
  have hbounds : Int64.minValue.toInt ≤ v ∧ v ≤ Int64.maxValue.toInt := by
    rw [Int64.toInt_minValue, Int64.toInt_maxValue]
    omega
  rw [boundInt, Float.Model.toInt64, UnpackedFloat.toInt64, hunpack, UnpackedFloat.toInt,
    Binary64.roundToInt_ofNat s h, hs]
  exact Int64.toInt_ofIntClamp hbounds.1 hbounds.2

end Scheduling
