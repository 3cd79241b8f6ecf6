import Scheduling.Eval.Node
import Scheduling.Proofs.FloatOrder
import Scheduling.Proofs.Floats

/-!
# Integers rounded to floats

A float has 53 bits for an integer, so the float of a greater integer is that of a multiple of a
power of two, the nearest one, and the even one of two that are as near (`rounded`). Floats of
integers of 64 bits compare as the rounded integers do (`Comparison.holds_ofInt`). Rounding keeps the
order (`rounded_mono`) and changes no integer up to `2 ^ 53` (`rounded_of_natAbs_le`).
-/

open Float.Model Float.Model.UnpackedFloat

namespace Scheduling

/-! ### Rounding -/

/-- The multiple of a unit that is nearest to a number; of two as near, the even one. -/
def nearestMultiple (unit n : Nat) : Nat :=
  if unit < 2 * (n % unit) ∨ unit = 2 * (n % unit) ∧ n / unit % 2 = 1 then (n / unit + 1) * unit
  else n / unit * unit

/-- The unit in which the leading 53 bits of a number count. -/
def lastUnit (n : Nat) : Nat := 2 ^ (n.log2 - 52)

/-- The integer of 53 leading bits that is nearest to an integer. -/
def rounded (v : Int) : Int := v.sign * nearestMultiple (lastUnit v.natAbs) v.natAbs

section Nearest

variable {unit n k : Nat}

theorem nearestMultiple_one : nearestMultiple 1 n = n := by
  simp [nearestMultiple, Nat.mod_one]

/-- A multiple of the unit that is no greater is not passed. -/
theorem le_nearestMultiple (h : k * unit ≤ n) : k * unit ≤ nearestMultiple unit n := by
  obtain rfl | hunit := Nat.eq_zero_or_pos unit
  · simp
  have hk : k ≤ n / unit := (Nat.le_div_iff_mul_le hunit).2 h
  unfold nearestMultiple
  split
  · exact Nat.mul_le_mul_right _ (by omega)
  · exact Nat.mul_le_mul_right _ hk

/-- A multiple of the unit that is no less is not passed. -/
theorem nearestMultiple_le (hunit : 0 < unit) (h : n ≤ k * unit) :
    nearestMultiple unit n ≤ k * unit := by
  have hdiv := Nat.div_add_mod' n unit
  have hquotient : n / unit ≤ k := Nat.div_le_of_le_mul (Nat.mul_comm k unit ▸ h)
  unfold nearestMultiple
  split
  · rename_i hup
    refine Nat.mul_le_mul_right _ (Nat.lt_of_le_of_ne hquotient fun he => ?_)
    -- Without a remainder the number itself is the nearest multiple.
    rw [he] at hdiv
    omega
  · exact Nat.mul_le_mul_right _ hquotient

theorem nearestMultiple_mono {n' : Nat} (hunit : 0 < unit) (h : n ≤ n') :
    nearestMultiple unit n ≤ nearestMultiple unit n' := by
  obtain hlt | heq := Nat.lt_or_eq_of_le (Nat.div_le_div_right h : n / unit ≤ n' / unit)
  · -- A multiple of the unit lies between the two numbers.
    have hbelow : n ≤ n' / unit * unit := by
      have := Nat.lt_mul_of_div_lt hlt hunit
      omega
    exact (nearestMultiple_le hunit hbelow).trans
      (le_nearestMultiple (Nat.div_mul_le_self n' unit))
  · have hn := Nat.div_add_mod' n unit
    have hn' := Nat.div_add_mod' n' unit
    have hmod : n % unit ≤ n' % unit := by
      rw [heq] at hn
      omega
    unfold nearestMultiple
    rw [heq]
    split <;> split <;> exact Nat.mul_le_mul_right _ (by omega)

end Nearest

section Units

variable {n n' : Nat}

theorem lastUnit_pos : 0 < lastUnit n := Nat.two_pow_pos _

theorem lastUnit_eq_one (h : n < 2 ^ 53) : lastUnit n = 1 := by
  rw [lastUnit, Nat.sub_eq_zero_of_le (Binary64.log2_le h), Nat.pow_zero]

/-- A power of two between two numbers is a multiple of the unit of either. -/
theorem exists_mul_lastUnit (h : n.log2 < n'.log2) :
    ∃ k k', 2 ^ n'.log2 = k * lastUnit n ∧ 2 ^ n'.log2 = k' * lastUnit n' := by
  refine ⟨2 ^ (n'.log2 - (n.log2 - 52)), 2 ^ (n'.log2 - (n'.log2 - 52)), ?_, ?_⟩ <;>
    rw [lastUnit, ← Nat.pow_add] <;> congr 1 <;> omega

theorem nearestMultiple_lastUnit_mono (h : n ≤ n') :
    nearestMultiple (lastUnit n) n ≤ nearestMultiple (lastUnit n') n' := by
  obtain rfl | hpos := Nat.eq_zero_or_pos n'
  · rw [Nat.le_zero.1 h]
  have hpow : 2 ^ n'.log2 ≤ n' := Nat.log2_self_le (by omega)
  obtain hlt | hge := Nat.lt_or_ge n.log2 n'.log2
  · obtain ⟨k, k', hk, hk'⟩ := exists_mul_lastUnit hlt
    have hbelow : n ≤ 2 ^ n'.log2 :=
      (Nat.lt_log2_self (n := n)).le.trans (Nat.pow_le_pow_right (by decide) hlt)
    calc nearestMultiple (lastUnit n) n
        ≤ k * lastUnit n := nearestMultiple_le lastUnit_pos (hk ▸ hbelow)
      _ = k' * lastUnit n' := hk.symm.trans hk'
      _ ≤ nearestMultiple (lastUnit n') n' := le_nearestMultiple (hk' ▸ hpow)
  · have hunit : lastUnit n = lastUnit n' := by
      obtain rfl | hn := Nat.eq_zero_or_pos n
      · have hzero : n'.log2 = 0 := Nat.le_zero.1 hge
        rw [lastUnit, lastUnit, hzero, Nat.log2_zero]
      · have hle : 2 ^ n.log2 ≤ n' := (Nat.log2_self_le (by omega)).trans h
        have : n.log2 ≤ n'.log2 := (Nat.le_log2 (by omega)).2 hle
        rw [lastUnit, lastUnit, Nat.le_antisymm this hge]
    rw [hunit]
    exact nearestMultiple_mono lastUnit_pos h

theorem nearestMultiple_lastUnit_of_le (h : n ≤ 2 ^ 53) : nearestMultiple (lastUnit n) n = n := by
  obtain hlt | rfl := Nat.lt_or_eq_of_le h
  · rw [lastUnit_eq_one hlt, nearestMultiple_one]
  · decide +kernel

end Units

variable {v w : Int}

theorem rounded_natCast (n : Nat) : rounded n = nearestMultiple (lastUnit n) n := by
  obtain rfl | hn := Nat.eq_zero_or_pos n
  · rfl
  · rw [rounded, Int.sign_eq_one_of_pos (by omega), Int.natAbs_natCast, one_mul]

theorem rounded_neg (v : Int) : rounded (-v) = -rounded v := by
  rw [rounded, rounded, Int.sign_neg, Int.natAbs_neg, neg_mul]

theorem rounded_nonneg (h : 0 ≤ v) : 0 ≤ rounded v := by
  obtain ⟨n, rfl⟩ := Int.eq_ofNat_of_zero_le h
  rw [rounded_natCast]
  exact Int.natCast_nonneg _

/-- Rounding keeps the order. -/
theorem rounded_mono (h : v ≤ w) : rounded v ≤ rounded w := by
  have hnonneg {a b : Int} (ha : 0 ≤ a) (hab : a ≤ b) : rounded a ≤ rounded b := by
    obtain ⟨n, rfl⟩ := Int.eq_ofNat_of_zero_le ha
    obtain ⟨n', rfl⟩ := Int.eq_ofNat_of_zero_le (ha.trans hab)
    rw [rounded_natCast, rounded_natCast]
    exact_mod_cast nearestMultiple_lastUnit_mono (Int.ofNat_le.1 hab)
  obtain hv | hv := le_total 0 v
  · exact hnonneg hv h
  obtain hw | hw := le_total 0 w
  · have hneg := rounded_nonneg (v := -v) (by omega)
    rw [rounded_neg] at hneg
    exact le_trans (by omega) (rounded_nonneg hw)
  · have hneg := hnonneg (a := -w) (b := -v) (by omega) (by omega)
    rw [rounded_neg, rounded_neg] at hneg
    omega

/-- Integers of 53 bits are not changed. -/
theorem rounded_of_natAbs_le (h : v.natAbs ≤ 2 ^ 53) : rounded v = v := by
  rw [rounded, nearestMultiple_lastUnit_of_le h, Int.sign_mul_natAbs]

/-! ### Floats of integers -/

namespace Binary64

variable {m n k : Nat} {e : Int} {x y : UnpackedFloat} {v w : Int}

theorem shiftRight_succ (em : ExtendedMantissa) (k : Nat) :
    em >>> (k + 1) = (em >>> k).shiftRightOne := rfl

theorem shiftRight_add (em : ExtendedMantissa) (j k : Nat) : em >>> (j + k) = (em >>> j) >>> k := by
  induction k with
  | zero => rfl
  | succ k ih => rw [← Nat.add_assoc, shiftRight_succ, ih, shiftRight_succ]

/-- What a shift keeps, the last bit it drops, and whether it drops any other. -/
theorem shiftRight_eq (n k : Nat) : (⟨n, false, false⟩ : ExtendedMantissa) >>> (k + 1) =
    ⟨n / 2 ^ (k + 1), n / 2 ^ k % 2 != 0, n % 2 ^ k != 0⟩ := by
  induction k with
  | zero =>
    show (⟨n / 2, n % 2 != 0, false⟩ : ExtendedMantissa) = _
    simp [Nat.mod_one]
  | succ k ih =>
    rw [shiftRight_succ, ih, ExtendedMantissa.shiftRightOne, Nat.div_div_eq_div_mul, ← Nat.pow_succ,
      Nat.mod_pow_succ]
    congr 1
    have := Nat.two_pow_pos k
    rw [Bool.eq_iff_iff]
    simp
    omega

/-- A mantissa is rounded up by its last bit, which alone gives way to an even mantissa. -/
theorem roundedMantissa_mk (m : Nat) (r s : Bool) :
    (⟨m, r, s⟩ : ExtendedMantissa).roundedMantissa =
      if r = true ∧ (s = true ∨ m % 2 = 1) then m + 1 else m := by
  cases r <;> cases s <;>
    simp [ExtendedMantissa.roundedMantissa, ExtendedMantissa.accuracy, Accuracy.roundToNearestEven]
  obtain h | h := Nat.mod_two_eq_zero_or_one m <;> simp [h]

/-- Dropping bits rounds to the nearest multiple. -/
theorem roundedMantissa_mul (n k : Nat) :
    ((⟨n, false, false⟩ : ExtendedMantissa) >>> k).roundedMantissa * 2 ^ k =
      nearestMultiple (2 ^ k) n := by
  cases k with
  | zero =>
    rw [Nat.pow_zero, nearestMultiple_one, Nat.mul_one]
    rfl
  | succ k =>
    have hmod : n % 2 ^ (k + 1) = n % 2 ^ k + 2 ^ k * (n / 2 ^ k % 2) := Nat.mod_pow_succ
    have hlow : n % 2 ^ k < 2 ^ k := Nat.mod_lt n (Nat.two_pow_pos k)
    have hunit : 2 ^ (k + 1) = 2 * 2 ^ k := Nat.pow_succ'
    -- The last bit that is dropped counts half a unit.
    have hup : (n / 2 ^ k % 2 != 0) = true ∧ ((n % 2 ^ k != 0) = true ∨ n / 2 ^ (k + 1) % 2 = 1) ↔
        2 ^ (k + 1) < 2 * (n % 2 ^ (k + 1)) ∨
          2 ^ (k + 1) = 2 * (n % 2 ^ (k + 1)) ∧ n / 2 ^ (k + 1) % 2 = 1 := by
      rw [bne_iff_ne, bne_iff_ne, hmod]
      obtain hbit | hbit := Nat.mod_two_eq_zero_or_one (n / 2 ^ k) <;> rw [hbit] <;> omega
    rw [shiftRight_eq, roundedMantissa_mk, nearestMultiple]
    simp only [hup]
    split <;> rfl

/-- A mantissa that rounding carries to 54 bits is written with 53 bits. -/
theorem roundWithAccuracy_of_shift {e' : Int} (he : -1074 ≤ e) (he' : e ≤ 970) (hlow : 2 ^ 52 ≤ m)
    (hhigh : m ≤ 2 ^ 53) {em : ExtendedMantissa} (hem : em.roundedMantissa = m)
    (hshift : shiftToTargetExponent Format.binary64 n e' .exact = (em, e)) :
    ∃ m' f hm, roundWithAccuracy Format.binary64 .positive n e' .exact = .finite .positive m' f hm ∧
      m'.log2 = 52 ∧ e ≤ f ∧ f ≤ 971 ∧ m' * 2 ^ (f - e).toNat = m := by
  unfold roundWithAccuracy
  simp only [hshift, hem]
  obtain hlt | rfl := Nat.lt_or_eq_of_le hhigh
  · have hlog : m.log2 = 52 := (Nat.log2_eq_iff (by omega)).2 ⟨hlow, hlt⟩
    have hsecond := shiftToTargetExponent_mul 0 hlog he
    rw [Nat.pow_zero, Nat.mul_one, Int.natCast_zero, Int.sub_zero] at hsecond
    refine ⟨m, e, by omega, ?_, hlog, Int.le_refl e, by omega, by simp⟩
    simp only [hsecond, dif_neg (show ¬ m = 0 by omega)]
  · have hlog : (2 ^ 52).log2 = 52 := Nat.log2_two_pow
    have hsecond := shiftToTargetExponent_mul (e := e + 1) 1 hlog (by omega)
    rw [← Nat.pow_add, Int.natCast_one, Int.add_sub_cancel] at hsecond
    refine ⟨2 ^ 52, e + 1, by omega, ?_, hlog, by omega, by omega, ?_⟩
    · simp only [hsecond]
      rfl
    · rw [show (e + 1 - e).toNat = 1 by omega]
      decide

/-- A number with more than 53 bits is rounded to a mantissa of 53 bits. -/
theorem roundWithAccuracy_wide (hk : n.log2 = 52 + k) (hpos : 0 < k) (hsmall : k ≤ 900) :
    ∃ m e hm, roundWithAccuracy Format.binary64 .positive (n * 2 ^ 53) (-53) .exact =
        .finite .positive m e hm ∧
      m.log2 = 52 ∧ 0 ≤ e ∧ e ≤ 971 ∧ m * 2 ^ e.toNat = nearestMultiple (lastUnit n) n := by
  have hn : n ≠ 0 := by
    rintro rfl
    simp at hk
    omega
  have hunit : lastUnit n = 2 ^ k := by rw [lastUnit, hk, Nat.add_sub_cancel_left]
  have hbounds := (Nat.log2_eq_iff hn).1 hk
  have hlow : 2 ^ 52 * 2 ^ k ≤ nearestMultiple (2 ^ k) n :=
    le_nearestMultiple (by rw [← Nat.pow_add]; exact hbounds.1)
  have hhigh : nearestMultiple (2 ^ k) n ≤ 2 ^ 53 * 2 ^ k := by
    refine nearestMultiple_le (Nat.two_pow_pos k) ?_
    rw [← Nat.pow_add, show 53 + k = 52 + k + 1 by omega]
    exact hbounds.2.le
  rw [← roundedMantissa_mul n k] at hlow hhigh
  have hshift : shiftToTargetExponent Format.binary64 (n * 2 ^ 53) (-53) .exact =
      ((⟨n, false, false⟩ : ExtendedMantissa) >>> k, (k : Int)) := by
    have htotal : totalExponent (n * 2 ^ 53) (-53) = (k : Int) + 53 := by
      rw [totalExponent, log2_mul_two_pow hn, hk]
      omega
    have htarget : Format.binary64.targetExponent ((k : Int) + 53) = k := by
      rw [targetExponent_eq (by omega)]
      omega
    have hamount : ((k : Int) - -53).toNat = 53 + k := by omega
    unfold shiftToTargetExponent shiftToExponent
    simp only [htotal, htarget, hamount]
    refine Prod.ext ?_ (by simp)
    show (⟨n * 2 ^ 53, false, false⟩ : ExtendedMantissa) >>> (53 + k) = _
    rw [shiftRight_add, shiftRight_mul]
  obtain ⟨m, e, hm, hround, hlog, hle, hmax, hvalue⟩ := roundWithAccuracy_of_shift (by omega)
    (by omega) (Nat.le_of_mul_le_mul_right hlow (Nat.two_pow_pos k))
    (Nat.le_of_mul_le_mul_right hhigh (Nat.two_pow_pos k)) rfl hshift
  refine ⟨m, e, hm, hround, hlog, by omega, hmax, ?_⟩
  rw [hunit, ← roundedMantissa_mul, ← hvalue, Nat.mul_assoc, ← Nat.pow_add]
  congr 2
  omega

/-- The float of a number with more than 53 bits. -/
theorem unpack_ofNat_wide (hlow : 2 ^ 53 ≤ n) (hhigh : n < 2 ^ 64) :
    ∃ m e hm, (Float.ofNat n).toModel.unpack = .finite .positive m e hm ∧
      m.log2 = 52 ∧ 0 ≤ e ∧ e ≤ 971 ∧ m * 2 ^ e.toNat = nearestMultiple (lastUnit n) n := by
  have hn : n ≠ 0 := by omega
  have h53 : 53 ≤ n.log2 := (Nat.le_log2 hn).2 hlow
  have h64 : n.log2 < 64 := (Nat.log2_lt hn).2 hhigh
  obtain ⟨m, e, hm, hround, hlog, hpos, hmax, hvalue⟩ :=
    roundWithAccuracy_wide (n := n) (k := n.log2 - 52) (by omega) (by omega) (by omega)
  refine ⟨m, e, hm, ?_, hlog, hpos, hmax, hvalue⟩
  have hscientific : UnpackedFloat.ofScientific Format.binary64 n 0 =
      roundWithAccuracy Format.binary64 .positive (n * 2 ^ 53) (-53) .exact := by
    have hbits : Format.binary64.mantissaBits = 53 := rfl
    have hgreat : ¬ (0 : Int) > 2 ^ Format.binary64.exponentBits := by decide
    have hsmall : ¬ (0 : Int) < -(2 ^ Format.binary64.exponentBits + n.log2) := by
      show ¬ (0 : Int) < -(2 ^ 11 + n.log2)
      omega
    rw [UnpackedFloat.ofScientific, dif_neg hn, if_neg hgreat, if_neg hsmall, if_pos (le_refl _),
      UnpackedFloat.mul, Nat.shiftLeft_eq, hbits, Int.toNat_zero, Nat.pow_zero, Nat.mul_one]
    rfl
  have hnumber : Float.ofNat n =
      ⟨Float.Model.pack (UnpackedFloat.ofScientific Format.binary64 n 0)⟩ := by
    show Float.ofScientific n false 0 = _
    rw [Float.ofScientific, dif_neg (by omega)]
    rfl
  rw [hnumber, hscientific, hround]
  exact unpack_pack .positive hlog (by omega) hmax hm

/-- The float is the integer: its mantissa has 53 bits, the last of which counts as many as the
exponent says. -/
inductive Stands : UnpackedFloat → Int → Prop where
  | zero (s : Sign) : Stands (.zero s) 0
  | finite {s : Sign} {m : Nat} {e v : Int} (hm : 0 < m) : m.log2 = 52 → -52 ≤ e →
      s.apply (m * 2 ^ (e + 52).toNat) = v * 2 ^ 52 → Stands (.finite s m e hm) v

/-- Of two full mantissas that with the greater exponent is the greater one. -/
theorem mul_two_pow_lt {e f : Int} {m k : Nat} (hm : m.log2 = 52) (hk : k.log2 = 52) (he : -52 ≤ e)
    (h : e < f) : m * 2 ^ (e + 52).toNat < k * 2 ^ (f + 52).toNat := by
  have hk' : 2 ^ 52 ≤ k := hk ▸ Nat.log2_self_le (by rintro rfl; simp at hk)
  have hm' : m < 2 ^ 53 := by
    have := Nat.lt_log2_self (n := m)
    rwa [hm] at this
  have hexponent : 53 + (e + 52).toNat ≤ 52 + (f + 52).toNat := by omega
  calc m * 2 ^ (e + 52).toNat
      < 2 ^ 53 * 2 ^ (e + 52).toNat := Nat.mul_lt_mul_of_pos_right hm' (Nat.two_pow_pos _)
    _ = 2 ^ (53 + (e + 52).toNat) := (Nat.pow_add ..).symm
    _ ≤ 2 ^ (52 + (f + 52).toNat) := Nat.pow_le_pow_right (by decide) hexponent
    _ = 2 ^ 52 * 2 ^ (f + 52).toNat := Nat.pow_add ..
    _ ≤ k * 2 ^ (f + 52).toNat := Nat.mul_le_mul_right _ hk'

/-- Full mantissas with exponents are in the order of the numbers that they are. -/
theorem compare_then {e f : Int} {m k : Nat} (hm : m.log2 = 52) (hk : k.log2 = 52) (he : -52 ≤ e)
    (hf : -52 ≤ f) : (compare e f).then (compare m k) =
      compare (m * 2 ^ (e + 52).toNat) (k * 2 ^ (f + 52).toNat) := by
  obtain h | rfl | h := lt_trichotomy e f
  · rw [compare_lt_iff_lt.2 h, compare_lt_iff_lt.2 (mul_two_pow_lt hm hk he h)]
    rfl
  · have hpow : 0 < 2 ^ (e + 52).toNat := Nat.two_pow_pos _
    rw [compare_eq_iff_eq.2 rfl]
    show compare m k = _
    obtain h | rfl | h := lt_trichotomy m k
    · rw [compare_lt_iff_lt.2 h, compare_lt_iff_lt.2 (Nat.mul_lt_mul_of_pos_right h hpow)]
    · rw [compare_eq_iff_eq.2 rfl, compare_eq_iff_eq.2 rfl]
    · rw [compare_gt_iff_gt.2 h, compare_gt_iff_gt.2 (Nat.mul_lt_mul_of_pos_right h hpow)]
  · rw [compare_gt_iff_gt.2 h, compare_gt_iff_gt.2 (mul_two_pow_lt hk hm hf h)]
    rfl

/-- Full mantissas with exponents are in the order of the integers that they are. -/
theorem compare_then_of_mul {e f : Int} (hm : m.log2 = 52) (hk : k.log2 = 52) (he : -52 ≤ e)
    (hf : -52 ≤ f) (hv : (m * 2 ^ (e + 52).toNat : Int) = v * 2 ^ 52)
    (hw : (k * 2 ^ (f + 52).toNat : Int) = w * 2 ^ 52) :
    (compare e f).then (compare m k) = compare v w := by
  have hv' : ((m * 2 ^ (e + 52).toNat : Nat) : Int) = v * 2 ^ 52 := by exact_mod_cast hv
  have hw' : ((k * 2 ^ (f + 52).toNat : Nat) : Int) = w * 2 ^ 52 := by exact_mod_cast hw
  rw [compare_then hm hk he hf]
  generalize m * 2 ^ (e + 52).toNat = a at hv'
  generalize k * 2 ^ (f + 52).toNat = b at hw'
  obtain h | h | h := lt_trichotomy v w
  · rw [compare_lt_iff_lt.2 h, compare_lt_iff_lt.2 (by omega)]
  · rw [compare_eq_iff_eq.2 h, compare_eq_iff_eq.2 (by omega)]
  · rw [compare_gt_iff_gt.2 h, compare_gt_iff_gt.2 (by omega)]

/-- A float that is an integer has the sign of the integer. -/
theorem sign_of_mul {s : Sign} {e : Int} (hm : 0 < m)
    (hv : s.apply (m * 2 ^ (e + 52).toNat) = v * 2 ^ 52) :
    s = .positive ∧ 0 < v ∨ s = .negative ∧ v < 0 := by
  have hpow : 0 < (m : Int) * 2 ^ (e + 52).toNat := by positivity
  cases s with
  | positive => exact .inl ⟨rfl, by simp only [Sign.apply] at hv; omega⟩
  | negative => exact .inr ⟨rfl, by simp only [Sign.apply] at hv; omega⟩

/-- Floats that are integers are in the order of the integers. -/
theorem Stands.compare_eq (hx : Stands x v) (hy : Stands y w) : x.compare y = some (compare v w) := by
  cases hx with
  | zero s =>
    cases hy with
    | zero t => rfl
    | finite hpos' hk hf hw =>
      obtain ⟨rfl, h⟩ | ⟨rfl, h⟩ := sign_of_mul hpos' hw
      · exact congrArg some (compare_lt_iff_lt.2 h).symm
      · exact congrArg some (compare_gt_iff_gt.2 h).symm
  | finite hpos hm he hv =>
    cases hy with
    | zero t =>
      obtain ⟨rfl, h⟩ | ⟨rfl, h⟩ := sign_of_mul hpos hv
      · exact congrArg some (compare_gt_iff_gt.2 h).symm
      · exact congrArg some (compare_lt_iff_lt.2 h).symm
    | finite hpos' hk hf hw =>
      obtain ⟨rfl, h⟩ | ⟨rfl, h⟩ := sign_of_mul hpos hv <;>
        obtain ⟨rfl, h'⟩ | ⟨rfl, h'⟩ := sign_of_mul hpos' hw
      · exact congrArg some (compare_then_of_mul hm hk he hf hv hw)
      · exact congrArg some (compare_gt_iff_gt.2 (h'.trans h)).symm
      · exact congrArg some (compare_lt_iff_lt.2 (h.trans h')).symm
      · -- Two negative integers are in the opposite order of their absolute values.
        have hneg := compare_then_of_mul (v := -v) (w := -w) hm hk he hf
          (by simp only [Sign.apply] at hv; omega) (by simp only [Sign.apply] at hw; omega)
        show some ((compare _ _).then (compare _ _)).swap = _
        rw [hneg, swap_compare_neg]

/-- The float of a natural number of 64 bits that is not zero. -/
theorem unpack_ofNat_rounded (hn : n ≠ 0) (h : n < 2 ^ 64) :
    ∃ m e hm, (Float.ofNat n).toModel.unpack = .finite .positive m e hm ∧
      m.log2 = 52 ∧ -52 ≤ e ∧ e ≤ 971 ∧
      m * 2 ^ (e + 52).toNat = nearestMultiple (lastUnit n) n * 2 ^ 52 := by
  obtain hsmall | hwide := Nat.lt_or_ge n (2 ^ 53)
  · have hpos : 0 < n * 2 ^ (52 - n.log2) := Nat.mul_pos (by omega) (Nat.two_pow_pos _)
    have hlog := log2_le hsmall
    refine ⟨_, _, hpos, unpack_ofNat hn hsmall hpos, log2_normal hn hsmall, by omega, by omega, ?_⟩
    rw [nearestMultiple_lastUnit_of_le hsmall.le, Nat.mul_assoc, ← Nat.pow_add]
    congr 2
    omega
  · obtain ⟨m, e, hm, hunpack, hlog, hpos, hmax, hvalue⟩ := unpack_ofNat_wide hwide h
    refine ⟨m, e, hm, hunpack, hlog, by omega, hmax, ?_⟩
    rw [← hvalue, Nat.mul_assoc, ← Nat.pow_add]
    congr 2
    omega

/-- The float of an integer is the rounded integer. -/
theorem stands_ofInt (h : v.natAbs < 2 ^ 64) : Stands (Float.ofInt v).toModel.unpack (rounded v) := by
  cases v with
  | ofNat n =>
    obtain rfl | hn := eq_or_ne n 0
    · have hzero : (Float.ofInt (Int.ofNat 0)).toModel.unpack = .zero .positive := by rfl
      rw [hzero]
      exact .zero _
    obtain ⟨m, e, hm, hunpack, hlog, he, hmax, hvalue⟩ := unpack_ofNat_rounded hn h
    show Stands (Float.ofNat n).toModel.unpack _
    rw [hunpack]
    refine .finite hm hlog he ?_
    rw [Int.ofNat_eq_natCast, rounded_natCast, Sign.apply]
    exact_mod_cast hvalue
  | negSucc n =>
    obtain ⟨m, e, hm, hunpack, hlog, he, hmax, hvalue⟩ := unpack_ofNat_rounded (Nat.succ_ne_zero n) h
    have hneg : (Float.ofInt (.negSucc n)).toModel.unpack = .finite .negative m e hm := by
      show UnpackedFloat.unpack Format.binary64 (UnpackedFloat.pack Format.binary64
        (Float.ofNat (n + 1)).toModel.unpack.neg) = _
      rw [hunpack]
      exact unpack_pack .negative hlog (by omega) hmax hm
    rw [hneg]
    refine .finite hm hlog he ?_
    rw [Int.negSucc_eq, ← Int.natCast_succ, rounded_neg, rounded_natCast, Sign.apply, neg_mul]
    exact congrArg Neg.neg (by exact_mod_cast hvalue)

end Binary64

variable {a b : Int}

theorem Fits.natAbs_lt (h : Fits v) : v.natAbs < 2 ^ 64 := by
  obtain ⟨hmin, hmax⟩ := h
  rw [intMin] at hmin
  rw [intMax] at hmax
  omega

/-- Floats of integers compare as the rounded integers. -/
theorem compare_ofInt (ha : Fits a) (hb : Fits b) :
    (Float.ofInt a).toModel.unpack.compare (Float.ofInt b).toModel.unpack =
      some (compare (rounded a) (rounded b)) :=
  (Binary64.stands_ofInt ha.natAbs_lt).compare_eq (Binary64.stands_ofInt hb.natAbs_lt)

theorem beq_ofInt (ha : Fits a) (hb : Fits b) :
    (Float.ofInt a == Float.ofInt b) = decide (rounded a = rounded b) := by
  rw [Bool.eq_iff_iff, beq_iff_compare, compare_ofInt ha hb, Option.some.injEq, compare_eq_iff_eq,
    decide_eq_true_iff]

theorem lt_ofInt (ha : Fits a) (hb : Fits b) :
    Float.ofInt a < Float.ofInt b ↔ rounded a < rounded b := by
  rw [lt_iff_compare, compare_ofInt ha hb, Option.some.injEq, compare_lt_iff_lt]

theorem le_ofInt (ha : Fits a) (hb : Fits b) :
    Float.ofInt a ≤ Float.ofInt b ↔ rounded a ≤ rounded b := by
  rw [le_iff_compare, compare_ofInt ha hb, Option.any_some, Std.isLE_compare]

namespace Comparison

/-- Whether a comparison holds of two integers. -/
def decides : Comparison → Int → Int → Bool
  | eq, a, b => a = b
  | ne, a, b => a ≠ b
  | lt, a, b => a < b
  | le, a, b => a ≤ b
  | gt, a, b => b < a
  | ge, a, b => b ≤ a

/-- A comparison of integers is that of the rounded integers. -/
theorem holds_ofInt (c : Comparison) (ha : Fits a) (hb : Fits b) :
    c.holds (Float.ofInt a) (Float.ofInt b) = c.decides (rounded a) (rounded b) := by
  cases c with
  | eq => exact beq_ofInt ha hb
  | ne => rw [holds, decides, beq_ofInt ha hb, decide_not]
  | lt => exact decide_eq_decide.2 (lt_ofInt ha hb)
  | le => exact decide_eq_decide.2 (le_ofInt ha hb)
  | gt => exact decide_eq_decide.2 (lt_ofInt hb ha)
  | ge => exact decide_eq_decide.2 (le_ofInt hb ha)

theorem decides_self (c : Comparison) (a b : Int) : c.decides a a = c.decides b b := by
  cases c <;> simp [decides]

/-- A comparison outlives rounding, unless rounding makes the integers equal and the comparison tells
them from equal ones. -/
theorem decides_rounded_iff (c : Comparison) :
    c.decides (rounded a) (rounded b) = c.decides a b ↔
      (rounded a = rounded b → c.decides a b = c.decides a a) := by
  by_cases heq : rounded a = rounded b
  · rw [← heq, c.decides_self (rounded a) a]
    exact ⟨fun h _ => h.symm, fun h => (h rfl).symm⟩
  · refine iff_of_true ?_ fun h => absurd h heq
    -- Different integers are in the order of the integers that they are rounded to.
    have horder : a < b ∧ rounded a < rounded b ∨ b < a ∧ rounded b < rounded a := by
      obtain hlt | rfl | hgt := lt_trichotomy a b
      · exact .inl ⟨hlt, lt_of_le_of_ne (rounded_mono hlt.le) heq⟩
      · exact absurd rfl heq
      · exact .inr ⟨hgt, lt_of_le_of_ne (rounded_mono hgt.le) (Ne.symm heq)⟩
    cases c <;> simp only [decides, decide_eq_decide] <;> omega

end Comparison

end Scheduling
