import Mathlib
import TwoWaySql.Expr.Eval

/-!
# Integers as doubles

A condition compares integers as doubles. The double of an integer is the nearest number that is a
power of two times 53 binary digits (`nearest`); for the integers of 64 bits this is proved of the
bits of the double (`reads_ofInt`), from the rounding of a mantissa to the comparison of two
doubles. Two integers are equal as doubles if the same number is nearest to them, and are ordered
as the numbers that are nearest to them (`ofInt_beq`, `numberOrder?_ofInt`). Rounding keeps the
order but not strictly, so only integers that become equal are misjudged (`compare_nearest`). No
double is nearer than the one that is called nearest (`nearest_dist`).
-/

namespace TwoWaySql.Rounding

open Float.Model Float.Model.UnpackedFloat

/-! ## Rounding -/

/-- A number over a power of two, rounded to the nearest whole number. Of two that are equally near
the even one is taken. -/
def quotient (n s : Nat) : Nat :=
  if 2 ^ s < 2 * (n % 2 ^ s) ∨ 2 ^ s = 2 * (n % 2 ^ s) ∧ n / 2 ^ s % 2 = 1 then n / 2 ^ s + 1
  else n / 2 ^ s

/-- How many binary digits of a number a double does not hold. -/
def excess (n : Nat) : Nat := n.log2 - 52

/-- The double that is nearest to a natural number. -/
def nearestNat (n : Nat) : Nat := quotient n (excess n) * 2 ^ excess n

/-- The double that is nearest to an integer: a multiple of a power of two with a factor of 53
binary digits. -/
def nearest (i : Int) : Int := i.sign * nearestNat i.natAbs

theorem nearest_natCast (n : Nat) : nearest n = nearestNat n := by
  rcases Nat.eq_zero_or_pos n with rfl | hpos
  · rfl
  · rw [nearest, Int.sign_eq_one_of_pos (Int.natCast_pos.2 hpos), Int.one_mul, Int.natAbs_natCast]

theorem nearest_neg (i : Int) : nearest (-i) = -nearest i := by
  rw [nearest, nearest, Int.sign_neg, Int.natAbs_neg, Int.neg_mul]

theorem quotient_zero (n : Nat) : quotient n 0 = n := by
  simp [quotient, Nat.mod_one]

theorem quotient_mul (n s k : Nat) : quotient (n * 2 ^ k) (s + k) = quotient n s := by
  have hpow : 2 ^ (s + k) = 2 ^ s * 2 ^ k := Nat.pow_add 2 s k
  have hpos : 0 < 2 ^ k := Nat.two_pow_pos k
  have hdiv : n * 2 ^ k / (2 ^ s * 2 ^ k) = n / 2 ^ s := Nat.mul_div_mul_right _ _ hpos
  have hmod : n * 2 ^ k % (2 ^ s * 2 ^ k) = n % 2 ^ s * 2 ^ k := Nat.mul_mod_mul_right _ _ _
  have hlt : 2 ^ s * 2 ^ k < 2 * (n % 2 ^ s * 2 ^ k) ↔ 2 ^ s < 2 * (n % 2 ^ s) := by
    rw [← Nat.mul_assoc]
    exact Nat.mul_lt_mul_right hpos
  have heq : 2 ^ s * 2 ^ k = 2 * (n % 2 ^ s * 2 ^ k) ↔ 2 ^ s = 2 * (n % 2 ^ s) := by
    rw [← Nat.mul_assoc]
    exact Nat.mul_left_inj (Nat.ne_of_gt hpos)
  simp only [quotient, hpow, hdiv, hmod, hlt, heq]

theorem quotient_mono {n m : Nat} (h : n ≤ m) (s : Nat) : quotient n s ≤ quotient m s := by
  have hdiv : n / 2 ^ s ≤ m / 2 ^ s := Nat.div_le_div_right h
  have hn := Nat.div_add_mod n (2 ^ s)
  have hm := Nat.div_add_mod m (2 ^ s)
  unfold quotient
  by_cases hq : n / 2 ^ s = m / 2 ^ s
  · have hmod : n % 2 ^ s ≤ m % 2 ^ s := by
      rw [hq] at hn
      omega
    rw [hq]
    split <;> split <;> omega
  · split <;> split <;> omega

theorem le_quotient (n s : Nat) : n / 2 ^ s ≤ quotient n s := by
  unfold quotient
  split <;> omega

theorem quotient_le (n s : Nat) : quotient n s ≤ n / 2 ^ s + 1 := by
  unfold quotient
  split <;> omega

/-! ## The leading digits -/

/-- The digits that a double holds are as many as it can hold. -/
theorem quotient_bounds {n : Nat} (h : 52 ≤ n.log2) :
    2 ^ 52 ≤ quotient n (excess n) ∧ quotient n (excess n) ≤ 2 ^ 53 := by
  have hn : n ≠ 0 := by
    rintro rfl
    simp at h
  have hpow : 2 ^ n.log2 = 2 ^ 52 * 2 ^ excess n := by
    rw [← Nat.pow_add, excess, Nat.add_sub_cancel' h]
  have hlow : 2 ^ 52 ≤ n / 2 ^ excess n := by
    rw [Nat.le_div_iff_mul_le (Nat.two_pow_pos _), ← hpow]
    exact Nat.log2_self_le hn
  have hhigh : n / 2 ^ excess n < 2 ^ 53 := by
    rw [Nat.div_lt_iff_lt_mul (Nat.two_pow_pos _)]
    have hlt : n < 2 ^ (n.log2 + 1) := Nat.lt_log2_self
    rw [Nat.pow_succ, hpow] at hlt
    omega
  have hle := le_quotient n (excess n)
  have hge := quotient_le n (excess n)
  omega

theorem excess_of_lt {n : Nat} (h : n < 2 ^ 53) : excess n = 0 := by
  have hlog : n.log2 ≤ 52 := by
    rcases Nat.eq_zero_or_pos n with rfl | hpos
    · simp
    · have := (Nat.log2_lt (Nat.ne_of_gt hpos)).2 h
      omega
  unfold excess
  omega

theorem nearestNat_of_lt {n : Nat} (h : n < 2 ^ 53) : nearestNat n = n := by
  rw [nearestNat, excess_of_lt h, quotient_zero, Nat.pow_zero, Nat.mul_one]

/-- What is nearest to a number lies between the same powers of two. -/
theorem nearestNat_bounds {n : Nat} (h : n ≠ 0) :
    2 ^ n.log2 ≤ nearestNat n ∧ nearestNat n ≤ 2 ^ (n.log2 + 1) := by
  by_cases hlog : 52 ≤ n.log2
  · obtain ⟨hlow, hhigh⟩ := quotient_bounds hlog
    have hpow : 2 ^ n.log2 = 2 ^ 52 * 2 ^ excess n := by
      rw [← Nat.pow_add, excess, Nat.add_sub_cancel' hlog]
    have hsucc : 2 ^ (n.log2 + 1) = 2 ^ 53 * 2 ^ excess n := by
      rw [Nat.pow_succ, hpow]
      omega
    rw [hpow, hsucc]
    exact ⟨Nat.mul_le_mul_right _ hlow, Nat.mul_le_mul_right _ hhigh⟩
  · have hlt : n < 2 ^ 53 := Nat.lt_log2_self.trans_le (Nat.pow_le_pow_right (by omega) (by omega))
    rw [nearestNat_of_lt hlt]
    exact ⟨Nat.log2_self_le h, Nat.lt_log2_self.le⟩

theorem nearestNat_mono {n m : Nat} (h : n ≤ m) : nearestNat n ≤ nearestNat m := by
  rcases Nat.eq_zero_or_pos n with rfl | hn
  · exact Nat.zero_le _
  have hn : n ≠ 0 := Nat.ne_of_gt hn
  have hm : m ≠ 0 := by omega
  have hlog : n.log2 ≤ m.log2 := by
    rw [Nat.le_log2 hm]
    exact (Nat.log2_self_le hn).trans h
  rcases Nat.eq_or_lt_of_le hlog with heq | hlt
  · have hexcess : excess n = excess m := by rw [excess, excess, heq]
    rw [nearestNat, nearestNat, hexcess]
    exact Nat.mul_le_mul_right _ (quotient_mono h _)
  · calc
      nearestNat n ≤ 2 ^ (n.log2 + 1) := (nearestNat_bounds hn).2
      _ ≤ 2 ^ m.log2 := Nat.pow_le_pow_right (by omega) hlt
      _ ≤ nearestNat m := (nearestNat_bounds hm).1

/-! ## Mantissas -/

/-- The bits behind a mantissa that is shifted are those that it loses. -/
theorem shiftRight_exact (m s : Nat) :
    ExtendedMantissa.ofMantissaAndAccuracy m .exact >>> (s + 1) =
      ⟨m / 2 ^ (s + 1), m / 2 ^ s % 2 != 0, m % 2 ^ s != 0⟩ := by
  induction s with
  | zero => simp [HShiftRight.hShiftRight, Nat.repeat, ExtendedMantissa.shiftRightOne,
      ExtendedMantissa.ofMantissaAndAccuracy, Nat.mod_one]
  | succ s ih =>
    have hdiv : m / 2 ^ (s + 1) / 2 = m / 2 ^ (s + 1 + 1) := by
      rw [Nat.div_div_eq_div_mul, ← Nat.pow_succ]
    have hmod : m % 2 ^ (s + 1) = m % 2 ^ s + 2 ^ s * (m / 2 ^ s % 2) := Nat.mod_pow_succ
    have hpos : 0 < 2 ^ s := Nat.two_pow_pos s
    have hsticky : (m / 2 ^ s % 2 != 0 || m % 2 ^ s != 0) = (m % 2 ^ (s + 1) != 0) := by
      rw [hmod, Bool.eq_iff_iff]
      simp only [Bool.or_eq_true, bne_iff_ne, ne_eq, Nat.add_eq_zero_iff, Nat.mul_eq_zero]
      omega
    show ExtendedMantissa.shiftRightOne
      (ExtendedMantissa.ofMantissaAndAccuracy m .exact >>> (s + 1)) = _
    rw [ih, ExtendedMantissa.shiftRightOne, hdiv, hsticky]

/-- A mantissa that is shifted is rounded to the nearest. -/
theorem roundedMantissa_shiftRight (m s : Nat) :
    (ExtendedMantissa.ofMantissaAndAccuracy m .exact >>> s).roundedMantissa = quotient m s := by
  cases s with
  | zero => rw [quotient_zero]; rfl
  | succ s =>
    have hmod : m % 2 ^ (s + 1) = m % 2 ^ s + 2 ^ s * (m / 2 ^ s % 2) := Nat.mod_pow_succ
    have hlt : m % 2 ^ s < 2 ^ s := Nat.mod_lt m (Nat.two_pow_pos s)
    have hpow : 2 ^ (s + 1) = 2 * 2 ^ s := Nat.pow_succ'
    rw [shiftRight_exact, quotient, hmod, hpow]
    generalize m / (2 * 2 ^ s) = q
    rcases Nat.mod_two_eq_zero_or_one (m / 2 ^ s) with hround | hround
    · -- less than half of the last digit is lost
      have hdown :
          ExtendedMantissa.roundedMantissa ⟨q, m / 2 ^ s % 2 != 0, m % 2 ^ s != 0⟩ = q := by
        rw [hround]
        cases m % 2 ^ s != 0 <;> rfl
      rw [hdown, hround, if_neg]
      omega
    · rcases Nat.eq_zero_or_pos (m % 2 ^ s) with hsticky | hsticky
      · have htie : ExtendedMantissa.roundedMantissa ⟨q, m / 2 ^ s % 2 != 0, m % 2 ^ s != 0⟩ =
            q + q % 2 := by
          rw [hround, hsticky]
          rfl
        rw [htie, hround, hsticky]
        split <;> omega
      · have hup : ExtendedMantissa.roundedMantissa ⟨q, m / 2 ^ s % 2 != 0, m % 2 ^ s != 0⟩ =
            q + 1 := by
          have hne : (m % 2 ^ s != 0) = true := by simpa using Nat.ne_of_gt hsticky
          rw [hround, hne]
          rfl
        rw [hup, hround, if_pos]
        omega

/-- How far a mantissa is shifted to have as many digits as a double holds. -/
theorem shiftToTargetExponent_eq {m : Nat} {e : Int} (he : -1074 ≤ e + excess m) :
    shiftToTargetExponent .binary64 m e .exact =
      (ExtendedMantissa.ofMantissaAndAccuracy m .exact >>> excess m, e + excess m) := by
  have htarget : Format.binary64.targetExponent (totalExponent m e) =
      max (m.log2 + 1 + e - 53) (-1074) := rfl
  have hshift : (Format.binary64.targetExponent (totalExponent m e) - e).toNat = excess m := by
    rw [htarget]
    unfold excess at he ⊢
    omega
  rw [shiftToTargetExponent, shiftToExponent, hshift]

/-! ## Doubles of natural numbers -/

/-- A double stands for a natural number, which is its mantissa times a power of two. The mantissa
has all 53 digits. -/
def StandsFor (x : UnpackedFloat) (s : Sign) (v : Nat) : Prop :=
  ∃ m e, ∃ hm : 0 < m, x = .finite s m e hm ∧ 2 ^ 52 ≤ m ∧ m < 2 ^ 53 ∧ -52 ≤ e ∧
    m * 2 ^ (e + 52).toNat = v * 2 ^ 52

/-- Rounding carries at most one digit. -/
theorem carry {q : Nat} {e : Int} (hmin : 2 ^ 52 ≤ q) (hmax : q ≤ 2 ^ 53) (he : -52 ≤ e) :
    ∃ m k : Nat, (shiftToTargetExponent .binary64 q e .exact).1.mantissa = m ∧
      (shiftToTargetExponent .binary64 q e .exact).2 = e + k ∧
      2 ^ 52 ≤ m ∧ m < 2 ^ 53 ∧ k ≤ 1 ∧ m * 2 ^ k = q := by
  rw [shiftToTargetExponent_eq (by omega)]
  rcases Nat.lt_or_eq_of_le hmax with hlt | rfl
  · rw [excess_of_lt hlt]
    exact ⟨q, 0, rfl, rfl, hmin, hlt, by omega, by omega⟩
  · -- rounded up, a mantissa of ones has one digit more
    have hexcess : excess (2 ^ 53) = 1 := by decide
    rw [hexcess]
    exact ⟨2 ^ 52, 1, rfl, rfl, by omega, by omega, by omega, by omega⟩

/-- Rounding leaves a mantissa with all digits. -/
theorem standsFor_roundWithAccuracy {m v : Nat} {e : Int} (s : Sign) (hm : 52 ≤ m.log2)
    (hlow : -52 ≤ e + excess m)
    (hv : quotient m (excess m) * 2 ^ (e + excess m + 52).toNat = v * 2 ^ 52) :
    StandsFor (roundWithAccuracy .binary64 s m e .exact) s v := by
  obtain ⟨hmin, hmax⟩ := quotient_bounds hm
  obtain ⟨q, k, hmantissa, hexponent, hq, hq', hk, hcarry⟩ := carry hmin hmax hlow
  unfold roundWithAccuracy
  rw [shiftToTargetExponent_eq (by omega)]
  simp only [roundedMantissa_shiftRight, hmantissa, hexponent]
  rw [dif_neg (by omega)]
  refine ⟨q, e + excess m + k, _, rfl, hq, hq', by omega, ?_⟩
  have hshift : (e + excess m + k + 52).toNat = k + (e + excess m + 52).toNat := by omega
  rw [hshift, Nat.pow_add, ← Nat.mul_assoc, hcarry, hv]

/-! ## Packing -/

theorem toNat_one_append {m : Nat} (hmin : 2 ^ 52 ≤ m) (hmax : m < 2 ^ 53) :
    (1#1 ++ BitVec.ofNat 52 m).toNat = m := by
  have hlt : m % 2 ^ 52 < 2 ^ 52 := Nat.mod_lt m (by decide)
  rw [BitVec.toNat_append]
  show 1 <<< 52 ||| m % 2 ^ 52 = m
  rw [← Nat.shiftLeft_add_eq_or_of_lt hlt]
  omega

/-- A double that stands for a number is packed without loss, if the number is not too large. -/
theorem StandsFor.unpack_pack {x : UnpackedFloat} {s : Sign} {v : Nat} (h : StandsFor x s v)
    (hbound : v < 2 ^ 100) : (Float.Model.pack x).unpack = x := by
  obtain ⟨m, e, hm, rfl, hmin, hmax, hlow, hv⟩ := h
  have hhigh : (e + 52).toNat < 100 := by
    have hle : 2 ^ 52 * 2 ^ (e + 52).toNat ≤ v * 2 ^ 52 := hv ▸ Nat.mul_le_mul_right _ hmin
    have hpow : 2 ^ (e + 52).toNat < 2 ^ 100 := by omega
    exact (Nat.pow_lt_pow_iff_right (by decide)).1 hpow
  have hlog : m.log2 = 52 := (Nat.log2_eq_iff (by omega)).2 ⟨hmin, hmax⟩
  have hbias : Format.binary64.exponentBias = 1023 := rfl
  have hpack : UnpackedFloat.pack .binary64 (.finite s m e hm) =
      packComponents .binary64 s (BitVec.ofNat _ (e + 1023 + 52).toNat) (BitVec.ofNat _ m) := by
    unfold UnpackedFloat.pack
    simp only [hbias, hlog]
    rw [if_neg, if_pos]
    · rfl
    · rfl
    · show ¬ 2 ^ 11 ≤ _
      omega
  -- neither a special exponent nor that of zero
  have hones : BitVec.ofNat 11 (e + 1023 + 52).toNat ≠ -1#11 := by
    intro heq
    have hnat := congrArg BitVec.toNat heq
    simp at hnat
    omega
  have hzero : BitVec.ofNat 11 (e + 1023 + 52).toNat ≠ 0#11 := by
    intro heq
    have hnat := congrArg BitVec.toNat heq
    simp at hnat
    omega
  have hexponent : ((BitVec.ofNat 11 (e + 1023 + 52).toNat).toNat : Int) - (1023 + 52) = e := by
    simp
    omega
  have hmantissa := toNat_one_append hmin hmax
  show UnpackedFloat.unpack .binary64 (UnpackedFloat.pack .binary64 (.finite s m e hm)) = _
  rw [hpack]
  unfold UnpackedFloat.unpack
  simp only [unpackMantissa_packComponents, unpackExponent_packComponents,
    unpackSign_packComponents, Sign.ofBitVec_toBitVec]
  rw [if_neg hones, if_neg hzero]
  congr 1

/-! ## Integers -/

theorem log2_mul_pow {n : Nat} (h : n ≠ 0) (k : Nat) : (n * 2 ^ k).log2 = n.log2 + k := by
  have hpos : 0 < 2 ^ k := Nat.two_pow_pos k
  rw [Nat.log2_eq_iff (Nat.mul_ne_zero h (Nat.ne_of_gt hpos))]
  have hlt : n < 2 ^ (n.log2 + 1) := Nat.lt_log2_self
  constructor
  · rw [Nat.pow_add]
    exact Nat.mul_le_mul_right _ (Nat.log2_self_le h)
  · have hpow : 2 ^ (n.log2 + k + 1) = 2 ^ (n.log2 + 1) * 2 ^ k := by
      rw [← Nat.pow_add]
      congr 1
      omega
    rw [hpow]
    exact Nat.mul_lt_mul_of_pos_right hlt hpos

theorem excess_mul_pow {n : Nat} (h : n ≠ 0) (k : Nat) :
    excess (n * 2 ^ k) = n.log2 + k - 52 := by
  rw [excess, log2_mul_pow h]

/-- Times one, a double stands for the same number. -/
theorem StandsFor.mul_one {x : UnpackedFloat} {v : Nat} (h : StandsFor x .positive v)
    (hone : 0 < 2 ^ 52) :
    StandsFor (UnpackedFloat.mul .binary64 x (.finite .positive (2 ^ 52) (-52) hone)) .positive
      v := by
  obtain ⟨m, e, hm, rfl, hmin, hmax, hlow, hv⟩ := h
  have hlog : m.log2 = 52 := (Nat.log2_eq_iff (by omega)).2 ⟨hmin, hmax⟩
  have hexcess : excess (m * 2 ^ 52) = 52 := by rw [excess_mul_pow (by omega), hlog]
  have hquotient : quotient (m * 2 ^ 52) 52 = m := by
    have hmul := quotient_mul m 0 52
    rwa [Nat.zero_add, quotient_zero] at hmul
  refine standsFor_roundWithAccuracy .positive ?_ ?_ ?_
  · rw [log2_mul_pow (by omega)]
    omega
  · rw [hexcess]
    omega
  · have hsame : e + -52 + ((52 : Nat) : Int) = e := by omega
    rw [hexcess, hquotient, hsame, hv]

/-- A small number is its own double. -/
theorem standsFor_ofNat {n : Nat} (hpos : 0 < n) (h : n < 2 ^ 53) :
    StandsFor (UnpackedFloat.ofNat .binary64 n) .positive n := by
  have hlog : n.log2 ≤ 52 := by
    have := (Nat.log2_lt (Nat.ne_of_gt hpos)).2 h
    omega
  have htarget : Format.binary64.targetExponent (totalExponent n 0) =
      max ((n.log2 : Int) + 1 + 0 - 53) (-1074) := rfl
  have hshift : (0 - Format.binary64.targetExponent (totalExponent n 0)).toNat = 52 - n.log2 := by
    rw [htarget]
    omega
  have hround : UnpackedFloat.ofNat .binary64 n = roundWithAccuracy .binary64 .positive
      (n * 2 ^ (52 - n.log2)) (-((52 - n.log2 : Nat) : Int)) .exact := by
    have hgt : compare (n : Int) 0 = .gt := Int.compare_eq_gt.2 (by omega)
    show UnpackedFloat.normalize .binary64 (n : Int) 0 .positive = _
    rw [UnpackedFloat.normalize, hgt]
    show UnpackedFloat.round .binary64 .positive n 0 = _
    rw [UnpackedFloat.round, decreaseExponent, hshift, Nat.shiftLeft_eq, Int.zero_sub]
  rw [hround]
  refine standsFor_roundWithAccuracy .positive ?_ ?_ ?_
  · rw [log2_mul_pow (Nat.ne_of_gt hpos)]
    omega
  · rw [excess_mul_pow (Nat.ne_of_gt hpos)]
    omega
  · have hexcess : excess (n * 2 ^ (52 - n.log2)) = 0 := by
      rw [excess_mul_pow (Nat.ne_of_gt hpos)]
      omega
    have hexponent : (-((52 - n.log2 : Nat) : Int) + ((0 : Nat) : Int) + 52).toNat = n.log2 := by
      omega
    rw [hexcess, quotient_zero, hexponent, Nat.mul_assoc, ← Nat.pow_add, Nat.sub_add_cancel hlog]

/-- A large number is rounded once. -/
theorem standsFor_ofScientific {n : Nat} (h : 2 ^ 53 ≤ n) :
    StandsFor (UnpackedFloat.ofScientific .binary64 n 0) .positive (nearestNat n) := by
  have hn : n ≠ 0 := by omega
  have hlog : 53 ≤ n.log2 := (Nat.le_log2 hn).2 h
  have hround : UnpackedFloat.ofScientific .binary64 n 0 =
      roundWithAccuracy .binary64 .positive (n * 2 ^ 53) (-53) .exact := by
    have hlarge : ¬ (0 : Int) > 2 ^ Format.binary64.exponentBits := by decide
    have hsmall : ¬ (0 : Int) < -((2 ^ Format.binary64.exponentBits : Int) + n.log2) := by
      show ¬ (0 : Int) < -((2 ^ 11 : Int) + n.log2)
      omega
    rw [UnpackedFloat.ofScientific, dif_neg hn, if_neg hlarge, if_neg hsmall, if_pos (by decide)]
    show roundWithAccuracy .binary64 .positive (n <<< 53 * 1) (-53 + 0) .exact = _
    rw [Nat.shiftLeft_eq, Nat.mul_one, Int.add_zero]
  have hexcess : excess (n * 2 ^ 53) = excess n + 53 := by
    rw [excess_mul_pow hn, excess]
    omega
  rw [hround]
  refine standsFor_roundWithAccuracy .positive ?_ ?_ ?_
  · rw [log2_mul_pow hn]
    omega
  · rw [hexcess]
    omega
  · have hexponent : (-53 + ((excess n + 53 : Nat) : Int) + 52).toNat = excess n + 52 := by omega
    rw [hexcess, quotient_mul, hexponent, Nat.pow_add, ← Nat.mul_assoc, nearestNat]

theorem nearestNat_lt {n : Nat} (h : n < 2 ^ 64) : nearestNat n < 2 ^ 100 := by
  rcases Nat.eq_zero_or_pos n with rfl | hpos
  · decide
  · have hn : n ≠ 0 := Nat.ne_of_gt hpos
    have hlog : n.log2 < 64 := (Nat.log2_lt hn).2 h
    calc
      nearestNat n ≤ 2 ^ (n.log2 + 1) := (nearestNat_bounds hn).2
      _ ≤ 2 ^ 64 := Nat.pow_le_pow_right (by decide) hlog
      _ < 2 ^ 100 := by decide

/-- The double of a natural number stands for what is nearest to it. -/
theorem standsFor_float_ofNat {n : Nat} (hpos : 0 < n) (h : n < 2 ^ 64) :
    StandsFor (Float.ofNat n).toModel.unpack .positive (nearestNat n) := by
  rcases Nat.lt_or_ge n (2 ^ 53) with hsmall | hlarge
  · -- a number that fits into a mantissa is multiplied by ten to the power of zero
    have hfloat : Float.ofNat n =
        .ofModel (.mul (.pack (UnpackedFloat.ofNat .binary64 n)) (.ofBits 0x3FF0000000000000)) := by
      show Float.ofScientific n false 0 = _
      have hword : n.toUInt64.toNat = n := Nat.mod_eq_of_lt h
      rw [Float.ofScientific, dif_pos ⟨hsmall, by decide⟩, if_neg Bool.false_ne_true]
      show Float.ofModel (.mul (.pack (UnpackedFloat.ofNat .binary64 n.toUInt64.toNat)) _) = _
      rw [hword]
      rfl
    have hone : (Float.Model.ofBits 0x3FF0000000000000).unpack =
        .finite .positive (2 ^ 52) (-52) (by decide) := rfl
    have hbound : n < 2 ^ 100 := by omega
    have hn := standsFor_ofNat hpos hsmall
    rw [nearestNat_of_lt hsmall, hfloat]
    show StandsFor (Float.Model.pack (UnpackedFloat.mul .binary64
      (Float.Model.pack (UnpackedFloat.ofNat .binary64 n)).unpack
      (Float.Model.ofBits 0x3FF0000000000000).unpack)).unpack _ _
    rw [hn.unpack_pack hbound, hone, (hn.mul_one _).unpack_pack hbound]
    exact hn.mul_one _
  · have hfloat : Float.ofNat n = .ofModel (.ofScientific n 0) := by
      show Float.ofScientific n false 0 = _
      rw [Float.ofScientific, dif_neg (by omega)]
      rfl
    have hn := standsFor_ofScientific hlarge
    rw [hfloat]
    show StandsFor (Float.Model.pack (UnpackedFloat.ofScientific .binary64 n 0)).unpack _ _
    rwa [hn.unpack_pack (nearestNat_lt h)]

/-! ## Comparison -/

/-- The number that a double stands for is not zero. -/
theorem StandsFor.pos {x : UnpackedFloat} {s : Sign} {v : Nat} (h : StandsFor x s v) : 0 < v := by
  obtain ⟨m, e, hm, rfl, -, -, -, hv⟩ := h
  have hpos : 0 < m * 2 ^ (e + 52).toNat := Nat.mul_pos hm (Nat.two_pow_pos _)
  omega

theorem StandsFor.neg {x : UnpackedFloat} {v : Nat} (h : StandsFor x .positive v) :
    StandsFor x.neg .negative v := by
  obtain ⟨m, e, hm, rfl, hmin, hmax, hlow, hv⟩ := h
  exact ⟨m, e, hm, rfl, hmin, hmax, hlow, hv⟩

/-- Of two full mantissas the one with the greater exponent is the greater number. -/
theorem lt_of_exponent_lt {m n v w : Nat} {e f : Int} (hm : m < 2 ^ 53) (hn : 2 ^ 52 ≤ n)
    (he : -52 ≤ e) (hv : m * 2 ^ (e + 52).toNat = v * 2 ^ 52)
    (hw : n * 2 ^ (f + 52).toNat = w * 2 ^ 52) (h : e < f) : v < w := by
  have hpow : 2 ^ (e + 52).toNat * 2 ≤ 2 ^ (f + 52).toNat := by
    rw [← Nat.pow_succ]
    exact Nat.pow_le_pow_right (by decide) (by omega)
  have hlt : m * 2 ^ (e + 52).toNat < n * 2 ^ (f + 52).toNat := calc
    m * 2 ^ (e + 52).toNat < 2 ^ 53 * 2 ^ (e + 52).toNat :=
      Nat.mul_lt_mul_of_pos_right hm (Nat.two_pow_pos _)
    _ = 2 ^ 52 * (2 ^ (e + 52).toNat * 2) := by omega
    _ ≤ n * 2 ^ (f + 52).toNat := Nat.mul_le_mul hn hpow
  omega

/-- Full mantissas are ordered by their exponents first. -/
theorem compare_mantissas {m n v w : Nat} {e f : Int} (hmin : 2 ^ 52 ≤ m) (hmax : m < 2 ^ 53)
    (hmin' : 2 ^ 52 ≤ n) (hmax' : n < 2 ^ 53) (he : -52 ≤ e) (hf : -52 ≤ f)
    (hv : m * 2 ^ (e + 52).toNat = v * 2 ^ 52) (hw : n * 2 ^ (f + 52).toNat = w * 2 ^ 52) :
    (compare e f).then (compare m n) = compare v w := by
  rcases Int.lt_trichotomy e f with hlt | rfl | hgt
  · have h := lt_of_exponent_lt hmax hmin' he hv hw hlt
    rw [Int.compare_eq_lt.2 hlt, Nat.compare_eq_lt.2 h]
    rfl
  · have hmul (a b : Nat) : a * 2 ^ 52 < b * 2 ^ 52 ↔ a < b := by omega
    have hpos : 0 < 2 ^ (e + 52).toNat := Nat.two_pow_pos _
    have hlt : m < n ↔ v < w := by
      rw [← Nat.mul_lt_mul_right hpos, hv, hw, hmul]
    have hgt : n < m ↔ w < v := by
      rw [← Nat.mul_lt_mul_right hpos, hv, hw, hmul]
    rw [Int.compare_eq_eq.2 rfl]
    show compare m n = compare v w
    rw [Nat.compare_eq_ite_lt, Nat.compare_eq_ite_lt]
    simp only [hlt, hgt]
  · have h := lt_of_exponent_lt hmax' hmin hf hw hv hgt
    rw [Int.compare_eq_gt.2 hgt, Nat.compare_eq_gt.2 h]
    rfl

theorem compare_natCast (v w : Nat) : compare (v : Int) w = compare v w := by
  rw [Int.compare_eq_ite_lt, Nat.compare_eq_ite_lt]
  simp only [Int.ofNat_lt]

theorem compare_neg_natCast (v w : Nat) :
    compare (-(v : Int)) (-(w : Int)) = (compare v w).swap := by
  rw [Nat.compare_swap, Int.compare_eq_ite_lt, Nat.compare_eq_ite_lt]
  simp only [Int.neg_lt_neg_iff, Int.ofNat_lt]

/-- A double is an integer. -/
inductive Reads : UnpackedFloat → Int → Prop where
  | zero (s : Sign) : Reads (.zero s) 0
  | positive {x : UnpackedFloat} {v : Nat} (h : StandsFor x .positive v) : Reads x v
  | negative {x : UnpackedFloat} {v : Nat} (h : StandsFor x .negative v) : Reads x (-v)

/-- Doubles that are integers are ordered as these are. -/
theorem Reads.compare_eq {x y : UnpackedFloat} {i j : Int} (hx : Reads x i) (hy : Reads y j) :
    x.compare y = some (compare i j) := by
  cases hx with
  | zero s =>
    cases hy with
    | zero t => simp [UnpackedFloat.compare]
    | @positive _ w h =>
      have hpos := h.pos
      obtain ⟨n, f, hn, rfl, -, -, -, -⟩ := h
      exact congrArg some (Int.compare_eq_lt.2 (by omega)).symm
    | @negative _ w h =>
      have hpos := h.pos
      obtain ⟨n, f, hn, rfl, -, -, -, -⟩ := h
      exact congrArg some (Int.compare_eq_gt.2 (by omega)).symm
  | @positive _ v h =>
    have hpos := h.pos
    obtain ⟨m, e, hm, rfl, hmin, hmax, he, hv⟩ := h
    cases hy with
    | zero t => exact congrArg some (Int.compare_eq_gt.2 (by omega)).symm
    | @positive _ w h =>
      obtain ⟨n, f, hn, rfl, hmin', hmax', hf, hw⟩ := h
      rw [compare_natCast, ← compare_mantissas hmin hmax hmin' hmax' he hf hv hw]
      rfl
    | @negative _ w h =>
      obtain ⟨n, f, hn, rfl, -, -, -, -⟩ := h
      exact congrArg some (Int.compare_eq_gt.2 (by omega)).symm
  | @negative _ v h =>
    have hpos := h.pos
    obtain ⟨m, e, hm, rfl, hmin, hmax, he, hv⟩ := h
    cases hy with
    | zero t => exact congrArg some (Int.compare_eq_lt.2 (by omega)).symm
    | @positive _ w h =>
      obtain ⟨n, f, hn, rfl, -, -, -, -⟩ := h
      exact congrArg some (Int.compare_eq_lt.2 (by omega)).symm
    | @negative _ w h =>
      obtain ⟨n, f, hn, rfl, hmin', hmax', hf, hw⟩ := h
      rw [compare_neg_natCast, ← compare_mantissas hmin hmax hmin' hmax' he hf hv hw]
      rfl

/-- The double of an integer is what is nearest to it. -/
theorem reads_ofInt {i : Int} (h : i.natAbs < 2 ^ 64) :
    Reads (Float.ofInt i).toModel.unpack (nearest i) := by
  cases i with
  | ofNat n =>
    rcases Nat.eq_zero_or_pos n with rfl | hpos
    · exact .zero .positive
    · rw [Int.ofNat_eq_natCast, nearest_natCast]
      exact .positive (standsFor_float_ofNat hpos h)
  | negSucc n =>
    have hn := standsFor_float_ofNat (Nat.succ_pos n) h
    have hpack : (Float.ofInt (.negSucc n)).toModel.unpack =
        (Float.ofNat n.succ).toModel.unpack.neg := hn.neg.unpack_pack (nearestNat_lt h)
    rw [hpack, Int.negSucc_eq, ← Int.natCast_succ, nearest_neg, nearest_natCast]
    exact .negative hn.neg

/-- Integers are equal as doubles if the same double is nearest to them. -/
theorem ofInt_beq {i j : Int} (hi : i.natAbs < 2 ^ 64) (hj : j.natAbs < 2 ^ 64) :
    (Float.ofInt i == Float.ofInt j) = (nearest i == nearest j) := by
  have hcompare := (reads_ofInt hi).compare_eq (reads_ofInt hj)
  show ((Float.ofInt i).toModel.unpack.compare (Float.ofInt j).toModel.unpack == some .eq) = _
  rw [hcompare, Bool.eq_iff_iff]
  simp

theorem float_lt_iff (x y : Float) :
    x < y ↔ x.toModel.unpack.compare y.toModel.unpack = some .lt := by
  show decide (x.toModel < y.toModel) = true ↔ _
  rw [decide_eq_true_iff]
  show (x.toModel.unpack.compare y.toModel.unpack == some .lt) = true ↔ _
  rw [beq_iff_eq]

/-- Integers are ordered as what is nearest to them. -/
theorem numberOrder?_ofInt {i j : Int} (hi : i.natAbs < 2 ^ 64) (hj : j.natAbs < 2 ^ 64) :
    Value.numberOrder? (Float.ofInt i) (Float.ofInt j) =
      some (compare (nearest i) (nearest j)) := by
  have hlt : Float.ofInt i < Float.ofInt j ↔ nearest i < nearest j := by
    rw [float_lt_iff, (reads_ofInt hi).compare_eq (reads_ofInt hj)]
    simp [Int.compare_eq_lt]
  have hgt : Float.ofInt j < Float.ofInt i ↔ nearest j < nearest i := by
    rw [float_lt_iff, (reads_ofInt hj).compare_eq (reads_ofInt hi)]
    simp [Int.compare_eq_lt]
  rw [Value.numberOrder?, ofInt_beq hi hj, Int.compare_eq_ite_lt]
  simp only [hlt, hgt, beq_iff_eq]
  split
  · rfl
  · split
    · split
      · omega
      · rfl
    · rw [if_pos (by omega), if_pos (by omega)]

/-! ## What is nearest -/

/-- Of all multiples of a power of two the quotient gives the nearest. -/
theorem quotient_dist (n s q : Nat) :
    ((quotient n s * 2 ^ s : Nat) - n : Int).natAbs ≤ ((q * 2 ^ s : Nat) - n : Int).natAbs := by
  have hdiv := Nat.div_add_mod n (2 ^ s)
  have hlt : n % 2 ^ s < 2 ^ s := Nat.mod_lt n (Nat.two_pow_pos s)
  rw [Nat.mul_comm] at hdiv
  have hsucc : (n / 2 ^ s + 1) * 2 ^ s = n / 2 ^ s * 2 ^ s + 2 ^ s := Nat.succ_mul _ _
  rcases Nat.lt_or_ge (n / 2 ^ s) q with hq | hq
  · have hle : (n / 2 ^ s + 1) * 2 ^ s ≤ q * 2 ^ s := Nat.mul_le_mul_right _ hq
    unfold quotient
    split <;> omega
  · have hle : q * 2 ^ s ≤ n / 2 ^ s * 2 ^ s := Nat.mul_le_mul_right _ hq
    unfold quotient
    split <;> omega

/-- No number that is a power of two times 53 binary digits is nearer. -/
theorem nearestNat_dist (n q k : Nat) (hq : q < 2 ^ 53) :
    (nearestNat n - n : Int).natAbs ≤ ((q * 2 ^ k : Nat) - n : Int).natAbs := by
  rcases Nat.le_total (excess n) k with hk | hk
  · have hpow : q * 2 ^ k = q * 2 ^ (k - excess n) * 2 ^ excess n := by
      rw [Nat.mul_assoc, ← Nat.pow_add, Nat.sub_add_cancel hk]
    rw [hpow]
    exact quotient_dist n (excess n) _
  · rcases Nat.eq_or_lt_of_le hk with rfl | hlt
    · exact quotient_dist n (excess n) q
    · -- a smaller power of two leaves a number below the leading digit of the given one
      have hlog : n.log2 = 52 + excess n := by
        unfold excess at hlt ⊢
        omega
      have hn : n ≠ 0 := by
        rintro rfl
        rw [Nat.log2_zero] at hlog
        omega
      have hlead := Nat.log2_self_le hn
      rw [hlog, Nat.pow_add] at hlead
      have hbelow : q * 2 ^ k ≤ 2 ^ 52 * 2 ^ excess n := calc
        q * 2 ^ k ≤ 2 ^ 53 * 2 ^ k := Nat.mul_le_mul_right _ hq.le
        _ = 2 ^ 52 * 2 ^ (k + 1) := by omega
        _ ≤ 2 ^ 52 * 2 ^ excess n :=
          Nat.mul_le_mul_left _ (Nat.pow_le_pow_right (by decide) hlt)
      have hdist := quotient_dist n (excess n) (2 ^ 52)
      rw [nearestNat]
      omega

/-- No double is nearer to an integer than the one that is called nearest to it. -/
theorem nearest_dist (i q : Int) (k : Nat) (hq : q.natAbs < 2 ^ 53) :
    (nearest i - i).natAbs ≤ (q * 2 ^ k - i).natAbs := by
  have hnat (n : Nat) (q : Int) (hq : q.natAbs < 2 ^ 53) :
      (nearestNat n - n : Int).natAbs ≤ (q * 2 ^ k - n).natAbs := by
    rcases Int.natAbs_eq q with habs | habs
    · have hdist := nearestNat_dist n q.natAbs k hq
      rw [habs]
      push_cast at hdist ⊢
      exact hdist
    · -- zero is nearer to a natural number than a negative one
      have hzero := nearestNat_dist n 0 k (by decide)
      have hpos : 0 ≤ (q.natAbs : Int) * 2 ^ k := by positivity
      rw [habs, Int.neg_mul]
      omega
  rcases Int.natAbs_eq i with hi | hi
  · rw [hi, nearest_natCast]
    exact hnat _ q hq
  · have hneg := hnat i.natAbs (-q) (by rwa [Int.natAbs_neg])
    rw [hi, nearest_neg, nearest_natCast]
    rw [Int.neg_mul] at hneg
    omega

theorem nearest_of_natAbs_lt {i : Int} (h : i.natAbs < 2 ^ 53) : nearest i = i := by
  rw [nearest, nearestNat_of_lt h, Int.sign_mul_natAbs]

theorem nearest_mono {i j : Int} (h : i ≤ j) : nearest i ≤ nearest j := by
  rcases Int.natAbs_eq i with hi | hi <;> rcases Int.natAbs_eq j with hj | hj <;>
    rw [hi, hj] at h ⊢
  · have hmono := nearestNat_mono (n := i.natAbs) (m := j.natAbs) (by omega)
    rw [nearest_natCast, nearest_natCast]
    omega
  · -- nothing but zero
    have hzero : i.natAbs = 0 ∧ j.natAbs = 0 := by omega
    rw [hzero.1, hzero.2]
    decide
  · rw [nearest_neg, nearest_natCast, nearest_natCast]
    omega
  · have hmono := nearestNat_mono (n := j.natAbs) (m := i.natAbs) (by omega)
    rw [nearest_neg, nearest_neg, nearest_natCast, nearest_natCast]
    omega

/-- Integers that are not taken for equal are ordered right. -/
theorem compare_nearest (i j : Int) :
    compare (nearest i) (nearest j) = compare i j ↔ i = j ∨ nearest i ≠ nearest j := by
  rcases Int.lt_trichotomy i j with hlt | rfl | hgt
  · have hmono := nearest_mono hlt.le
    rw [Int.compare_eq_lt.2 hlt, Int.compare_eq_lt]
    omega
  · simp
  · have hmono := nearest_mono hgt.le
    rw [Int.compare_eq_gt.2 hgt, Int.compare_eq_gt]
    omega

end TwoWaySql.Rounding
