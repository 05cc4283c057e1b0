import Mathlib.Tactic.Ring
import RegisterRules.Number.Decimal

/-!
# Whole numbers among the binary64 numbers

Columns and table parts are written into generated code as numbers. Below `2 ^ 53` nothing is lost:
the number that stands for a natural number is that natural number again.

The magnitude of `n` is `n * 2 ^ 1074` units. Its leading bit has to be moved to bit 52, and as long
as `n` has no more than 53 bits that is a multiplication: the division by which `nearestRank` rounds
leaves no remainder.

## Main definitions

* `Binary64.toNat?`: the natural number that a number is.

## Main results

* `Binary64.units_of_significand`: the magnitude of a rank that is given by scale and significand.
* `Binary64.exists_ofNat?_eq`: the number of a natural number, and that it reads back.
-/

namespace RegisterRules

namespace Binary64

/-- The natural number that a number is, if it is one. -/
def toNat? (x : Binary64) : Option ℕ :=
  if x.negative = false ∧ units x.rank % unitsPerOne = 0 then some (units x.rank / unitsPerOne)
  else none

theorem leadingBit_eq : leadingBit = 2 ^ 52 := by decide

/-- The magnitude of a rank that is given by scale and significand. -/
theorem units_of_significand {scale q : ℕ} (hlow : leadingBit ≤ q) (hhigh : q < 2 * leadingBit) :
    units (scale * leadingBit + q) = q * 2 ^ scale := by
  have hpos : 0 < leadingBit := by decide
  have hrank : scale * leadingBit + q = (q - leadingBit) + leadingBit * (scale + 1) := by
    rw [Nat.mul_add, Nat.mul_one, Nat.mul_comm scale]
    omega
  have hdiv : (scale * leadingBit + q) / leadingBit = scale + 1 := by
    rw [hrank, Nat.add_mul_div_left _ _ hpos, Nat.div_eq_of_lt (by omega), Nat.zero_add]
  have hmod : (scale * leadingBit + q) % leadingBit = q - leadingBit := by
    rw [hrank, Nat.add_mul_mod_self_left, Nat.mod_eq_of_lt (by omega)]
  have hle : leadingBit ≤ scale * leadingBit + q := Nat.le_trans hlow (Nat.le_add_left _ _)
  rw [units, significand, if_neg (Nat.not_lt.mpr hle), Binary64.scale, hdiv, hmod,
    Nat.add_sub_cancel, Nat.add_sub_cancel' hlow]
  rfl

/-- A quotient without remainder is not rounded. -/
theorem roundHalfEven_mul (q : ℕ) {den : ℕ} (hden : 0 < den) : roundHalfEven (q * den) den = q := by
  rw [roundHalfEven]
  simp only [Nat.mul_mod_left, Nat.mul_div_cancel _ hden]
  rw [if_neg]
  rintro (h | ⟨h, -⟩) <;> omega

theorem log2_mul_two_pow {n : ℕ} (hn : n ≠ 0) (k : ℕ) : (n * 2 ^ k).log2 = n.log2 + k := by
  have hpow : 0 < 2 ^ k := Nat.two_pow_pos k
  rw [Nat.log2_eq_iff (Nat.mul_ne_zero hn hpow.ne')]
  constructor
  · rw [pow_add]
    exact Nat.mul_le_mul_right _ (Nat.log2_self_le hn)
  · rw [show n.log2 + k + 1 = (n.log2 + 1) + k by omega, pow_add]
    exact Nat.mul_lt_mul_of_pos_right Nat.lt_log2_self hpow

/-- The rank of a number of at most 53 bits, times a power of two. -/
theorem nearestRank_mul_two_pow {n : ℕ} (hn : n ≠ 0) (hbits : n.log2 ≤ 52) {k : ℕ} (hk : 52 ≤ k) :
    nearestRank (n * 2 ^ k) 1 = (n.log2 + k - 52) * leadingBit + n * 2 ^ (52 - n.log2) := by
  have hsplit : n * 2 ^ k = n * 2 ^ (52 - n.log2) * 2 ^ (n.log2 + k - 52) := by
    rw [Nat.mul_assoc, ← pow_add]
    congr 2
    omega
  rw [nearestRank]
  simp only [Nat.div_one, Nat.one_mul, log2_mul_two_pow hn]
  congr 1
  rw [hsplit]
  exact roundHalfEven_mul _ (Nat.two_pow_pos _)

/-- The significand of a number of at most 53 bits has its leading bit in place. -/
theorem significand_bounds {n : ℕ} (hn : n ≠ 0) (hbits : n.log2 ≤ 52) :
    leadingBit ≤ n * 2 ^ (52 - n.log2) ∧ n * 2 ^ (52 - n.log2) < 2 * leadingBit := by
  have hpow : 0 < 2 ^ (52 - n.log2) := Nat.two_pow_pos _
  rw [leadingBit_eq]
  constructor
  · calc 2 ^ 52 = 2 ^ n.log2 * 2 ^ (52 - n.log2) := by rw [← pow_add]; congr 1; omega
      _ ≤ n * 2 ^ (52 - n.log2) := Nat.mul_le_mul_right _ (Nat.log2_self_le hn)
  · calc n * 2 ^ (52 - n.log2) < 2 ^ (n.log2 + 1) * 2 ^ (52 - n.log2) :=
          Nat.mul_lt_mul_of_pos_right Nat.lt_log2_self hpow
      _ = 2 * 2 ^ 52 := by rw [← pow_add, ← pow_succ']; congr 1; omega

/-- The bounds on the order do not reach a natural number below `2 ^ 53`. -/
theorem ofNat?_eq {n : ℕ} (hn : n ≠ 0) (h : n < 2 ^ 53)
    (hrank : nearestRank (n * unitsPerOne) 1 < rankBound) :
    ofNat? n = some ⟨false, nearestRank (n * unitsPerOne) 1, hrank⟩ := by
  have hlength : (Nat.toDigits 10 n).length ≤ 16 :=
    (Nat.length_toDigits_le_iff (by decide) (by decide)).mpr (by omega)
  have horder : (⟨n, 0⟩ : Decimal).order = (Nat.toDigits 10 n).length := by
    rw [Decimal.order, Decimal.digits, Int.add_zero]
  have hfraction : (⟨n, 0⟩ : Decimal).fraction = (n, 1) := by
    rw [Decimal.fraction]
    simp
  have hrank? : (⟨n, 0⟩ : Decimal).rank? = some (nearestRank (n * unitsPerOne) 1) := by
    rw [Decimal.rank?, if_neg hn, if_neg (by omega), if_neg (by omega), hfraction]
    exact if_pos hrank
  rw [ofNat?, ofDecimal?, hrank?, Option.bind_some, ofRank?, dif_pos hrank]

/-- **Whole numbers below `2 ^ 53` are exact.** -/
theorem exists_ofNat?_eq {n : ℕ} (h : n < 2 ^ 53) : ∃ x, ofNat? n = some x ∧ x.toNat? = some n := by
  rcases Nat.eq_zero_or_pos n with rfl | hpos
  · have hunits : units zero.rank = 0 := by simp [units, significand, zero]
    refine ⟨zero, by decide, ?_⟩
    rw [toNat?, hunits, Nat.zero_mod, if_pos ⟨rfl, rfl⟩, Nat.zero_div]
  have hn : n ≠ 0 := hpos.ne'
  have hbits : n.log2 ≤ 52 := Nat.le_of_lt_succ ((Nat.log2_lt hn).mpr h)
  obtain ⟨hlow, hhigh⟩ := significand_bounds hn hbits
  -- the exponent stays a variable, so that no step evaluates the power
  obtain ⟨k, hk⟩ : ∃ k, k = 1074 := ⟨_, rfl⟩
  have hone : unitsPerOne = 2 ^ k := by rw [unitsPerOne, ← hk, Nat.pow_eq]
  have hnear : nearestRank (n * unitsPerOne) 1 =
      (n.log2 + k - 52) * leadingBit + n * 2 ^ (52 - n.log2) := by
    rw [hone, nearestRank_mul_two_pow hn hbits (by omega)]
  have hunits : units (nearestRank (n * unitsPerOne) 1) = n * unitsPerOne := by
    rw [hnear, units_of_significand hlow hhigh, Nat.mul_assoc, ← pow_add,
      show 52 - n.log2 + (n.log2 + k - 52) = k by omega, hone]
  have hrank : nearestRank (n * unitsPerOne) 1 < rankBound := by
    have hscale : (n.log2 + k - 52) * leadingBit ≤ 1074 * leadingBit :=
      Nat.mul_le_mul_right _ (by omega)
    rw [hnear, rankBound]
    omega
  refine ⟨_, ofNat?_eq hn h hrank, ?_⟩
  have hpow : 0 < unitsPerOne := by
    rw [hone]
    exact Nat.two_pow_pos k
  rw [toNat?, hunits, Nat.mul_mod_left, if_pos ⟨rfl, rfl⟩, Nat.mul_div_cancel _ hpow]

end Binary64

end RegisterRules
