import Mathlib.Data.List.TakeWhile
import RegisterRules.Number.Layout
import RegisterRules.Proofs.WholeNumber

/-!
# Written numbers read back

The text of a number without an exponent reads back as that number. Reading and writing meet in the
decimals: what is written is a decimal that rounds to the number, and the text is read as a decimal
of the same size, although its coefficient may have other zeros at the end.

So the rank of a decimal must not depend on such zeros, which is a matter of fractions:
`nearestRank` sees the quotient only. And some decimal that rounds to the number must be found. That
is tested wherever a short decimal is taken, and the exact expansion, which stands in for one,
rounds to the number because it is the number.

## Main results

* `Decimal.rank?_mul_ten_pow`: zeros at the end of a coefficient do not matter.
* `Decimal.rank?_shortest`: the decimal that is written rounds to the number.
* `Binary64.exists_digits`: what the text of a number looks like.
* `Binary64.read?_text`: the text of a number reads back.
-/

namespace RegisterRules

/-! ### Runs of characters -/

namespace Text

variable {p : Char → Bool} {run rest : List Char}

/-- A run of characters is cut off where it stops. -/
theorem takeWhile_append_stop (hrun : ∀ c ∈ run, p c = true)
    (hrest : ∀ c ∈ rest.head?, p c = false) : (run ++ rest).takeWhile p = run := by
  rw [List.takeWhile_append_of_pos hrun]
  rcases rest with - | ⟨c, rest⟩
  · simp
  · rw [List.takeWhile_cons_of_neg (by simp [hrest c rfl]), List.append_nil]

theorem dropWhile_append_stop (hrun : ∀ c ∈ run, p c = true)
    (hrest : ∀ c ∈ rest.head?, p c = false) : (run ++ rest).dropWhile p = rest := by
  rw [List.dropWhile_append_of_pos hrun]
  rcases rest with - | ⟨c, rest⟩
  · rfl
  · rw [List.dropWhile_cons_of_neg (by simp [hrest c rfl])]

end Text

/-! ### Ranks of fractions -/

namespace Binary64

theorem roundHalfEven_mul_right (num den : ℕ) {k : ℕ} (hk : 0 < k) :
    roundHalfEven (num * k) (den * k) = roundHalfEven num den := by
  have htwice : 2 * (num % den * k) = 2 * (num % den) * k := (Nat.mul_assoc ..).symm
  simp only [roundHalfEven, Nat.mul_div_mul_right _ _ hk, Nat.mul_mod_mul_right, htwice,
    Nat.mul_lt_mul_right hk, Nat.mul_left_inj hk.ne']

/-- The rank nearest to a fraction depends on the quotient only. -/
theorem nearestRank_mul_right (num den : ℕ) {k : ℕ} (hk : 0 < k) :
    nearestRank (num * k) (den * k) = nearestRank num den := by
  simp only [nearestRank, Nat.mul_div_mul_right _ _ hk, Nat.mul_right_comm den k,
    roundHalfEven_mul_right _ _ hk]

/-- The magnitude of a rank has that rank. -/
theorem nearestRank_units (rank : ℕ) : nearestRank (units rank) 1 = rank := by
  have hpos : 0 < leadingBit := by decide
  rcases Nat.lt_or_ge rank leadingBit with hlt | hge
  · -- below the leading bit a magnitude is its rank
    have hunits : units rank = rank := by
      rw [units, significand, if_pos hlt, scale, Nat.div_eq_of_lt hlt]
      exact Nat.mul_one rank
    have hshift : rank.log2 - 52 = 0 := by
      rcases Nat.eq_zero_or_pos rank with rfl | hrank
      · rfl
      · have := (Nat.log2_lt hrank.ne').mpr (leadingBit_eq ▸ hlt)
        omega
    have hround := roundHalfEven_mul rank Nat.one_pos
    rw [Nat.mul_one] at hround
    rw [hunits, nearestRank, Nat.div_one]
    simp only [hshift]
    rw [Nat.zero_mul, Nat.zero_add]
    exact hround
  · obtain ⟨k, q, hlow, hhigh, rfl⟩ : ∃ k q, leadingBit ≤ q ∧ q < 2 * leadingBit ∧
        rank = k * leadingBit + q := by
      have hmod := Nat.mod_lt rank hpos
      have hdiv := Nat.div_add_mod rank leadingBit
      have hone : 1 ≤ rank / leadingBit := (Nat.one_le_div_iff hpos).mpr hge
      refine ⟨rank / leadingBit - 1, leadingBit + rank % leadingBit, by omega, by omega, ?_⟩
      rw [← Nat.add_assoc, ← Nat.succ_mul, Nat.succ_eq_add_one, Nat.sub_add_cancel hone,
        Nat.mul_comm]
      exact hdiv.symm
    have hq : q ≠ 0 := by omega
    have hbits : q.log2 = 52 := by
      have hnext : 2 ^ (52 + 1) = 2 * leadingBit := by decide
      rw [Nat.log2_eq_iff hq, hnext, ← leadingBit_eq]
      exact ⟨hlow, hhigh⟩
    rw [units_of_significand hlow hhigh, nearestRank, Nat.div_one]
    simp only [log2_mul_two_pow hq, hbits, Nat.add_sub_cancel_left, Nat.one_mul]
    exact congrArg _ (roundHalfEven_mul q (Nat.two_pow_pos k))

theorem scale_le {rank : ℕ} (h : rank < rankBound) : scale rank ≤ 2045 := by
  have hpos : 0 < leadingBit := by decide
  have hdiv : rank / leadingBit < 2047 := (Nat.div_lt_iff_lt_mul hpos).mpr h
  rw [scale]
  omega

theorem units_lt {rank k : ℕ} (h : scale rank ≤ k) : units rank < 2 ^ 53 * 2 ^ k := by
  have hpos : 0 < leadingBit := by decide
  have hmod := Nat.mod_lt rank hpos
  have hsignificand : significand rank < 2 ^ 53 := by
    have hbound : 2 ^ 53 = 2 * leadingBit := by decide
    rw [hbound, significand]
    split
    · omega
    · omega
  calc units rank = significand rank * 2 ^ scale rank := rfl
    _ < 2 ^ 53 * 2 ^ scale rank := Nat.mul_lt_mul_of_pos_right hsignificand (Nat.two_pow_pos _)
    _ ≤ 2 ^ 53 * 2 ^ k := Nat.mul_le_mul_left _ (Nat.pow_le_pow_right Nat.two_pos h)

theorem units_pos {rank : ℕ} (h : rank ≠ 0) : 0 < units rank := by
  have hsignificand : 0 < significand rank := by
    have hpos : 0 < leadingBit := by decide
    rw [significand]
    split
    · omega
    · omega
  exact Nat.mul_pos hsignificand (Nat.two_pow_pos _)

end Binary64

/-! ### Ranks of decimals -/

namespace Decimal

open Binary64

theorem length_toDigits_mul_ten {c : ℕ} (hc : c ≠ 0) :
    (Nat.toDigits 10 (c * 10)).length = (Nat.toDigits 10 c).length + 1 := by
  have happend : Nat.toDigits 10 c ++ Nat.toDigits 10 0 = Nat.toDigits 10 (10 * c + 0) :=
    Nat.toDigits_append_toDigits (by decide) (Nat.pos_of_ne_zero hc) (by decide)
  rw [Nat.mul_comm, ← Nat.add_zero (10 * c), ← happend, List.length_append]
  rfl

/-- A zero at the end of the coefficient does not matter. -/
theorem rank?_mul_ten (c : ℕ) (e : ℤ) : rank? ⟨c * 10, e⟩ = rank? ⟨c, e + 1⟩ := by
  rcases eq_or_ne c 0 with rfl | hc
  · rw [rank?, rank?, if_pos (Nat.zero_mul 10), if_pos rfl]
  have horder : order ⟨c * 10, e⟩ = order ⟨c, e + 1⟩ := by
    simp only [order, digits, length_toDigits_mul_ten hc]
    omega
  have hnear : nearestRank ((fraction ⟨c * 10, e⟩).1 * unitsPerOne) (fraction ⟨c * 10, e⟩).2 =
      nearestRank ((fraction ⟨c, e + 1⟩).1 * unitsPerOne) (fraction ⟨c, e + 1⟩).2 := by
    simp only [fraction, Nat.pow_eq]
    rcases Int.lt_or_le e 0 with hneg | hnonneg
    · -- the two fractions differ by a factor
      have hplaces : (-e).toNat = (-(e + 1)).toNat + 1 := by omega
      have hzero : e.toNat = 0 ∧ (e + 1).toNat = 0 := by omega
      rw [hplaces, hzero.1, hzero.2, pow_zero, Nat.mul_one, Nat.mul_one, pow_succ,
        Nat.mul_right_comm]
      exact nearestRank_mul_right _ _ (by decide)
    · have hplaces : (e + 1).toNat = e.toNat + 1 := by omega
      have hzero : (-e).toNat = 0 ∧ (-(e + 1)).toNat = 0 := by omega
      rw [hplaces, hzero.1, hzero.2, pow_succ', Nat.mul_assoc c]
  rw [rank?, rank?, horder, hnear]
  simp only [Nat.mul_eq_zero, OfNat.ofNat_ne_zero, or_false]

/-- Zeros at the end of the coefficient do not matter. -/
theorem rank?_mul_ten_pow (c : ℕ) (e : ℤ) (k : ℕ) : rank? ⟨c * 10 ^ k, e⟩ = rank? ⟨c, e + k⟩ := by
  induction k generalizing e with
  | zero => simp
  | succ k ih =>
    rw [pow_succ, ← Nat.mul_assoc, rank?_mul_ten, ih]
    congr 2
    push_cast
    omega

theorem rank?_trim (room c : ℕ) (e : ℤ) : (trim room c e).rank? = rank? ⟨c, e⟩ := by
  induction room generalizing c e with
  | zero => rfl
  | succ room ih =>
    rw [trim]
    split
    · next hzero =>
      have hc : c / 10 * 10 = c := Nat.div_mul_cancel (Nat.dvd_of_mod_eq_zero hzero)
      rw [ih, ← rank?_mul_ten, hc]
    · rfl

theorem rank?_trimmed (d : Decimal) : d.trimmed.rank? = d.rank? := rank?_trim ..

/-! ### The decimal of a number -/

theorem coefficient_exact (rank : ℕ) : (exact rank).coefficient = units rank * Nat.pow 5 1074 := rfl

theorem coefficient_exact_pos {rank : ℕ} (h : rank ≠ 0) : 0 < (exact rank).coefficient := by
  have hfive : ∀ k, 0 < Nat.pow 5 k := fun k => Nat.pow_pos (by decide)
  rw [coefficient_exact]
  exact Nat.mul_pos (units_pos h) (hfive 1074)

theorem length_toDigits_bounds {j k n : ℕ} (hlow : 10 ^ j ≤ n) (hhigh : n < 10 ^ k) :
    j < (Nat.toDigits 10 n).length ∧ (Nat.toDigits 10 n).length ≤ k := by
  have hjk : j < k := (Nat.pow_lt_pow_iff_right (by decide)).mp (Nat.lt_of_le_of_lt hlow hhigh)
  have hfew := (Nat.length_toDigits_le_iff (by decide) (by omega)).mpr hhigh
  refine ⟨?_, hfew⟩
  rcases Nat.eq_zero_or_pos j with rfl | hj
  · exact Nat.length_toDigits_pos
  · by_contra hmany
    have hsmall := (Nat.length_toDigits_le_iff (by decide) hj).mp (Nat.not_lt.mp hmany)
    omega

/-- The orders of the exact expansions lie within the bounds. -/
theorem order_exact {rank : ℕ} (hzero : rank ≠ 0) (h : rank < rankBound) :
    -330 ≤ (exact rank).order ∧ (exact rank).order ≤ 310 := by
  have hlower : 10 ^ 743 ≤ (exact rank).coefficient := by
    have hpower : 10 ^ 743 ≤ Nat.pow 5 1074 := by decide +kernel
    rw [coefficient_exact]
    exact Nat.le_trans hpower (Nat.le_mul_of_pos_left _ (units_pos hzero))
  have hupper : (exact rank).coefficient < 10 ^ 1384 := by
    have hpower : 2 ^ 53 * 2 ^ 2045 * Nat.pow 5 1074 < 10 ^ 1384 := by decide +kernel
    have hunits := Nat.le_of_lt (units_lt (scale_le h))
    rw [coefficient_exact]
    exact Nat.lt_of_le_of_lt (Nat.mul_le_mul_right _ hunits) hpower
  obtain ⟨hmany, hfew⟩ := length_toDigits_bounds hlower hupper
  have hexponent : (exact rank).exponent = -1074 := rfl
  rw [order, digits, hexponent]
  omega

theorem rank?_exact {rank : ℕ} (hzero : rank ≠ 0) (h : rank < rankBound) :
    (exact rank).rank? = some rank := by
  obtain ⟨hlow, hhigh⟩ := order_exact hzero h
  have hcoefficient := (coefficient_exact_pos hzero).ne'
  have hnear : nearestRank ((exact rank).fraction.1 * unitsPerOne) (exact rank).fraction.2 =
      rank := by
    -- the exponent stays a variable, so that no step evaluates the powers
    obtain ⟨k, hk⟩ : ∃ k, k = 1074 := ⟨_, rfl⟩
    have hten : Nat.pow 5 1074 * unitsPerOne = 10 ^ k := by
      have hbase : 5 * 2 = 10 := rfl
      rw [unitsPerOne, ← hk, Nat.pow_eq, Nat.pow_eq, ← mul_pow, hbase]
    have hfraction : (exact rank).fraction = (units rank * Nat.pow 5 1074, 1 * 10 ^ k) := by
      have hplaces : (-(-1074 : ℤ)).toNat = k := by omega
      have hnone : (-1074 : ℤ).toNat = 0 := by omega
      rw [Nat.one_mul]
      simp only [fraction, exact, hplaces, hnone, Nat.pow_eq, pow_zero, Nat.mul_one]
    have hscaled := nearestRank_mul_right (units rank) 1 (Nat.pow_pos (by decide) : 0 < 10 ^ k)
    simp only [hfraction]
    rw [Nat.mul_assoc, hten, hscaled, nearestRank_units]
  rw [rank?, if_neg hcoefficient, if_neg (by omega), if_neg (by omega), hnear]
  exact if_pos h

/-- A decimal is taken at some precision only if it rounds to the magnitude. -/
theorem rank?_atPrecision {tie : Tie} {rank precision : ℕ} {d : Decimal}
    (h : atPrecision tie rank precision = some d) : d.rank? = some rank := by
  simp only [atPrecision, Bool.and_eq_true, beq_iff_eq] at h
  -- of the two neighbours only the tests matter
  generalize trimmed _ = low at h
  generalize trimmed _ = high at h
  split at h
  · next hboth =>
    obtain ⟨hlow, hhigh⟩ := hboth
    split at h
    · exact Option.some.inj h ▸ hlow
    split at h
    · exact Option.some.inj h ▸ hhigh
    cases tie with
    | up => exact Option.some.inj h ▸ hhigh
    | even =>
      dsimp only at h
      split at h
      · exact Option.some.inj h ▸ hlow
      · exact Option.some.inj h ▸ hhigh
  split at h
  · next hlow => exact Option.some.inj h ▸ hlow
  split at h
  · next hhigh => exact Option.some.inj h ▸ hhigh
  · cases h

/-- **The decimal that is written for a magnitude rounds to it.** -/
theorem rank?_shortest (tie : Tie) {rank : ℕ} (hzero : rank ≠ 0) (h : rank < rankBound) :
    (shortest tie rank).rank? = some rank := by
  rw [shortest]
  split
  · next d hfound =>
    obtain ⟨n, -, hn⟩ := List.exists_of_findSome?_eq_some hfound
    exact rank?_atPrecision hn
  · rw [rank?_trimmed, rank?_exact hzero h]

end Decimal

/-! ### The text of a number -/

namespace Number

/-- Digits with an optional point and digits behind it. -/
def pointed (whole fraction : List Char) : List Char :=
  whole ++ if fraction = [] then [] else '.' :: fraction

/-- Digits without an exponent. They are split at the point, and together they are the digits up to
zeros at the ends. -/
theorem exists_plain_eq (keepsPoint : Bool) (d : Decimal) :
    ∃ whole fraction, plain keepsPoint d.digits d.order = pointed whole fraction ∧
      whole ≠ [] ∧ (∀ c ∈ whole, c.isDigit = true) ∧ (∀ c ∈ fraction, c.isDigit = true) ∧
      (Numeral.decimal whole fraction 0).rank? = d.rank? ∧
      (whole = ['0'] ∨ whole.head? = d.digits.head?) ∧ (keepsPoint = true → fraction ≠ []) := by
  obtain ⟨coefficient, exponent⟩ := d
  have hdigit : ∀ c ∈ Decimal.digits ⟨coefficient, exponent⟩, c.isDigit = true :=
    fun c => Nat.isDigit_of_mem_toDigits (by decide) (by decide)
  have hvalue : Nat.ofDigitChars 10 (Decimal.digits ⟨coefficient, exponent⟩) 0 = coefficient :=
    Nat.ofDigitChars_ten_toDigits
  have hne : Decimal.digits ⟨coefficient, exponent⟩ ≠ [] := Nat.toDigits_ne_nil
  have horder : Decimal.order ⟨coefficient, exponent⟩ =
      (Decimal.digits ⟨coefficient, exponent⟩).length + exponent := rfl
  generalize Decimal.digits ⟨coefficient, exponent⟩ = digits at *
  generalize Decimal.order ⟨coefficient, exponent⟩ = order at *
  have hlength : 0 < digits.length := List.length_pos_iff.mpr hne
  have hzeros : ∀ n, ∀ c ∈ List.replicate n '0', c.isDigit = true := by
    intro n c hc
    rw [List.eq_of_mem_replicate hc]
    rfl
  rw [plain]
  rcases le_or_gt order 0 with hsmall | hpos
  · -- zeros between the point and the digits
    refine ⟨['0'], List.replicate (-order).toNat '0' ++ digits, ?_, by simp, by simp,
      List.forall_mem_append.mpr ⟨hzeros _, hdigit⟩, ?_, .inl rfl, by simp [hne]⟩
    · simp [pointed, hne, hsmall]
    · have hcoefficient : Nat.ofDigitChars 10
          (['0'] ++ (List.replicate (-order).toNat '0' ++ digits)) 0 = coefficient := by
        rw [← List.append_assoc, Nat.ofDigitChars_append,
          show ['0'] = List.replicate 1 '0' from rfl, List.replicate_append_replicate,
          Nat.ofDigitChars_replicate_zero, Nat.mul_zero, hvalue]
      rw [Numeral.decimal, hcoefficient, List.length_append, List.length_replicate]
      congr 2
      omega
  rw [if_neg (Int.not_le.mpr hpos)]
  rcases le_or_gt (digits.length : ℤ) order with hlarge | hamong
  · -- zeros behind the digits, and one more if the point is kept
    refine ⟨digits ++ List.replicate (order - digits.length).toNat '0',
      List.replicate keepsPoint.toNat '0', ?_, by simp [hne],
      List.forall_mem_append.mpr ⟨hdigit, hzeros _⟩, hzeros _, ?_, .inr ?_, ?_⟩
    · cases keepsPoint <;> simp [pointed, hlarge]
    · rw [Numeral.decimal, List.append_assoc, List.replicate_append_replicate,
        Nat.ofDigitChars_append, hvalue, Nat.ofDigitChars_replicate_zero, Nat.mul_comm,
        Decimal.rank?_mul_ten_pow, List.length_replicate]
      congr 2
      omega
    · obtain ⟨c, more, rfl⟩ := List.exists_cons_of_ne_nil hne
      rfl
    · rintro rfl
      simp
  · -- the point among the digits
    have hbehind : digits.drop order.toNat ≠ [] := by
      rw [Ne, List.drop_eq_nil_iff]
      omega
    refine ⟨digits.take order.toNat, digits.drop order.toNat, ?_, ?_,
      fun c hc => hdigit c (List.mem_of_mem_take hc),
      fun c hc => hdigit c (List.mem_of_mem_drop hc), ?_, .inr ?_, fun _ => hbehind⟩
    · rw [if_neg (Int.not_le.mpr hamong), pointed, if_neg hbehind]
    · rw [Ne, List.take_eq_nil_iff]
      rintro (hnone | hnone)
      · omega
      · exact hne hnone
    · rw [Numeral.decimal, List.take_append_drop, hvalue, List.length_drop]
      congr 2
      omega
    · rw [List.head?_take, if_neg (by omega)]

end Number

namespace Numeral

/-- What digits with a point spell. -/
theorem magnitude?_pointed {whole fraction : List Char} (hne : whole ≠ [])
    (hwhole : ∀ c ∈ whole, c.isDigit = true) (hfraction : ∀ c ∈ fraction, c.isDigit = true) :
    magnitude? (Number.pointed whole fraction) = some (decimal whole fraction 0) := by
  rw [magnitude?, Number.pointed]
  rcases eq_or_ne fraction [] with rfl | hnone
  · have htake : whole.takeWhile Char.isDigit = whole :=
      List.takeWhile_eq_self_iff.mpr hwhole
    have hdrop : whole.dropWhile Char.isDigit = [] := List.dropWhile_eq_nil_iff.mpr hwhole
    simp [htake, hdrop, exponent?, hne]
  · have htake : (whole ++ '.' :: fraction).takeWhile Char.isDigit = whole :=
      Text.takeWhile_append_stop hwhole (by simp)
    have hdrop : (whole ++ '.' :: fraction).dropWhile Char.isDigit = '.' :: fraction :=
      Text.dropWhile_append_stop hwhole (by simp)
    have htake' : fraction.takeWhile Char.isDigit = fraction :=
      List.takeWhile_eq_self_iff.mpr hfraction
    have hdrop' : fraction.dropWhile Char.isDigit = [] := List.dropWhile_eq_nil_iff.mpr hfraction
    simp [hnone, htake, hdrop, htake', hdrop', exponent?, hne]

theorem sign_of_isDigit {c : Char} (h : c.isDigit = true) (rest : List Char) :
    sign (c :: rest) = (false, c :: rest) := by
  rw [sign]
  · intro more heq
    obtain ⟨rfl, -⟩ := List.cons_eq_cons.mp heq
    cases h
  · intro more heq
    obtain ⟨rfl, -⟩ := List.cons_eq_cons.mp heq
    cases h

end Numeral

namespace Binary64

open Number

/-- **The text of a number.** An optional minus, digits, and perhaps a point with digits behind it;
without the sign it spells a decimal that rounds to the number. -/
theorem exists_digits (x : Binary64) :
    ∃ whole fraction, (x.text .positional).toList =
        (if x.negative then ['-'] else []) ++ pointed whole fraction ∧
      whole ≠ [] ∧ (∀ c ∈ whole, c.isDigit = true) ∧ (∀ c ∈ fraction, c.isDigit = true) ∧
      (Numeral.decimal whole fraction 0).rank? = some x.rank := by
  rw [text, String.toList_ofList, Layout.magnitude]
  rcases eq_or_ne x.rank 0 with hzero | hzero
  · exact ⟨['0'], [], by simp [hzero, pointed, Layout.positional], by simp, by simp, by simp,
      by rw [hzero]; rfl⟩
  · obtain ⟨whole, fraction, hplain, hne, hwhole, hfraction, hrank, -⟩ :=
      exists_plain_eq false (Decimal.shortest .up x.rank)
    rw [Decimal.rank?_shortest _ hzero x.rank_lt] at hrank
    refine ⟨whole, fraction, ?_, hne, hwhole, hfraction, hrank⟩
    rw [if_neg hzero, ← hplain]
    rfl

/-- **The text of a number reads back.** -/
theorem read?_text (x : Binary64) : Numeral.read? (x.text .positional).toList = some x := by
  obtain ⟨whole, fraction, htext, hne, hwhole, hfraction, hrank⟩ := exists_digits x
  have hsign : Numeral.sign ((if x.negative then ['-'] else []) ++ pointed whole fraction) =
      (x.negative, pointed whole fraction) := by
    rcases hnegative : x.negative with - | -
    · obtain ⟨c, more, rfl⟩ := List.exists_cons_of_ne_nil hne
      exact Numeral.sign_of_isDigit (hwhole c List.mem_cons_self) _
    · rfl
  rw [htext, Numeral.read?, hsign]
  simp only [Numeral.magnitude?_pointed hne hwhole hfraction, Option.bind_some, ofDecimal?, hrank,
    ofRank?, dif_pos x.rank_lt]

end Binary64

end RegisterRules
