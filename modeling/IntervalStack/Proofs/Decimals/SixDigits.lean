import IntervalStack.Proofs.Decimals.Written

/-! The `%g` text of a double is its value rounded to six significant digits. A number that is rounded
up to a power of ten gets a leading digit one place further up; rounding at the place that this one
asks for gives the same number. -/

namespace IntervalStack

/-- The multiple of `10 ^ e` nearest to a number; of two that are equally near, the one with the even
factor. -/
def RoundsAt (e : ℤ) (q v : ℚ) : Prop :=
  ∃ k : ℤ, v = k * 10 ^ e ∧ |q - v| ≤ 10 ^ e / 2 ∧ (|q - v| = 10 ^ e / 2 → Even k)

namespace RoundsAt

variable {e : ℤ} {q v w : ℚ}

theorem unique (h : RoundsAt e q v) (h' : RoundsAt e q w) : v = w := by
  obtain ⟨k, rfl, hnear, heven⟩ := h
  obtain ⟨l, rfl, hnear', heven'⟩ := h'
  have hunit := ten_zpow_pos e
  by_contra hne
  have hkl : k ≠ l := fun heq => hne (by rw [heq])
  have hone : 1 ≤ |k - l| := Int.one_le_abs (sub_ne_zero.2 hkl)
  -- Both are half a unit away, and neighbours.
  have hapart : (|k - l| : ℤ) * (10 : ℚ) ^ e ≤ |q - k * 10 ^ e| + |q - l * 10 ^ e| := by
    have htriangle := abs_sub_le (k * (10 : ℚ) ^ e) q (l * 10 ^ e)
    rw [abs_sub_comm _ q, ← sub_mul, abs_mul, abs_of_pos hunit] at htriangle
    push_cast
    exact htriangle
  have hwide : (10 : ℚ) ^ e ≤ (|k - l| : ℤ) * (10 : ℚ) ^ e :=
    le_mul_of_one_le_left hunit.le (by exact_mod_cast hone)
  have hk := heven (by linarith)
  have hl := heven' (by linarith)
  have hle : |k - l| ≤ 1 := by
    have hmul : (|k - l| : ℤ) * (10 : ℚ) ^ e ≤ 1 * 10 ^ e := by linarith
    exact_mod_cast le_of_mul_le_mul_right hmul hunit
  have hodd : |k - l| = 1 := by omega
  have : Even |k - l| := even_abs.2 (hk.sub hl)
  rw [hodd] at this
  exact absurd this (by decide)

theorem neg (h : RoundsAt e q v) : RoundsAt e (-q) (-v) := by
  obtain ⟨k, rfl, hnear, heven⟩ := h
  have habs : |-q - -(k * (10 : ℚ) ^ e)| = |q - k * 10 ^ e| := by rw [← abs_neg]; ring_nf
  refine ⟨-k, by push_cast; ring, habs ▸ hnear, fun htie => ?_⟩
  exact (heven (habs ▸ htie)).neg

end RoundsAt

/-- Twice the distance to the quotient is no more than the divisor, and an even number is taken where
it is as much. -/
theorem roundHalfEven_near (num : Nat) {den : Nat} (hden : 0 < den) :
    2 * |(num : ℤ) - roundHalfEven num den * den| ≤ den ∧
      (2 * |(num : ℤ) - roundHalfEven num den * den| = den → Even (roundHalfEven num den)) := by
  have hdiv := Nat.div_add_mod num den
  have hmod := Nat.mod_lt num hden
  unfold roundHalfEven
  generalize num / den = q at hdiv
  generalize num % den = r at hdiv hmod
  subst hdiv
  have hdown : |((den * q + r : ℕ) : ℤ) - q * den| = r := by
    push_cast
    rw [mul_comm (q : ℤ), add_sub_cancel_left, Nat.abs_cast]
  have hup : |((den * q + r : ℕ) : ℤ) - (q + 1 : ℕ) * den| = den - r := by
    rw [abs_sub_comm]
    push_cast
    rw [abs_of_nonneg] <;> [ring; linarith]
  dsimp only
  split
  · rw [hdown]
    omega
  · split
    · rw [hup]
      omega
    · rcases Nat.mod_two_eq_zero_or_one q with heven | hodd
      · rw [heven, Nat.add_zero, hdown]
        exact ⟨by omega, fun _ => Nat.even_iff.2 heven⟩
      · rw [hodd, hup]
        exact ⟨by omega, fun _ => (Nat.odd_iff.2 hodd).add_one⟩

theorem roundsAt_roundHalfEven (num : Nat) {den : Nat} (hden : 0 < den) :
    RoundsAt 0 ((num : ℚ) / den) (roundHalfEven num den) := by
  obtain ⟨hnear, heven⟩ := roundHalfEven_near num hden
  generalize roundHalfEven num den = n at hnear heven
  have hdenq : (0 : ℚ) < den := by exact_mod_cast hden
  have habs : |(num : ℚ) / den - n| = |(num : ℤ) - n * den| / den := by
    rw [eq_div_iff hdenq.ne', ← abs_of_pos hdenq, ← abs_mul, abs_of_pos hdenq, sub_mul,
      div_mul_cancel₀ _ hdenq.ne']
    push_cast
    rfl
  refine ⟨n, by simp, ?_, fun htie => ?_⟩
  · rw [zpow_zero, habs, div_le_div_iff₀ hdenq two_pos, one_mul, mul_comm]
    exact_mod_cast hnear
  · rw [zpow_zero, habs, div_eq_div_iff hdenq.ne' two_ne_zero, one_mul, mul_comm] at htie
    exact_mod_cast heven (by exact_mod_cast htie)

theorem RoundsAt.mul_zpow {e : ℤ} {q v : ℚ} (h : RoundsAt e q v) (f : ℤ) :
    RoundsAt (e + f) (q * 10 ^ f) (v * 10 ^ f) := by
  obtain ⟨k, rfl, hnear, heven⟩ := h
  have hunit := ten_zpow_pos f
  have habs : |q * 10 ^ f - k * 10 ^ e * 10 ^ f| = |q - k * 10 ^ e| * 10 ^ f := by
    rw [← sub_mul, abs_mul, abs_of_pos hunit]
  refine ⟨k, by rw [ten_zpow_add]; ring, ?_, fun htie => heven ?_⟩
  · rw [habs, ten_zpow_add, mul_div_right_comm]
    gcongr
  · rw [habs, ten_zpow_add, mul_div_right_comm] at htie
    exact mul_right_cancel₀ hunit.ne' htie

/-- Rounding at the place of the last of six digits of the result is the same: where the result is a
power of ten, the number is too near to it to be half of the larger unit away. -/
theorem RoundsAt.last_of_six {e : ℤ} {q : ℚ} {k : ℕ} (hlow : 10 ^ 5 ≤ k) (hhigh : k ≤ 10 ^ 6)
    (h : RoundsAt e q (k * 10 ^ e)) :
    RoundsAt (Int.log 10 ((k : ℚ) * 10 ^ e) - 5) q (k * 10 ^ e) := by
  have hlowq : (10 : ℚ) ^ (5 : ℤ) ≤ k := by exact_mod_cast hlow
  have hpos : (0 : ℚ) < k := (ten_zpow_pos 5).trans_le hlowq
  rw [log_ten_mul_zpow hpos]
  rcases hhigh.lt_or_eq with hlt | rfl
  · have hlog : Int.log 10 (k : ℚ) = 5 := log_ten_eq hlowq (by exact_mod_cast hlt)
    rwa [hlog, add_sub_cancel_left]
  · have hlog : Int.log 10 ((10 ^ 6 : ℕ) : ℚ) = 6 := log_ten_eq (by norm_num) (by norm_num)
    have hunit := ten_zpow_pos e
    have hten : (10 : ℚ) ^ (6 + e - 5) = 10 * 10 ^ e := by
      rw [show 6 + e - 5 = 1 + e by ring, ten_zpow_add, zpow_one]
    obtain ⟨-, -, hnear, -⟩ := h
    rw [hlog]
    refine ⟨10 ^ 5, ?_, ?_, fun htie => ?_⟩
    · rw [hten]
      push_cast
      ring
    · rw [hten]
      linarith
    · rw [hten] at htie
      linarith

/-- The number with so many significant digits that is nearest to a given one. -/
def RoundsTo (digits : ℕ) (q v : ℚ) : Prop := RoundsAt (Int.log 10 |q| - (digits - 1)) q v

namespace Double

variable {x : Double}

theorem toDecimals_eq (hx : x.isZero = false) (s : ℤ) :
    ∃ k : ℕ, x.toDecimals s = Decimal.ofNat k (-s) ∧ RoundsAt (-s) x.size (k * 10 ^ (-s)) := by
  obtain ⟨-, hden⟩ := magnitude_pos hx
  have hrounds := roundsAt_roundHalfEven (Decimal.scaled x.magnitude.1 x.magnitude.2 s).1
    (Decimal.scaled_snd_pos x.magnitude.1 hden s)
  rw [Decimal.scaled_eq, magnitude_eq] at hrounds
  refine ⟨_, rfl, ?_⟩
  have hmoved := hrounds.mul_zpow (-s)
  rwa [zero_add, mul_assoc, ← ten_zpow_add, add_neg_cancel, zpow_zero, mul_one] at hmoved

/-- Six digits are a whole number of a hundred thousand up to a million, at the place of the last of
them. -/
theorem sixDigits_eq (hx : x.isZero = false) :
    ∃ k : ℕ, 10 ^ 5 ≤ k ∧ k ≤ 10 ^ 6 ∧ x.sixDigits = Decimal.ofNat k (Int.log 10 x.size - 5) ∧
      RoundsAt (Int.log 10 x.size - 5) x.size (k * 10 ^ (Int.log 10 x.size - 5)) := by
  obtain ⟨hnum, hden⟩ := magnitude_pos hx
  obtain ⟨hlow, hhigh⟩ := log_ten_bounds (size_pos hx)
  have hplace : 6 - Decimal.pointOf x.magnitude.1 x.magnitude.2 = 5 - Int.log 10 x.size := by
    rw [Decimal.pointOf_eq hnum hden, magnitude_eq]
    ring
  have hsix : x.sixDigits = x.toDecimals (5 - Int.log 10 x.size) := congrArg x.toDecimals hplace
  obtain ⟨k, heq, hrounds⟩ := toDecimals_eq hx (5 - Int.log 10 x.size)
  rw [neg_sub] at heq hrounds
  generalize Int.log 10 x.size = e at *
  have hdistance := abs_le.1 hrounds.choose_spec.2.1
  have hunit := ten_zpow_pos (e - 5)
  have hbelow : (10 : ℚ) ^ e = 10 ^ 5 * 10 ^ (e - 5) := by
    rw [← zpow_natCast, ← ten_zpow_add]
    congr 1
    ring
  have habove : (10 : ℚ) ^ (e + 1) = 10 ^ 6 * 10 ^ (e - 5) := by
    rw [← zpow_natCast, ← ten_zpow_add]
    congr 1
    ring
  refine ⟨k, ?_, ?_, hsix.trans heq, hrounds⟩
  · have : ((10 ^ 5 : ℕ) : ℚ) < (k + 1 : ℕ) := by
      refine lt_of_mul_lt_mul_right ?_ hunit.le
      push_cast
      linarith
    exact Nat.lt_succ_iff.1 (by exact_mod_cast this)
  · have : (k : ℚ) < (10 ^ 6 + 1 : ℕ) := by
      refine lt_of_mul_lt_mul_right ?_ hunit.le
      push_cast
      linarith
    exact Nat.lt_succ_iff.1 (by exact_mod_cast this)

/-- Rounding once more, to the decimals that the first of the six digits leaves, gives the same
digits. Where they were rounded up to a power of ten there is one decimal fewer, and the last zero of
the million goes. -/
theorem toDecimals_sixDigits (hx : x.isZero = false) :
    x.toDecimals (6 - x.sixDigits.point) = x.sixDigits := by
  obtain ⟨k, hlow, hhigh, heq, hrounds⟩ := sixDigits_eq hx
  have hpos : 0 < k := by omega
  have hlowq : (10 : ℚ) ^ (5 : ℤ) ≤ k := by exact_mod_cast hlow
  have hlast := hrounds.last_of_six hlow hhigh
  rw [heq, Decimal.point_ofNat hpos]
  generalize Int.log 10 x.size - 5 = e at hrounds hlast ⊢
  obtain ⟨l, hdigits, hnear⟩ := toDecimals_eq hx (6 - (Int.log 10 ((k : ℚ) * 10 ^ e) + 1))
  rw [hdigits]
  have hsame := hnear.unique (show RoundsAt (-(6 - (Int.log 10 ((k : ℚ) * 10 ^ e) + 1))) _ _ by
    rwa [show -(6 - (Int.log 10 ((k : ℚ) * 10 ^ e) + 1)) = Int.log 10 ((k : ℚ) * 10 ^ e) - 5 by ring])
  rw [log_ten_mul_zpow (by exact_mod_cast hpos)] at hsame ⊢
  have hunit := (ten_zpow_pos e).ne'
  rcases hhigh.lt_or_eq with hlt | rfl
  · have hlog : Int.log 10 (k : ℚ) = 5 := log_ten_eq hlowq (by exact_mod_cast hlt)
    rw [hlog, show -(6 - (5 + e + 1)) = e by ring] at hsame ⊢
    rw [show l = k by exact_mod_cast mul_right_cancel₀ hunit hsame]
  · have hlog : Int.log 10 ((10 ^ 6 : ℕ) : ℚ) = 6 := log_ten_eq (by norm_num) (by norm_num)
    rw [hlog, show -(6 - (6 + e + 1)) = 1 + e by ring] at hsame ⊢
    rw [ten_zpow_add, zpow_one, ← mul_assoc] at hsame
    have hten : l * 10 = 10 ^ 6 := by exact_mod_cast mul_right_cancel₀ hunit hsame
    obtain rfl : l = 10 ^ 5 := by omega
    rw [Decimal.ofNat, Decimal.ofNat, Decimal.mk.injEq]
    refine ⟨by decide +kernel, ?_⟩
    have hfive : (Nat.toDigits 10 (10 ^ 5)).length = 6 := by decide +kernel
    have hsix : (Nat.toDigits 10 (10 ^ 6)).length = 7 := by decide +kernel
    rw [hfive, hsix]
    push_cast
    ring

/-- The six digits are the nearest number with so many, and the position of their point tells the
place of the first. -/
theorem sixDigits_rounds (hx : x.isZero = false) :
    x.sixDigits.Plain ∧ x.sixDigits.digits.getLast? ≠ some '0' ∧ 0 < x.sixDigits.value ∧
      x.sixDigits.point = Int.log 10 x.sixDigits.value + 1 ∧
      RoundsAt (Int.log 10 x.size - 5) x.size x.sixDigits.value ∧
      RoundsAt (Int.log 10 x.sixDigits.value - 5) x.size x.sixDigits.value := by
  obtain ⟨k, hlow, hhigh, heq, hrounds⟩ := sixDigits_eq hx
  have hpos : 0 < k := by omega
  rw [heq, Decimal.value_ofNat]
  exact ⟨Decimal.plain_ofNat hpos _, Decimal.getLast?_dropTrailingZeros _,
    mul_pos (by exact_mod_cast hpos) (ten_zpow_pos _), Decimal.point_ofNat hpos _, hrounds,
    hrounds.last_of_six hlow hhigh⟩

end Double
end IntervalStack
