import IntervalStack.Proofs.Decimals.Basic

/-! What the written forms of a decimal stand for. A numeral is a number by its digits, point and
exponent; both forms of a decimal, and with them the texts of doubles, are read as its value. -/

namespace IntervalStack

namespace Numeral

def power (n : Numeral) : ℤ :=
  match n.exponent with
  | none => 0
  | some (negative, ds) => if negative then -natOf ds else natOf ds

def magnitude (n : Numeral) : ℚ :=
  natOf (n.whole ++ n.fraction.getD []) * 10 ^ (n.power - (n.fraction.getD []).length)

def value (n : Numeral) : ℚ := if n.negative then -n.magnitude else n.magnitude

end Numeral

namespace Decimal

variable {d : Decimal}

theorem positional_value (d : Decimal) :
    (Numeral.natOf (d.positional.1 ++ d.positional.2) : ℚ) * 10 ^ (-(d.positional.2.length : ℤ))
      = d.value := by
  unfold positional value
  split
  · next hpoint =>
    have hzero : Numeral.natOf (['0'] ++ (zeros (-d.point).toNat ++ d.digits))
        = Numeral.natOf d.digits := by
      rw [← List.append_assoc]
      exact Numeral.natOf_zeros_append ((-d.point).toNat + 1) d.digits
    have hlength : -((zeros (-d.point).toNat ++ d.digits).length : ℤ)
        = d.point - d.digits.length := by
      rw [List.length_append, zeros, List.length_replicate]
      omega
    rw [hzero, hlength]
  · next hpoint =>
    dsimp only
    by_cases hshort : d.point.toNat ≤ d.digits.length
    · -- The point stands among the digits.
      have hlength : -((d.digits.drop d.point.toNat).length : ℤ) = d.point - d.digits.length := by
        rw [List.length_drop]
        omega
      rw [Nat.sub_eq_zero_of_le hshort, zeros, List.replicate_zero, List.append_nil,
        List.take_append_drop, hlength]
    · -- The point stands behind the digits, with zeros in between.
      rw [List.take_of_length_le (by omega), List.drop_of_length_le (by omega), List.append_nil,
        Numeral.natOf_append, Numeral.natOf_zeros, zeros, List.length_replicate]
      have hpower : (10 : ℚ) ^ (d.point - d.digits.length)
          = 10 ^ (d.point.toNat - d.digits.length) := by
        rw [← zpow_natCast]
        congr 1
        omega
      rw [hpower]
      push_cast
      simp

theorem scientific_value (hd : d.digits ≠ []) :
    (Numeral.natOf (d.scientific.1 ++ d.scientific.2.1) : ℚ)
      * 10 ^ (d.scientific.2.2 - d.scientific.2.1.length) = d.value := by
  have hlength : d.point - 1 - ((d.digits.drop 1).length : ℤ) = d.point - d.digits.length := by
    have := List.length_pos_iff.2 hd
    rw [List.length_drop]
    omega
  rw [scientific, value]
  dsimp only
  rw [List.take_append_drop, hlength]

end Decimal

namespace Numeral

variable {d : Decimal} {negative : Bool}

theorem magnitude_positional {fraction : Option (List Char)}
    (hfraction : fraction.getD [] = d.positional.2 ∨ d.positional.2 = [] ∧ fraction = some ['0']) :
    (⟨negative, d.positional.1, fraction, none⟩ : Numeral).magnitude = d.value := by
  rw [← Decimal.positional_value, magnitude, power]
  dsimp only
  rcases hfraction with hdigits | ⟨hempty, rfl⟩
  · rw [hdigits, zero_sub]
  · rw [hempty, Option.getD_some, natOf_append, List.append_nil, show natOf ['0'] = 0 from rfl]
    simp only [List.length_singleton, List.length_nil, pow_one, Nat.add_zero, Nat.cast_mul,
      Nat.cast_ofNat, Nat.cast_one, zero_sub, Nat.cast_zero, neg_zero, zpow_zero, mul_one]
    rw [zpow_neg_one, mul_inv_cancel_right₀ (by norm_num)]

theorem natOf_power {e : ℤ} {ds : List Char} (hds : natOf ds = e.natAbs) :
    (if decide (e < 0) then -(natOf ds : ℤ) else natOf ds) = e := by
  rw [hds]
  split
  · next h =>
    have := of_decide_eq_true h
    omega
  · next h =>
    have := of_decide_eq_false (Bool.eq_false_iff.2 h)
    omega

theorem magnitude_scientific (hd : d.digits ≠ []) {ds : List Char}
    (hds : natOf ds = d.scientific.2.2.natAbs) {fraction : Option (List Char)}
    (hfraction : fraction.getD [] = d.scientific.2.1) :
    (⟨negative, d.scientific.1, fraction, some (decide (d.scientific.2.2 < 0), ds)⟩ : Numeral).magnitude
      = d.value := by
  rw [← Decimal.scientific_value hd, magnitude, power]
  dsimp only
  rw [hfraction, natOf_power hds]

end Numeral

theorem Double.sign_toList (x : Double) :
    x.sign.toList = if x.negative then ['-'] else [] := by
  unfold sign
  split <;> rfl

end IntervalStack
