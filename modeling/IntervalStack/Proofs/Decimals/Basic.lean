import IntervalStack.Decimal.General
import IntervalStack.Proofs.Json.Numerals
import Mathlib.Algebra.Order.Field.Power
import Mathlib.Algebra.Order.Floor.Semifield
import Mathlib.Data.Int.Log
import Mathlib.Data.Rat.Floor
import Mathlib.Tactic.FieldSimp
import Mathlib.Tactic.Linarith
import Mathlib.Tactic.NormNum
import Mathlib.Tactic.Positivity
import Mathlib.Tactic.Ring

/-! The numbers that decimals and doubles stand for. The quotients that the conversion of a double
works on are said as rational numbers, and the position of the point as the exponent of the leading
digit. -/

namespace IntervalStack

namespace Numeral

theorem natOf_eq (ds : List Char) : natOf ds = Nat.ofDigitChars 10 ds 0 :=
  Nat.ofDigitChars_eq_foldl.symm

theorem natOf_append (as bs : List Char) : natOf (as ++ bs) = natOf as * 10 ^ bs.length + natOf bs := by
  rw [natOf_eq, natOf_eq, natOf_eq, Nat.ofDigitChars_append, Nat.ofDigitChars_eq_ofDigitChars_zero,
    Nat.mul_comm]

theorem natOf_zeros (n : Nat) : natOf (Decimal.zeros n) = 0 := by
  rw [natOf_eq, Decimal.zeros, Nat.ofDigitChars_replicate_zero, Nat.mul_zero]

theorem natOf_zeros_append (n : Nat) (ds : List Char) : natOf (Decimal.zeros n ++ ds) = natOf ds := by
  rw [natOf_append, natOf_zeros, Nat.zero_mul, Nat.zero_add]

end Numeral

theorem ten_zpow_pos (e : ℤ) : (0 : ℚ) < 10 ^ e := zpow_pos (by norm_num) e

theorem ten_zpow_add (e f : ℤ) : (10 : ℚ) ^ (e + f) = 10 ^ e * 10 ^ f := zpow_add₀ (by norm_num) e f

theorem log_ten_eq {q : ℚ} {e : ℤ} (hlow : (10 : ℚ) ^ e ≤ q) (hhigh : q < 10 ^ (e + 1)) :
    Int.log 10 q = e := by
  have hpos : 0 < q := lt_of_lt_of_le (ten_zpow_pos e) hlow
  have hle : e ≤ Int.log 10 q := (Int.zpow_le_iff_le_log (by norm_num) hpos).1 (by exact_mod_cast hlow)
  have hlt : Int.log 10 q < e + 1 :=
    (Int.lt_zpow_iff_log_lt (by norm_num) hpos).1 (by exact_mod_cast hhigh)
  omega

theorem log_ten_bounds {q : ℚ} (hq : 0 < q) :
    (10 : ℚ) ^ Int.log 10 q ≤ q ∧ q < 10 ^ (Int.log 10 q + 1) := by
  have hlow := Int.zpow_log_le_self (R := ℚ) (b := 10) (by norm_num) hq
  have hhigh := Int.lt_zpow_succ_log_self (R := ℚ) (b := 10) (by norm_num) q
  push_cast at hlow hhigh
  exact ⟨hlow, hhigh⟩

theorem log_ten_mul_zpow {q : ℚ} (hq : 0 < q) (e : ℤ) :
    Int.log 10 (q * 10 ^ e) = Int.log 10 q + e := by
  obtain ⟨hlow, hhigh⟩ := log_ten_bounds hq
  have hpos := ten_zpow_pos e
  refine log_ten_eq ?_ ?_
  · rw [ten_zpow_add]
    gcongr
  · rw [add_right_comm, ten_zpow_add]
    gcongr

namespace Decimal

def value (d : Decimal) : ℚ := Numeral.natOf d.digits * 10 ^ (d.point - d.digits.length)

/-! Trailing zeros. -/

theorem dropTrailingZeros_append (cs : List Char) :
    ∃ n, cs = dropTrailingZeros cs ++ zeros n := by
  refine ⟨(cs.reverse.takeWhile (· == '0')).length, ?_⟩
  have hzeros : (cs.reverse.takeWhile (· == '0')).reverse =
      zeros (cs.reverse.takeWhile (· == '0')).length := by
    rw [zeros, List.eq_replicate_iff]
    refine ⟨List.length_reverse, fun c hc => ?_⟩
    exact beq_iff_eq.1 (List.all_eq_true.1 List.all_takeWhile c (List.mem_reverse.1 hc))
  rw [← hzeros, dropTrailingZeros, ← List.reverse_append, List.takeWhile_append_dropWhile,
    List.reverse_reverse]

theorem getLast?_dropTrailingZeros (cs : List Char) :
    (dropTrailingZeros cs).getLast? ≠ some '0' := by
  intro h
  rw [dropTrailingZeros, List.getLast?_reverse] at h
  have := List.head?_dropWhile_not (· == '0') cs.reverse
  rw [h] at this
  exact absurd this (by decide)

theorem value_ofNat (n : Nat) (e : Int) : (ofNat n e).value = n * 10 ^ e := by
  obtain ⟨k, hk⟩ := dropTrailingZeros_append (Nat.toDigits 10 n)
  have hnat : n = Numeral.natOf (dropTrailingZeros (Nat.toDigits 10 n)) * 10 ^ k := by
    conv_lhs => rw [← Numeral.natOf_toDigits n, hk]
    rw [Numeral.natOf_append, Numeral.natOf_zeros, Nat.add_zero, zeros, List.length_replicate]
  have hlength := congrArg List.length hk
  rw [List.length_append, zeros, List.length_replicate] at hlength
  rw [value, ofNat]
  dsimp only
  rw [hlength, show ((_ + k : Nat) : Int) + e - _ = k + e by push_cast; ring, ten_zpow_add,
    zpow_natCast, ← mul_assoc]
  congr 1
  exact_mod_cast hnat.symm

theorem Plain.digits_ne_nil {d : Decimal} (hd : d.Plain) : d.digits ≠ [] := by
  obtain ⟨c, cs, heq, -⟩ := hd.start
  rw [heq]
  exact List.cons_ne_nil c cs

/-! The position of the point. -/

theorem digitCount_eq {n : Nat} (hn : 0 < n) : digitCount n = Nat.log 10 n + 1 := by
  have hpos := @Nat.length_toDigits_pos 10 n
  have hle := (@Nat.length_toDigits_le_iff 10 n (Nat.log 10 n + 1) (by norm_num) (by omega)).2
    (Nat.lt_pow_succ_log_self (by norm_num) n)
  have hge : ¬ (Nat.toDigits 10 n).length ≤ Nat.log 10 n := by
    intro h
    have hlt := (Nat.length_toDigits_le_iff (by norm_num) (by omega)).1 h
    have hpow := Nat.pow_log_le_self 10 (show n ≠ 0 by omega)
    omega
  unfold digitCount
  omega

theorem point_ofNat {n : Nat} (hn : 0 < n) (e : Int) :
    (ofNat n e).point = Int.log 10 ((n : ℚ) * 10 ^ e) + 1 := by
  have hlength : ((Nat.toDigits 10 n).length : Int) = Nat.log 10 n + 1 := by
    exact_mod_cast digitCount_eq hn
  rw [log_ten_mul_zpow (by exact_mod_cast hn), Int.log_natCast, ofNat]
  dsimp only
  rw [hlength]
  ring

theorem pointOf_eq {num den : Nat} (hnum : 0 < num) (hden : 0 < den) :
    pointOf num den = Int.log 10 ((num : ℚ) / den) + 1 := by
  have hdenq : (0 : ℚ) < den := by exact_mod_cast hden
  unfold pointOf
  split
  · next hle =>
    have hone : (1 : ℚ) ≤ num / den := by
      rw [le_div_iff₀ hdenq, one_mul]
      exact_mod_cast hle
    rw [Int.log_of_one_le_right _ hone, Nat.floor_div_eq_div, digitCount_eq (Nat.div_pos hle hden)]
    push_cast
    rfl
  · next hlt =>
    -- The reciprocal lies above the quotient of `den - 1` and at most one above it.
    have hquotient : 0 < (den - 1) / num := Nat.div_pos (by omega) hnum
    rw [digitCount_eq hquotient]
    have hlow := Nat.pow_log_le_self 10 (show (den - 1) / num ≠ 0 by omega)
    have hhigh : _ < 10 ^ (_ + 1) :=
      Nat.lt_pow_succ_log_self (show 1 < 10 by norm_num) ((den - 1) / num)
    generalize Nat.log 10 ((den - 1) / num) = k at hlow hhigh
    have hlow' : 10 ^ k * num < den := by
      have := (Nat.le_div_iff_mul_le hnum).1 hlow
      omega
    have hhigh' : den ≤ 10 ^ (k + 1) * num := by
      have := (Nat.div_lt_iff_lt_mul hnum).1 hhigh
      omega
    have hlog : Int.log 10 ((num : ℚ) / den) = -((k : ℤ) + 1) := by
      refine log_ten_eq ?_ ?_
      · rw [le_div_iff₀ hdenq, zpow_neg, inv_mul_le_iff₀ (ten_zpow_pos _)]
        exact_mod_cast hhigh'
      · rw [show -((k : ℤ) + 1) + 1 = -k by ring, div_lt_iff₀ hdenq, zpow_neg,
          lt_inv_mul_iff₀ (ten_zpow_pos _)]
        exact_mod_cast hlow'
    rw [hlog]
    push_cast
    ring

theorem scaled_eq (num den : Nat) (s : Int) :
    ((scaled num den s).1 : ℚ) / (scaled num den s).2 = num / den * 10 ^ s := by
  unfold scaled
  split
  · next hs =>
    obtain ⟨n, rfl⟩ := Int.eq_ofNat_of_zero_le hs
    simp only [Int.toNat_natCast, Nat.pow_eq, Nat.cast_mul, Nat.cast_pow, Nat.cast_ofNat, zpow_natCast]
    ring
  · next hs =>
    obtain ⟨n, rfl⟩ : ∃ n : ℕ, s = -(n : ℤ) := ⟨(-s).toNat, by omega⟩
    simp only [neg_neg, Int.toNat_natCast, Nat.pow_eq, Nat.cast_mul, Nat.cast_pow, Nat.cast_ofNat,
      zpow_neg, zpow_natCast]
    rw [div_mul_eq_div_div, div_eq_mul_inv (_ / _)]

theorem scaled_snd_pos (num : Nat) {den : Nat} (hden : 0 < den) (s : Int) :
    0 < (scaled num den s).2 := by
  unfold scaled
  split
  · exact hden
  · exact Nat.mul_pos hden (Nat.pow_pos (by norm_num))

end Decimal

namespace Double

variable {x : Double}

def size (x : Double) : ℚ := x.significand * 2 ^ ((x.scale : ℤ) - 1075)

def value (x : Double) : ℚ := if x.negative then -x.size else x.size

theorem size_pos (hx : x.isZero = false) : 0 < x.size := by
  have hsignificand : (0 : ℚ) < x.significand := by exact_mod_cast significand_pos hx
  unfold size
  positivity

theorem abs_value (x : Double) : |x.value| = x.size := by
  have hnonneg : 0 ≤ x.size := by
    unfold size
    positivity
  unfold value
  split
  · rw [abs_neg, abs_of_nonneg hnonneg]
  · exact abs_of_nonneg hnonneg

theorem shifted_eq (n place origin : Nat) :
    (((if origin ≤ place then (n <<< (place - origin), 1) else (n, 1 <<< (origin - place)) :
      Nat × Nat).1 : ℚ) / (if origin ≤ place then (n <<< (place - origin), 1)
        else (n, 1 <<< (origin - place)) : Nat × Nat).2) = n * 2 ^ ((place : ℤ) - origin) := by
  split
  · next h =>
    have hplace : (place : ℤ) - origin = ((place - origin : ℕ) : ℤ) := by omega
    rw [hplace, zpow_natCast, Nat.shiftLeft_eq]
    push_cast
    rw [div_one]
  · next h =>
    have hplace : (place : ℤ) - origin = -((origin - place : ℕ) : ℤ) := by omega
    rw [hplace, zpow_neg, zpow_natCast, Nat.shiftLeft_eq]
    push_cast
    rw [one_mul, div_eq_mul_inv]

theorem magnitude_eq (x : Double) : (x.magnitude.1 : ℚ) / x.magnitude.2 = x.size :=
  shifted_eq x.significand x.scale 1075

theorem magnitude_pos (hx : x.isZero = false) : 0 < x.magnitude.1 ∧ 0 < x.magnitude.2 := by
  have hsignificand := significand_pos hx
  unfold magnitude
  split
  · rw [Nat.shiftLeft_eq]
    exact ⟨Nat.mul_pos hsignificand (Nat.two_pow_pos _), Nat.one_pos⟩
  · rw [Nat.shiftLeft_eq]
    exact ⟨hsignificand, Nat.mul_pos Nat.one_pos (Nat.two_pow_pos _)⟩

end Double
end IntervalStack
