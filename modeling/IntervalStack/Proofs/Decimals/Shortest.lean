import IntervalStack.Proofs.Decimals.Written

/-! The shortest decimal of a double lies among the numbers that round to it. No number rounds to two
doubles, so the decimal tells which one it was written for. -/

namespace IntervalStack

namespace Double

variable {x y : Double} {q : ℚ}

def quarter (x : Double) : ℚ := 2 ^ ((x.scale : ℤ) - 1077)

def lowest (x : Double) : ℚ := (4 * x.significand - x.gapBelow : ℕ) * x.quarter

def highest (x : Double) : ℚ := (4 * x.significand + 2 : ℕ) * x.quarter

def Covers (x : Double) (q : ℚ) : Prop :=
  if x.significand % 2 = 0 then x.lowest ≤ q ∧ q ≤ x.highest else x.lowest < q ∧ q < x.highest

theorem quarter_pos (x : Double) : 0 < x.quarter := zpow_pos two_pos _

theorem size_eq (x : Double) : x.size = 4 * x.significand * x.quarter := by
  rw [size, quarter, show (x.scale : ℤ) - 1075 = 2 + (x.scale - 1077) by ring,
    zpow_add₀ two_ne_zero, show (2 : ℚ) ^ (2 : ℤ) = 4 by norm_num]
  ring

theorem Covers.bounds (h : x.Covers q) : x.lowest ≤ q ∧ q ≤ x.highest ∧
    (x.significand % 2 ≠ 0 → x.lowest < q ∧ q < x.highest) := by
  unfold Covers at h
  split at h
  · next heven => exact ⟨h.1, h.2, fun hodd => absurd heven hodd⟩
  · exact ⟨h.1.le, h.2.le, fun _ => h⟩

theorem Covers.pos (hx : x.isZero = false) (h : x.Covers q) : 0 < q := by
  have hsignificand := significand_pos hx
  have hgap := x.gapBelow_le
  have hlowest : 0 < 4 * x.significand - x.gapBelow := by omega
  exact (mul_pos (by exact_mod_cast hlowest) x.quarter_pos).trans_le h.bounds.1

/-! No number rounds to two doubles. -/

/-- The numbers of a smaller double end where those of a larger one begin, or before; where they
meet, one of the significands is odd. -/
theorem highest_le_lowest (h : x.scale < y.scale ∨
      x.scale = y.scale ∧ x.significand < y.significand) :
    x.highest ≤ y.lowest ∧
      (x.highest = y.lowest → ¬ (x.significand % 2 = 0 ∧ y.significand % 2 = 0)) := by
  have hlow := x.quarter_pos
  have hx := x.fractionField_lt
  have hy := y.fractionField_lt
  rcases h with hscale | ⟨hscale, hsig⟩
  · -- The last place of the larger double is at least twice as wide.
    have htwice : 4 * x.significand + 2 ≤ 2 * (4 * y.significand - y.gapBelow) ∧
        (4 * x.significand + 2 = 2 * (4 * y.significand - y.gapBelow) →
          ¬ (x.significand % 2 = 0 ∧ y.significand % 2 = 0)) := by
      unfold scale at hscale
      unfold significand gapBelow
      split <;> split <;> split <;> omega
    have hquarter : 2 * x.quarter ≤ y.quarter := by
      unfold quarter
      rw [← zpow_one_add₀ two_ne_zero]
      exact zpow_le_zpow_right₀ one_le_two (by omega)
    have hwide : ((4 * x.significand + 2 : ℕ) : ℚ) ≤ 2 * (4 * y.significand - y.gapBelow : ℕ) := by
      exact_mod_cast htwice.1
    have hmiddle : (2 * (4 * y.significand - y.gapBelow : ℕ) : ℚ) * x.quarter ≤ y.lowest := by
      unfold lowest
      rw [mul_comm (2 : ℚ), mul_assoc]
      gcongr
    have hfirst : x.highest ≤ (2 * (4 * y.significand - y.gapBelow : ℕ) : ℚ) * x.quarter := by
      unfold highest
      gcongr
    refine ⟨hfirst.trans hmiddle, fun heq => htwice.2 ?_⟩
    have hmeet := le_antisymm hfirst (heq ▸ hmiddle)
    exact_mod_cast mul_right_cancel₀ hlow.ne' hmeet
  · have hnext : 4 * x.significand + 2 ≤ 4 * y.significand - y.gapBelow ∧
        (4 * x.significand + 2 = 4 * y.significand - y.gapBelow →
          ¬ (x.significand % 2 = 0 ∧ y.significand % 2 = 0)) := by
      unfold scale at hscale
      unfold significand at hsig ⊢
      unfold gapBelow
      split <;> split <;> split <;> simp_all <;> omega
    have hquarter : y.quarter = x.quarter := by rw [quarter, quarter, hscale]
    unfold highest lowest
    rw [hquarter]
    refine ⟨?_, fun heq => hnext.2 ?_⟩
    · have hle : ((4 * x.significand + 2 : ℕ) : ℚ) ≤ (4 * y.significand - y.gapBelow : ℕ) := by
        exact_mod_cast hnext.1
      gcongr
    · exact_mod_cast mul_right_cancel₀ hlow.ne' heq

theorem Covers.not_below (hx : x.Covers q) (hy : y.Covers q) :
    ¬ (x.scale < y.scale ∨ x.scale = y.scale ∧ x.significand < y.significand) := by
  intro h
  obtain ⟨hle, hmeet⟩ := highest_le_lowest h
  obtain ⟨-, hxle, hxlt⟩ := hx.bounds
  obtain ⟨hyle, -, hylt⟩ := hy.bounds
  refine hmeet (le_antisymm hle (hyle.trans hxle)) ⟨?_, ?_⟩
  · by_contra hodd
    exact absurd ((hxlt hodd).2.trans_le hle) (not_lt.2 hyle)
  · by_contra hodd
    exact absurd (hle.trans_lt (hylt hodd).1) (not_lt.2 hxle)

theorem eq_of_fields (hnegative : x.negative = y.negative) (hscale : x.scale = y.scale)
    (hsignificand : x.significand = y.significand) : x = y := by
  have hx := x.bits.toNat_lt
  have hy := y.bits.toNat_lt
  have hbits : x.bits.toNat = y.bits.toNat := by
    simp only [negative, decide_eq_decide] at hnegative
    unfold scale exponentField at hscale
    unfold significand exponentField fractionField at hsignificand
    split at hsignificand <;> split at hsignificand <;> omega
  obtain ⟨b⟩ := x
  obtain ⟨c⟩ := y
  exact congrArg Double.mk (UInt64.toNat_inj.1 hbits)

theorem eq_of_covers (hnegative : x.negative = y.negative) (hx : x.Covers q) (hy : y.Covers q) :
    x = y := by
  have hbelow := hx.not_below hy
  have habove := hy.not_below hx
  exact eq_of_fields hnegative (by omega) (by omega)

/-! Seventeen digits suffice. -/

theorem quarterUnit_eq (x : Double) : (x.quarterUnit.1 : ℚ) / x.quarterUnit.2 = x.quarter := by
  have h := shifted_eq 1 x.scale 1077
  rwa [Nat.cast_one, one_mul] at h

theorem quarterUnit_snd_pos (x : Double) : 0 < x.quarterUnit.2 := by
  unfold quarterUnit
  split
  · exact Nat.one_pos
  · rw [Nat.shiftLeft_eq]
    exact Nat.mul_pos Nat.one_pos (Nat.two_pow_pos _)

theorem readsBack_iff (x : Double) (s : ℤ) (k : ℕ) :
    x.readsBack (Decimal.scaled x.quarterUnit.1 x.quarterUnit.2 s).1
      (Decimal.scaled x.quarterUnit.1 x.quarterUnit.2 s).2 k = true ↔ x.Covers (k * 10 ^ (-s)) := by
  have hden := Decimal.scaled_snd_pos x.quarterUnit.1 x.quarterUnit_snd_pos s
  have hscaled := Decimal.scaled_eq x.quarterUnit.1 x.quarterUnit.2 s
  rw [quarterUnit_eq] at hscaled
  generalize Decimal.scaled x.quarterUnit.1 x.quarterUnit.2 s = p at hden hscaled ⊢
  obtain ⟨num, den⟩ := p
  have hdenq : (0 : ℚ) < den := by exact_mod_cast hden
  have hunit : 0 < (10 : ℚ) ^ s * den := mul_pos (ten_zpow_pos s) hdenq
  rw [div_eq_iff hdenq.ne', mul_assoc] at hscaled
  have hbound (a : ℕ) : ((a * num : ℕ) : ℚ) = a * x.quarter * (10 ^ s * den) := by
    push_cast
    rw [hscaled, mul_assoc]
  have hcandidate : ((k * den : ℕ) : ℚ) = k * 10 ^ (-s) * (10 ^ s * den) := by
    rw [← mul_assoc, mul_assoc (k : ℚ), ← ten_zpow_add, neg_add_cancel, zpow_zero, mul_one]
    push_cast
    rfl
  unfold readsBack Covers lowest highest
  split
  · rw [Bool.and_eq_true, decide_eq_true_eq, decide_eq_true_eq, ← @Nat.cast_le ℚ, ← @Nat.cast_le ℚ,
      hbound, hbound, hcandidate, mul_le_mul_iff_left₀ hunit, mul_le_mul_iff_left₀ hunit]
  · rw [Bool.and_eq_true, decide_eq_true_eq, decide_eq_true_eq, ← @Nat.cast_lt ℚ, ← @Nat.cast_lt ℚ,
      hbound, hbound, hcandidate, mul_lt_mul_iff_left₀ hunit, mul_lt_mul_iff_left₀ hunit]

theorem half_lt_gap {s : ℤ} (hlarge : (10 : ℚ) ^ 16 ≤ x.size * 10 ^ s) :
    1 / 2 < x.gapBelow * (x.quarter * 10 ^ s) ∧ 1 / 2 < 2 * (x.quarter * 10 ^ s) := by
  rw [size_eq, mul_assoc] at hlarge
  have hpos : 0 < x.quarter * (10 : ℚ) ^ s := mul_pos x.quarter_pos (ten_zpow_pos s)
  generalize x.quarter * (10 : ℚ) ^ s = w at hlarge hpos
  have hlt : (x.significand : ℚ) ≤ 0x20000000000000 := by exact_mod_cast x.significand_lt.le
  have hquarter : 1 / 4 < w := by nlinarith
  unfold gapBelow
  split
  · next hpower =>
    have hsignificand : x.significand = 0x10000000000000 := by
      unfold significand
      rw [if_neg (by omega), hpower.1]
    rw [hsignificand] at hlarge
    push_cast at hlarge ⊢
    constructor <;> linarith
  · push_cast
    constructor <;> linarith

theorem covers_of_near (hx : x.isZero = false) {s : ℤ} (hlarge : (10 : ℚ) ^ 16 ≤ x.size * 10 ^ s)
    {k : ℕ} (hnear : |x.size * 10 ^ s - k| ≤ 1 / 2) : x.Covers (k * 10 ^ (-s)) := by
  obtain ⟨hbelow, habove⟩ := half_lt_gap hlarge
  obtain ⟨hleft, hright⟩ := abs_le.1 hnear
  have hsignificand := significand_pos hx
  have hgap := x.gapBelow_le
  rw [size_eq] at hleft hright
  have hinside : x.lowest < k * 10 ^ (-s) ∧ k * 10 ^ (-s) < x.highest := by
    rw [zpow_neg, ← div_eq_mul_inv, lt_div_iff₀ (ten_zpow_pos s), div_lt_iff₀ (ten_zpow_pos s),
      lowest, highest, Nat.cast_sub (by omega)]
    push_cast
    constructor <;> linarith
  unfold Covers
  split
  · exact ⟨hinside.1.le, hinside.2.le⟩
  · exact hinside

theorem covers_floor (hx : x.isZero = false) {s : ℤ}
    (hlarge : (10 : ℚ) ^ 16 ≤ x.size * 10 ^ s) :
    x.Covers (⌊x.size * 10 ^ s⌋₊ * 10 ^ (-s)) ∨
      x.Covers ((⌊x.size * 10 ^ s⌋₊ + 1 : ℕ) * 10 ^ (-s)) := by
  have hle := Nat.floor_le (le_trans (by positivity) hlarge)
  have hlt := Nat.lt_floor_add_one (x.size * (10 : ℚ) ^ s)
  rcases le_total (x.size * 10 ^ s) (⌊x.size * 10 ^ s⌋₊ + 1 / 2) with hhalf | hhalf
  · exact .inl (covers_of_near hx hlarge (abs_le.2 ⟨by linarith, by linarith⟩))
  · refine .inr (covers_of_near hx hlarge (abs_le.2 ⟨?_, ?_⟩)) <;> push_cast <;> linarith

theorem scaled_floor (x : Double) (s : ℤ) :
    4 * x.significand * (Decimal.scaled x.quarterUnit.1 x.quarterUnit.2 s).1 /
      (Decimal.scaled x.quarterUnit.1 x.quarterUnit.2 s).2 = ⌊x.size * 10 ^ s⌋₊ := by
  rw [size_eq, mul_assoc _ x.quarter, ← quarterUnit_eq, ← Decimal.scaled_eq, ← mul_div_assoc,
    ← Nat.floor_div_eq_div (K := ℚ)]
  push_cast
  rfl

theorem isSome_of_choice {passes : ℕ → Bool} {k : ℕ} (h : passes k = true ∨ passes (k + 1) = true)
    (upper : Bool) (e : ℤ) :
    (if passes (k + 1) && (!passes k || upper) then some (Decimal.ofNat (k + 1) e)
      else if passes k then some (Decimal.ofNat k e) else none).isSome = true := by
  cases hk : passes k with
  | true => cases passes (k + 1) <;> cases upper <;> rfl
  | false =>
    have hup : passes (k + 1) = true := h.resolve_left (by rw [hk]; exact Bool.false_ne_true)
    rw [hup]
    rfl

theorem decimalOf_seventeen (hx : x.isZero = false) (tie : Tie) :
    (x.decimalOf tie 17).isSome = true := by
  have hnum : 0 < 4 * x.significand * x.quarterUnit.1 :=
    Nat.mul_pos (Nat.mul_pos (by norm_num) (significand_pos hx)) x.quarterUnit_pos
  have hvalue : ((4 * x.significand * x.quarterUnit.1 : ℕ) : ℚ) / x.quarterUnit.2 = x.size := by
    rw [size_eq, ← quarterUnit_eq, Nat.cast_mul, mul_div_assoc]
    push_cast
    rfl
  have hplace : (17 : ℕ) - Decimal.pointOf (4 * x.significand * x.quarterUnit.1) x.quarterUnit.2
      = 16 - Int.log 10 x.size := by
    rw [Decimal.pointOf_eq hnum x.quarterUnit_snd_pos, hvalue]
    push_cast
    ring
  have hlarge : (10 : ℚ) ^ 16 ≤ x.size * 10 ^ (16 - Int.log 10 x.size) := by
    have hlow := (log_ten_bounds (size_pos hx)).1
    calc (10 : ℚ) ^ 16 = 10 ^ Int.log 10 x.size * 10 ^ (16 - Int.log 10 x.size) := by
          rw [← ten_zpow_add, add_sub_cancel]
          norm_cast
      _ ≤ _ := by gcongr
  unfold decimalOf
  dsimp only
  rw [hplace, scaled_floor]
  apply @isSome_of_choice (x.readsBack _ _)
  rw [readsBack_iff, readsBack_iff]
  exact covers_floor hx hlarge

theorem covers_shortest (hx : x.isZero = false) (tie : Tie) : x.Covers (x.shortest tie).value := by
  unfold shortest
  cases hfind : (List.range' 1 17).findSome? (x.decimalOf tie) with
  | none =>
    have hnone := List.findSome?_eq_none_iff.1 hfind 17 (List.mem_range'_1.2 ⟨by norm_num, by norm_num⟩)
    have hsome := decimalOf_seventeen hx tie
    rw [hnone] at hsome
    cases hsome
  | some d =>
    obtain ⟨n, -, hd⟩ := List.exists_of_findSome?_eq_some hfind
    obtain ⟨s, k, hk, rfl⟩ := decimalOf_readsBack hd
    rw [Option.getD_some, Decimal.value_ofNat]
    exact (readsBack_iff x s k).1 hk

end Double
end IntervalStack
