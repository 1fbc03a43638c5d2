import IntervalStack.Proofs.Decimals.SixDigits

/-! The `%g` text of a double is a numeral for the nearest number with six significant digits, in the
form that the place of the first of them asks for. -/

namespace IntervalStack

namespace Numeral

/-- A text without needless digits: it has an exponent where the place of the first digit lies below
`-4` or is `6` or more, and then one digit in front of the point. -/
structure InGeneralForm (n : Numeral) (place : ℤ) : Prop where
  proper : n.Proper
  positional_iff : n.exponent = none ↔ -4 ≤ place ∧ place < 6
  leading : n.exponent ≠ none → ∃ c, c ≠ '0' ∧ n.whole = [c]
  exponent : ∀ e ∈ n.exponent, e.1 = decide (place < 0) ∧ natOf e.2 = place.natAbs ∧
    2 ≤ e.2.length ∧ (2 < e.2.length → e.2.head? ≠ some '0')
  fraction : ∀ ds ∈ n.fraction, ds ≠ [] ∧ ds.getLast? ≠ some '0'

def exponentDigits (e : ℤ) : List Char :=
  Decimal.zeros (2 - (Nat.toDigits 10 e.natAbs).length) ++ Nat.toDigits 10 e.natAbs

def optional (ds : List Char) : Option (List Char) := if ds.isEmpty then none else some ds

def ofDigits (negative : Bool) (d : Decimal) : Numeral :=
  if -3 ≤ d.point ∧ d.point ≤ 6 then ⟨negative, d.positional.1, optional d.positional.2, none⟩
  else
    ⟨negative, d.scientific.1, optional d.scientific.2.1,
      some (decide (d.scientific.2.2 < 0), exponentDigits d.scientific.2.2)⟩

theorem natOf_exponentDigits (e : ℤ) : natOf (exponentDigits e) = e.natAbs := by
  rw [exponentDigits, natOf_zeros_append, natOf_toDigits]

theorem isDigit_of_mem_exponentDigits {e : ℤ} {c : Char} (hc : c ∈ exponentDigits e) :
    Json.isDigit c := by
  rcases List.mem_append.1 hc with hc | hc
  · exact isDigit_of_mem_zeros hc
  · exact Json.isDigit_of_mem_toDigits hc

theorem two_le_length_exponentDigits (e : ℤ) : 2 ≤ (exponentDigits e).length := by
  rw [exponentDigits, List.length_append, Decimal.zeros, List.length_replicate]
  omega

theorem head?_exponentDigits {e : ℤ} (h : 2 < (exponentDigits e).length) :
    (exponentDigits e).head? ≠ some '0' := by
  rw [exponentDigits, List.length_append, Decimal.zeros, List.length_replicate] at h
  have hpos : 0 < e.natAbs := by
    refine Nat.pos_of_ne_zero fun hzero => ?_
    rw [hzero, show (Nat.toDigits 10 0).length = 1 from rfl] at h
    omega
  obtain ⟨c, cs, heq, hc⟩ := toDigits_start hpos
  rw [exponentDigits, Nat.sub_eq_zero_of_le (by omega), heq]
  exact fun hhead => hc (Option.some.inj hhead)

variable {d : Decimal} {negative : Bool}

theorem getLast?_positional (hd : d.digits ≠ []) (hlast : d.digits.getLast? ≠ some '0') :
    d.positional.2.getLast? ≠ some '0' := by
  unfold Decimal.positional
  split
  · rw [List.getLast?_append_of_ne_nil _ hd]
    exact hlast
  · rw [List.getLast?_drop]
    split
    · exact Option.some_ne_none _ ∘ Eq.symm
    · exact hlast

theorem optional_fraction {ds : List Char} (hlast : ds.getLast? ≠ some '0') :
    ∀ es ∈ optional ds, es ≠ [] ∧ es.getLast? ≠ some '0' := by
  intro es hes
  unfold optional at hes
  split at hes
  · cases hes
  · next hne =>
    obtain rfl := Option.some.inj hes
    exact ⟨by simpa using hne, hlast⟩

theorem getD_optional (ds : List Char) : (optional ds).getD [] = ds := by
  cases ds <;> rfl

theorem ofDigits_inGeneralForm (hd : d.Plain) (hlast : d.digits.getLast? ≠ some '0') :
    (ofDigits negative d).InGeneralForm (d.point - 1) := by
  obtain ⟨c, cs, heq, hzero⟩ := hd.start
  unfold ofDigits
  split
  · next hpoint =>
    exact {
      proper := proper_positional hd (optional_digits (positional_whole hd).2.1)
      positional_iff := ⟨fun _ => by omega, fun _ => rfl⟩
      leading := fun h => absurd rfl h
      exponent := nofun
      fraction := optional_fraction (getLast?_positional hd.digits_ne_nil hlast) }
  · next hpoint =>
    refine {
      proper := proper_scientific hd ?_ fun _ => isDigit_of_mem_exponentDigits
      positional_iff := ⟨nofun, fun h => by omega⟩
      leading := fun _ => ⟨c, ?_, ?_⟩
      exponent := fun e he => ?_
      fraction := optional_fraction ?_ }
    · exact List.ne_nil_of_length_pos (Nat.lt_of_lt_of_le two_pos (two_le_length_exponentDigits _))
    · intro hc
      have := (hzero hc).2
      omega
    · rw [Decimal.scientific, heq]
      rfl
    · obtain rfl := Option.some.inj he
      exact ⟨rfl, natOf_exponentDigits _, two_le_length_exponentDigits _, head?_exponentDigits⟩
    · rw [Decimal.scientific, List.getLast?_drop]
      split
      · exact Option.some_ne_none _ ∘ Eq.symm
      · exact hlast

theorem value_ofDigits (hd : d.digits ≠ []) :
    (ofDigits negative d).value = if negative then -d.value else d.value := by
  have hmagnitude : (ofDigits negative d).magnitude = d.value := by
    unfold ofDigits
    split
    · exact magnitude_positional (.inl (getD_optional _))
    · exact magnitude_scientific hd (natOf_exponentDigits _) (getD_optional _)
  have hnegative : (ofDigits negative d).negative = negative := by
    unfold ofDigits
    split <;> rfl
  rw [value, hmagnitude, hnegative]

end Numeral

namespace Double

variable {x : Double}

theorem withFraction_toList (negative : Bool) (whole fraction : List Char) :
    (withFraction whole fraction).toList =
      whole ++ (⟨negative, whole, Numeral.optional fraction, none⟩ : Numeral).fractionText := by
  rw [withFraction, String.toList_ofList, Numeral.fractionText, Numeral.optional]
  dsimp only
  split
  · rw [List.append_nil]
  · rfl

theorem exponentText_toList (e : ℤ) :
    (exponentText e).toList = 'e' :: (if e < 0 then '-' else '+') :: Numeral.exponentDigits e := by
  have hdigits : (toString e.natAbs).toList = Nat.toDigits 10 e.natAbs := by
    rw [Nat.toString_eq_ofList_toDigits, String.toList_ofList]
  have hpadded : (if (toString e.natAbs).length < 2 then "0" ++ toString e.natAbs
      else toString e.natAbs).toList = Numeral.exponentDigits e := by
    have hpos := @Nat.length_toDigits_pos 10 e.natAbs
    rw [Numeral.exponentDigits, ← String.length_toList, hdigits]
    split
    · rw [String.toList_append, hdigits, show 2 - _ = 1 by omega]
      rfl
    · rw [hdigits, Nat.sub_eq_zero_of_le (by omega)]
      rfl
  rw [exponentText, String.toList_append, hpadded]
  split <;> rfl

theorem general_eq (hfinite : x.isFinite = true) (hx : x.isZero = false) :
    x.general = (Numeral.ofDigits x.negative x.sixDigits).text := by
  have hnan : x.isNaN = false := by
    unfold isFinite at hfinite
    unfold isNaN
    simp only [ne_eq, decide_eq_true_eq] at hfinite
    simp [hfinite]
  have hsign : (if x.negative then "-" else "").toList = _ := x.sign_toList
  rw [general, hnan, hfinite, hx, Numeral.ofDigits]
  simp only [Bool.false_eq_true, if_false, Bool.not_true, toDecimals_sixDigits hx]
  apply String.toList_inj.1
  split
  · rw [String.toList_append, hsign, withFraction_toList x.negative,
      Numeral.text_toList, Numeral.exponentText, List.append_nil]
  · rw [String.toList_append, String.toList_append, hsign, exponentText_toList,
      withFraction_toList x.negative, Numeral.text_toList, List.append_assoc, List.append_assoc]
    simp only [Numeral.exponentText, decide_eq_true_eq]
    rfl

theorem roundsAt_value {e : ℤ} {v : ℚ} (h : RoundsAt e x.size v) :
    RoundsAt e x.value (if x.negative then -v else v) := by
  unfold value
  split
  · exact h.neg
  · exact h

theorem general_writes_six_digits (hfinite : x.isFinite = true) (hx : x.isZero = false) :
    ∃ (v : ℚ) (n : Numeral), (∀ w, RoundsTo 6 x.value w ↔ w = v) ∧
      RoundsAt (Int.log 10 |v| - 5) x.value v ∧ x.general = n.text ∧
      Json.readNumeral x.general.toList = some (n, []) ∧ n.value = v ∧
      n.InGeneralForm (Int.log 10 |v|) := by
  obtain ⟨hplain, hlast, hpos, hpoint, hrounds, hplace⟩ := sixDigits_rounds hx
  have hform := @Numeral.ofDigits_inGeneralForm _ x.negative hplain hlast
  rw [hpoint, add_sub_cancel_right] at hform
  have habs : |if x.negative then -x.sixDigits.value else x.sixDigits.value| = x.sixDigits.value := by
    split
    · rw [abs_neg, abs_of_pos hpos]
    · exact abs_of_pos hpos
  have hsix : RoundsTo 6 x.value (if x.negative then -x.sixDigits.value else x.sixDigits.value) := by
    rw [RoundsTo, abs_value, show ((6 : ℕ) : ℤ) - 1 = 5 by norm_num]
    exact roundsAt_value hrounds
  refine ⟨_, Numeral.ofDigits x.negative x.sixDigits, fun w => ⟨fun hw => hw.unique hsix, ?_⟩, ?_,
    general_eq hfinite hx, ?_, Numeral.value_ofDigits hplain.digits_ne_nil, ?_⟩
  · rintro rfl
    exact hsix
  · rw [habs]
    exact roundsAt_value hplace
  · rw [general_eq hfinite hx, ← List.append_nil (Numeral.text _).toList]
    exact Numeral.readNumeral_text hform.proper nofun
  · rwa [habs]

/-- Half way between two numbers of six digits, of which the even one is a power of ten. -/
def halfBelowMillion : Double := ⟨0xC12E847F00000000⟩

theorem general_writes_six_digits_half :
    halfBelowMillion.isFinite = true ∧ halfBelowMillion.isZero = false ∧
      halfBelowMillion.general = "-1e+06" ∧
      ∃ (v : ℚ) (n : Numeral), (∀ w, RoundsTo 6 halfBelowMillion.value w ↔ w = v) ∧
        RoundsAt (Int.log 10 |v| - 5) halfBelowMillion.value v ∧ halfBelowMillion.general = n.text ∧
        Json.readNumeral halfBelowMillion.general.toList = some (n, []) ∧ n.value = v ∧
        n.InGeneralForm (Int.log 10 |v|) :=
  ⟨by decide, by decide, by decide +kernel, general_writes_six_digits (by decide) (by decide)⟩

end Double
end IntervalStack
