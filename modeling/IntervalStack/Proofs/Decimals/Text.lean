import IntervalStack.Proofs.Decimals.Shortest

/-! The text of a double in listings is a numeral for its shortest decimal, and no two doubles that are
numbers or infinite have the same text. -/

namespace IntervalStack

namespace Numeral

def signedExponent : Option (Bool × List Char) → List Char
  | some (negative, ds) => 'e' :: ((if negative then ['-'] else []) ++ ds)
  | none => []

theorem readExponent_signed {n : Numeral} (hn : n.Proper) :
    Json.readExponent (signedExponent n.exponent) = some (n.exponent, []) := by
  cases he : n.exponent with
  | none => rfl
  | some e =>
    obtain ⟨negative, ds⟩ := e
    obtain ⟨hne, hds⟩ := hn.exponent _ he
    have hend : Json.EndsNumber [] := nofun
    have hdigits := readExponentDigits_append hne hds hend negative
    rw [List.append_nil] at hdigits
    cases negative with
    | true => exact hdigits
    | false =>
      -- A digit is none of the signs that the reader looks for.
      obtain ⟨c, cs, rfl⟩ := List.exists_cons_of_ne_nil hne
      have hc := hds c List.mem_cons_self
      rw [signedExponent, if_neg Bool.false_ne_true, List.nil_append, Json.readExponent.eq_def]
      have hminus : c ≠ '-' := by rintro rfl; exact absurd hc (by decide)
      have hplus : c ≠ '+' := by rintro rfl; exact absurd hc (by decide)
      split <;> simp_all

theorem lineBreak_notMem_digits {ds : List Char} (hds : ∀ c ∈ ds, Json.isDigit c) : '\n' ∉ ds :=
  fun h => absurd (hds _ h) (by decide)

theorem lineBreak_notMem_parts {n : Numeral} (hn : n.Proper) :
    '\n' ∉ n.whole ++ (n.fractionText ++ signedExponent n.exponent) := by
  simp only [List.mem_append, not_or]
  refine ⟨lineBreak_notMem_digits hn.whole_digits, ?_, ?_⟩
  · unfold fractionText
    cases hf : n.fraction with
    | none => exact List.not_mem_nil
    | some ds =>
      exact List.not_mem_cons_of_ne_of_not_mem (by decide)
        (lineBreak_notMem_digits (hn.fraction ds hf).2)
  · cases he : n.exponent with
    | none => exact List.not_mem_nil
    | some e =>
      have hds := lineBreak_notMem_digits (hn.exponent e he).2
      obtain ⟨negative, ds⟩ := e
      refine List.not_mem_cons_of_ne_of_not_mem (by decide) ?_
      cases negative with
      | true => exact List.not_mem_cons_of_ne_of_not_mem (by decide) hds
      | false => exact hds

theorem int_toList (e : ℤ) :
    (toString e).toList = (if e < 0 then ['-'] else []) ++ Nat.toDigits 10 e.natAbs := by
  have hnat (n : ℕ) : n.repr.toList = Nat.toDigits 10 n := by
    rw [← Nat.toString_eq_repr, Nat.toString_eq_ofList_toDigits, String.toList_ofList]
  cases e with
  | ofNat n => exact hnat n
  | negSucc n =>
    rw [if_pos (Int.negSucc_lt_zero n), ← hnat, Int.toString_eq_repr]
    exact String.toList_append

theorem int_injective {a b : ℤ} (h : toString a = toString b) : a = b := by
  have hread (e : ℤ) : Json.readNumeral (toString e).toList = some (ofInt e, []) := by
    have hparts := @readNumeral_parts (ofInt e) [] (proper_ofInt e) [] rfl nofun
    simp only [ofInt, decide_eq_true_eq, fractionText, List.append_nil] at hparts
    rw [int_toList, hparts, ofInt]
  have hnumeral := hread a
  rw [h, hread b] at hnumeral
  have hinteger := congrArg toInt? (Prod.mk.inj (Option.some.inj hnumeral)).1
  rw [toInt?_ofInt, toInt?_ofInt] at hinteger
  exact (Option.some.inj hinteger).symm

theorem nat_injective {a b : ℕ} (h : toString a = toString b) : a = b :=
  Int.ofNat.inj (int_injective h)

end Numeral

namespace Double

variable {x y : Double} {format : TextFormat}

theorem finiteText_toList (format : TextFormat) (x : Double) :
    (x.finiteText format).toList = (if x.negative then ['-'] else []) ++
      ((Numeral.ofShortest format x).whole ++ ((Numeral.ofShortest format x).fractionText ++
        Numeral.signedExponent (Numeral.ofShortest format x).exponent)) := by
  unfold finiteText Numeral.ofShortest
  split
  · rw [String.toList_append, sign_toList]
    rfl
  · dsimp only
    split
    · rw [String.toList_append, sign_toList, String.toList_ofList]
      simp only [Numeral.fractionText, Numeral.signedExponent, List.append_nil]
    · rw [String.toList_append, String.toList_append, String.toList_append, sign_toList,
        String.toList_ofList, Numeral.int_toList]
      generalize x.shortest format.tie = d
      simp only [Numeral.fractionText, Numeral.signedExponent, List.append_assoc, decide_eq_true_eq]
      cases d.scientific.2.1 <;> rfl

theorem negative_ofShortest (format : TextFormat) (x : Double) :
    (Numeral.ofShortest format x).negative = x.negative := by
  unfold Numeral.ofShortest
  split
  · rfl
  · dsimp only
    split <;> rfl

theorem magnitude_of_isZero (hx : x.isZero = true) :
    (Numeral.ofShortest format x).magnitude = 0 := by
  rw [Numeral.ofShortest, if_pos hx, Numeral.magnitude,
    show Numeral.natOf (['0'] ++ (some ['0']).getD []) = 0 from rfl, Nat.cast_zero, zero_mul]

theorem magnitude_ofShortest (hx : x.isZero = false) :
    (Numeral.ofShortest format x).magnitude = (x.shortest format.tie).value := by
  rw [Numeral.ofShortest, hx, if_neg Bool.false_ne_true]
  dsimp only
  split
  · refine Numeral.magnitude_positional ?_
    split
    · next hempty => exact .inr ⟨List.isEmpty_iff.1 hempty, rfl⟩
    · exact .inl rfl
  · refine Numeral.magnitude_scientific (plain_shortest hx _).digits_ne_nil
      (Numeral.natOf_toDigits _) ?_
    cases hds : (x.shortest format.tie).scientific.2.1 <;> rfl

theorem readNumeral_finiteText (format : TextFormat) (x : Double) :
    Json.readNumeral (x.finiteText format).toList = some (Numeral.ofShortest format x, []) := by
  have hproper := Numeral.proper_ofShortest format x
  rw [finiteText_toList, ← negative_ofShortest format]
  refine Numeral.readNumeral_parts hproper (Numeral.readExponent_signed hproper) fun c hc => ?_
  cases he : (Numeral.ofShortest format x).exponent with
  | none =>
    rw [he] at hc
    cases hc
  | some e =>
    rw [he] at hc
    obtain rfl : 'e' = c := Option.some.inj hc
    decide

theorem eq_of_zeros (hnegative : x.negative = y.negative) (hx : x.isZero = true)
    (hy : y.isZero = true) : x = y := by
  simp only [isZero, Bool.and_eq_true, decide_eq_true_eq] at hx hy
  refine eq_of_fields hnegative ?_ ?_
  · rw [scale, scale, hx.1, hy.1]
  · rw [significand, significand, hx.1, hx.2, hy.1, hy.2]

theorem finiteText_injective (h : x.finiteText format = y.finiteText format) : x = y := by
  have hread := readNumeral_finiteText format x
  rw [h, readNumeral_finiteText] at hread
  have hnumeral : Numeral.ofShortest format x = Numeral.ofShortest format y :=
    (Prod.mk.inj (Option.some.inj hread)).1.symm
  have hnegative : x.negative = y.negative := by
    rw [← negative_ofShortest format x, hnumeral, negative_ofShortest]
  have hmagnitude := congrArg Numeral.magnitude hnumeral
  cases hx : x.isZero with
  | true =>
    cases hy : y.isZero with
    | true => exact eq_of_zeros hnegative hx hy
    | false =>
      rw [magnitude_of_isZero hx, magnitude_ofShortest hy] at hmagnitude
      exact absurd hmagnitude ((covers_shortest hy format.tie).pos hy).ne
  | false =>
    cases hy : y.isZero with
    | true =>
      rw [magnitude_of_isZero hy, magnitude_ofShortest hx] at hmagnitude
      exact absurd hmagnitude ((covers_shortest hx format.tie).pos hx).ne'
    | false =>
      rw [magnitude_ofShortest hx, magnitude_ofShortest hy] at hmagnitude
      have hcovers := covers_shortest hy format.tie
      rw [← hmagnitude] at hcovers
      exact eq_of_covers hnegative (covers_shortest hx format.tie) hcovers

theorem eq_of_infinities (hnegative : x.negative = y.negative)
    (hx : x.isNaN = false) (hxinf : x.isFinite = false) (hy : y.isNaN = false)
    (hyinf : y.isFinite = false) : x = y := by
  simp only [isFinite, ne_eq, decide_eq_false_iff_not, Decidable.not_not] at hxinf hyinf
  simp only [isNaN, hxinf, hyinf, decide_true, Bool.true_and, decide_eq_false_iff_not, ne_eq,
    Decidable.not_not] at hx hy
  refine eq_of_fields hnegative ?_ ?_
  · rw [scale, scale, hxinf, hyinf]
  · rw [significand, significand, hxinf, hyinf, hx, hy]

theorem readNumeral_infinite (x : Double) : Json.readNumeral (x.sign ++ "inf").toList = none := by
  unfold sign
  split <;> rfl

theorem text_injective (hx : x.isNaN = false) (hy : y.isNaN = false) (h : x.text = y.text) :
    x = y := by
  rw [text, text, hx, hy, if_neg Bool.false_ne_true, if_neg Bool.false_ne_true] at h
  cases hxfin : x.isFinite <;> cases hyfin : y.isFinite <;>
    simp only [hxfin, hyfin, if_true, if_false, Bool.false_eq_true] at h
  · have hsign : x.sign = y.sign := String.append_left_inj "inf" |>.1 h
    refine eq_of_infinities ?_ hx hxfin hy hyfin
    unfold sign at hsign
    cases hxneg : x.negative <;> cases hyneg : y.negative <;> simp_all
  · have hread := readNumeral_infinite x
    rw [h, readNumeral_finiteText] at hread
    cases hread
  · have hread := readNumeral_infinite y
    rw [← h, readNumeral_finiteText] at hread
    cases hread
  · exact finiteText_injective h

theorem lineBreak_notMem_text (x : Double) : '\n' ∉ x.text.toList := by
  unfold text
  split
  · decide
  · split
    · rw [finiteText_toList, List.mem_append, not_or]
      refine ⟨?_, Numeral.lineBreak_notMem_parts (Numeral.proper_ofShortest _ x)⟩
      split <;> decide
    · unfold sign
      split <;> decide

end Double
end IntervalStack
