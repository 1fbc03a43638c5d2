import IntervalStack.Json.Number
import IntervalStack.Json.Reader

/-! Numerals that the grammar of numbers admits. Those of whole numbers and of doubles are among
them, and each of them can be read off its text. -/

namespace IntervalStack

namespace Json

theorem isDigit_iff {c : Char} : isDigit c ↔ c.isDigit := by
  simp only [isDigit, Char.isDigit, Bool.and_eq_true, decide_eq_true_eq]
  exact Iff.rfl

theorem isDigit_of_mem_toDigits {n : Nat} {c : Char} (h : c ∈ Nat.toDigits 10 n) : isDigit c :=
  isDigit_iff.2 (Nat.isDigit_of_mem_toDigits (by decide) (by decide) h)

def EndsNumber (cs : List Char) : Prop :=
  ∀ c ∈ cs.head?, isDigit c = false ∧ c ≠ '.' ∧ c ≠ 'e' ∧ c ≠ 'E'

variable {ds rest : List Char}

theorem digits_append (hds : ∀ c ∈ ds, isDigit c) (hrest : ∀ c ∈ rest.head?, isDigit c = false) :
    (ds ++ rest).takeWhile isDigit = ds ∧ (ds ++ rest).dropWhile isDigit = rest := by
  rw [List.takeWhile_append_of_pos hds, List.dropWhile_append_of_pos hds]
  cases rest with
  | nil => simp
  | cons c cs => simp [hrest c rfl]

end Json

namespace Numeral

open Json (isDigit EndsNumber digits_append)

/-- Digits in front, with no zero before others; digits behind a point and in an exponent. -/
structure Proper (n : Numeral) : Prop where
  whole_digits : ∀ c ∈ n.whole, isDigit c
  whole_start : ∃ c cs, n.whole = c :: cs ∧ (c = '0' → cs = [])
  fraction : ∀ ds ∈ n.fraction, ds ≠ [] ∧ ∀ c ∈ ds, isDigit c
  exponent : ∀ e ∈ n.exponent, e.2 ≠ [] ∧ ∀ c ∈ e.2, isDigit c

/-! Reading. -/

variable {n : Numeral} {rest : List Char}

theorem readWhole_append (hn : n.Proper) (hrest : ∀ c ∈ rest.head?, isDigit c = false) :
    Json.readWhole (n.whole ++ rest) = some (n.whole, rest) := by
  obtain ⟨htake, hdrop⟩ := digits_append hn.whole_digits hrest
  obtain ⟨c, cs, heq, hzero⟩ := hn.whole_start
  rw [Json.readWhole, htake, hdrop]
  split
  · next hnil => simp [hnil] at heq
  · next hlong =>
    rw [hlong] at heq
    obtain ⟨rfl, rfl⟩ := List.cons.inj heq
    exact absurd (hzero rfl) (List.cons_ne_nil _ _)
  · rfl

def fractionText (n : Numeral) : List Char :=
  match n.fraction with
  | some ds => '.' :: ds
  | none => []

def exponentText (n : Numeral) : List Char :=
  match n.exponent with
  | some (negative, ds) => 'e' :: (if negative then '-' else '+') :: ds
  | none => []

theorem text_toList (n : Numeral) :
    n.text.toList = (if n.negative then ['-'] else []) ++
      (n.whole ++ (n.fractionText ++ n.exponentText)) := by
  simp only [text, String.toList_ofList, List.append_assoc]
  rfl

theorem readFraction_append (hn : n.Proper)
    (hrest : ∀ c ∈ rest.head?, isDigit c = false ∧ c ≠ '.') :
    Json.readFraction (n.fractionText ++ rest) = some (n.fraction, rest) := by
  unfold fractionText
  cases hf : n.fraction with
  | none =>
    rw [List.nil_append, Json.readFraction.eq_def]
    split
    · next cs => exact absurd rfl (hrest '.' rfl).2
    · rfl
  | some ds =>
    obtain ⟨hne, hds⟩ := hn.fraction ds hf
    obtain ⟨htake, hdrop⟩ := digits_append hds fun c hc => (hrest c hc).1
    simp only [List.cons_append, Json.readFraction, htake, hdrop]
    rw [if_neg (by simpa using hne)]

theorem readExponentDigits_append {ds : List Char} (hne : ds ≠ []) (hds : ∀ c ∈ ds, isDigit c)
    (hrest : EndsNumber rest) (negative : Bool) :
    Json.readExponentDigits negative (ds ++ rest) = some (some (negative, ds), rest) := by
  obtain ⟨htake, hdrop⟩ := digits_append hds fun c hc => (hrest c hc).1
  simp only [Json.readExponentDigits, htake, hdrop]
  rw [if_neg (by simpa using hne)]

theorem readExponent_append (hn : n.Proper) (hrest : EndsNumber rest) :
    Json.readExponent (n.exponentText ++ rest) = some (n.exponent, rest) := by
  unfold exponentText
  cases he : n.exponent with
  | none =>
    have hstart : ∀ c ∈ rest.head?, c ≠ 'e' ∧ c ≠ 'E' := fun c hc => (hrest c hc).2.2
    rw [List.nil_append, Json.readExponent.eq_def]
    split <;> first | rfl | exact absurd rfl (hstart _ rfl).1 | exact absurd rfl (hstart _ rfl).2
  | some e =>
    obtain ⟨negative, ds⟩ := e
    obtain ⟨hne, hds⟩ := hn.exponent _ he
    cases negative <;> exact readExponentDigits_append hne hds hrest _

theorem readNumeral_parts (hn : n.Proper) {tail : List Char}
    (htail : Json.readExponent tail = some (n.exponent, rest))
    (hstart : ∀ c ∈ tail.head?, isDigit c = false ∧ c ≠ '.') :
    Json.readNumeral ((if n.negative then ['-'] else []) ++ (n.whole ++ (n.fractionText ++ tail)))
      = some (n, rest) := by
  have hfraction : ∀ c ∈ (n.fractionText ++ tail).head?, isDigit c = false := by
    unfold fractionText
    cases n.fraction with
    | none => exact fun c hc => (hstart c hc).1
    | some ds =>
      intro c hc
      obtain rfl : '.' = c := by simpa using hc
      decide
  have hmagnitude (negative : Bool) :
      Json.readMagnitude negative (n.whole ++ (n.fractionText ++ tail))
        = some (⟨negative, n.whole, n.fraction, n.exponent⟩, rest) := by
    simp only [Json.readMagnitude, readWhole_append hn hfraction,
      readFraction_append hn hstart, htail, Option.bind_eq_bind, Option.bind_some, Option.pure_def]
  obtain ⟨negative, whole, fraction, exponent⟩ := n
  cases negative with
  | true => exact hmagnitude true
  | false =>
    obtain ⟨c, cs, heq, -⟩ := hn.whole_start
    have hc : isDigit c := hn.whole_digits c (heq ▸ List.mem_cons_self)
    rw [if_neg (by simp), List.nil_append, Json.readNumeral.eq_def]
    split
    · next hminus =>
      rw [heq] at hminus
      obtain ⟨rfl, -⟩ := List.cons.inj hminus
      exact absurd hc (by decide)
    · exact hmagnitude false

theorem readNumeral_text (hn : n.Proper) (hrest : EndsNumber rest) :
    Json.readNumeral (n.text.toList ++ rest) = some (n, rest) := by
  have hstart : ∀ c ∈ (n.exponentText ++ rest).head?, isDigit c = false ∧ c ≠ '.' := by
    unfold exponentText
    cases n.exponent with
    | none => exact fun c hc => ⟨(hrest c hc).1, (hrest c hc).2.1⟩
    | some e =>
      intro c hc
      obtain rfl : 'e' = c := by simpa using hc
      decide
  rw [text_toList, List.append_assoc, List.append_assoc, List.append_assoc]
  exact readNumeral_parts hn (readExponent_append hn hrest) hstart

theorem text_start (hn : n.Proper) : ∃ c cs, n.text.toList = c :: cs ∧ (c = '-' ∨ isDigit c) := by
  obtain ⟨c, cs, heq, -⟩ := hn.whole_start
  rw [text_toList]
  cases n.negative with
  | true => exact ⟨'-', _, rfl, .inl rfl⟩
  | false =>
    rw [heq]
    exact ⟨c, _, rfl, .inr (hn.whole_digits c (heq ▸ List.mem_cons_self))⟩

/-! Whole numbers. -/

theorem digitChar_ne_zero {n : Nat} (hpos : 0 < n) (hlt : n < 10) : Nat.digitChar n ≠ '0' := by
  have hall : ∀ k : Fin 10, 0 < k.val → Nat.digitChar k.val ≠ '0' := by decide
  exact hall ⟨n, hlt⟩ hpos

theorem toDigits_start {n : Nat} (hpos : 0 < n) :
    ∃ c cs, Nat.toDigits 10 n = c :: cs ∧ c ≠ '0' := by
  induction n using Nat.strongRecOn with
  | ind n ih =>
    by_cases hlt : n < 10
    · exact ⟨_, [], Nat.toDigits_of_lt_base hlt, digitChar_ne_zero hpos hlt⟩
    · obtain ⟨c, cs, heq, hc⟩ := ih (n / 10) (by omega) (by omega)
      rw [Nat.toDigits_of_base_le (by decide) (Nat.le_of_not_lt hlt), heq]
      exact ⟨c, _, rfl, hc⟩

theorem toDigits_whole (n : Nat) : ∃ c cs, Nat.toDigits 10 n = c :: cs ∧ (c = '0' → cs = []) := by
  rcases Nat.eq_zero_or_pos n with rfl | hpos
  · exact ⟨'0', [], rfl, fun _ => rfl⟩
  · obtain ⟨c, cs, heq, hc⟩ := toDigits_start hpos
    exact ⟨c, cs, heq, fun h => absurd h hc⟩

theorem proper_ofInt (n : Int) : (ofInt n).Proper :=
  ⟨fun _ => Json.isDigit_of_mem_toDigits, toDigits_whole n.natAbs, nofun, nofun⟩

theorem natOf_toDigits (n : Nat) : natOf (Nat.toDigits 10 n) = n :=
  Nat.ofDigitChars_ten_toDigits

theorem toInt?_ofInt (n : Int) : (ofInt n).toInt? = some n := by
  simp only [toInt?, ofInt, natOf_toDigits]
  by_cases hneg : n < 0
  · rw [if_pos (by simpa using hneg), if_neg (by omega)]
    exact congrArg some (by omega)
  · rw [if_neg (by simpa using hneg)]
    exact congrArg some (by omega)

end Numeral

/-! Doubles. -/

namespace Decimal

open Json (isDigit)

structure Plain (d : Decimal) : Prop where
  digits : ∀ c ∈ d.digits, isDigit c
  start : ∃ c cs, d.digits = c :: cs ∧ (c = '0' → cs = [] ∧ d.point = 1)

theorem dropTrailingZeros_cons {c : Char} (hc : c ≠ '0') (cs : List Char) :
    ∃ ds, dropTrailingZeros (c :: cs) = c :: ds ∧ ∀ d ∈ ds, d ∈ cs := by
  have hlast : List.dropWhile (· == '0') (cs.reverse ++ [c])
      = List.dropWhile (· == '0') cs.reverse ++ [c] := by
    rw [List.dropWhile_append]
    split
    · next hnil => simp [List.isEmpty_iff.1 hnil, hc]
    · rfl
  refine ⟨(cs.reverse.dropWhile (· == '0')).reverse, ?_, fun d hd => ?_⟩
  · rw [dropTrailingZeros, List.reverse_cons, hlast, List.reverse_append]
    rfl
  · exact List.mem_reverse.1 ((List.dropWhile_sublist _).subset (List.mem_reverse.1 hd))

theorem plain_ofNat {n : Nat} (hpos : 0 < n) (e : Int) : (ofNat n e).Plain := by
  obtain ⟨c, cs, heq, hc⟩ := Numeral.toDigits_start hpos
  have hdigit : ∀ d ∈ c :: cs, isDigit d := fun d hd => Json.isDigit_of_mem_toDigits (heq ▸ hd)
  obtain ⟨ds, hds, hmem⟩ := dropTrailingZeros_cons hc cs
  have hdigits : (ofNat n e).digits = c :: ds := by rw [← hds, ← heq]; rfl
  refine ⟨fun d hd => ?_, c, ds, hdigits, fun h => absurd h hc⟩
  rw [hdigits] at hd
  exact hdigit d (List.cons_subset_cons c hmem hd)

end Decimal

namespace Double

open Json (isDigit)

variable {x : Double}

theorem significand_pos (hx : x.isZero = false) : 0 < x.significand := by
  simp only [isZero, Bool.and_eq_false_iff, decide_eq_false_iff_not] at hx
  unfold significand
  split <;> omega

theorem quarterUnit_pos (x : Double) : 0 < x.quarterUnit.1 := by
  unfold quarterUnit
  split
  · rw [Nat.shiftLeft_eq]
    exact Nat.mul_pos Nat.one_pos (Nat.two_pow_pos _)
  · exact Nat.one_pos

theorem scaled_fst_pos {num : Nat} (hnum : 0 < num) (den : Nat) (s : Int) :
    0 < (Decimal.scaled num den s).1 := by
  unfold Decimal.scaled
  split
  · exact Nat.mul_pos hnum (Nat.pow_pos (by decide))
  · exact hnum

def readsBack (x : Double) (num den k : Nat) : Bool :=
  if x.significand % 2 = 0 then
    (4 * x.significand - x.gapBelow) * num ≤ k * den && k * den ≤ (4 * x.significand + 2) * num
  else (4 * x.significand - x.gapBelow) * num < k * den && k * den < (4 * x.significand + 2) * num

theorem exists_of_choice (passes : Nat → Bool) {k : Nat} {e : Int} {upper : Bool} {d : Decimal}
    (h : (if passes (k + 1) && upper then some (Decimal.ofNat (k + 1) e)
      else if passes k then some (Decimal.ofNat k e) else none) = some d) :
    ∃ k, passes k = true ∧ d = Decimal.ofNat k e := by
  split at h
  · next hup => exact ⟨k + 1, (Bool.and_eq_true_iff.1 hup).1, (Option.some.inj h).symm⟩
  · split at h
    · next hdown => exact ⟨k, hdown, (Option.some.inj h).symm⟩
    · cases h

theorem decimalOf_readsBack {tie : Tie} {n : Nat} {d : Decimal}
    (hd : x.decimalOf tie n = some d) :
    ∃ s k, x.readsBack (Decimal.scaled x.quarterUnit.1 x.quarterUnit.2 s).1
      (Decimal.scaled x.quarterUnit.1 x.quarterUnit.2 s).2 k = true ∧ d = Decimal.ofNat k (-s) := by
  obtain ⟨k, hk, rfl⟩ := exists_of_choice (x.readsBack _ _) hd
  exact ⟨_, k, hk, rfl⟩

theorem gapBelow_le (x : Double) : x.gapBelow ≤ 2 := by
  unfold gapBelow
  split <;> omega

theorem pos_of_readsBack (hx : x.isZero = false) {num den k : Nat} (hnum : 0 < num)
    (hk : x.readsBack num den k = true) : 0 < k := by
  have hsig := significand_pos hx
  have hgap := x.gapBelow_le
  have hlow : 0 < (4 * x.significand - x.gapBelow) * num := Nat.mul_pos (by omega) hnum
  refine Nat.pos_of_ne_zero fun hzero => ?_
  rw [readsBack, hzero, Nat.zero_mul] at hk
  split at hk <;> simp only [Bool.and_eq_true, decide_eq_true_eq] at hk <;> omega

theorem plain_shortest (hx : x.isZero = false) (tie : Tie) : (x.shortest tie).Plain := by
  unfold shortest
  cases hfind : (List.range' 1 17).findSome? (x.decimalOf tie) with
  | none => exact ⟨List.forall_mem_singleton.2 (by decide), '0', [], rfl, fun _ => ⟨rfl, rfl⟩⟩
  | some d =>
    obtain ⟨n, -, hd⟩ := List.exists_of_findSome?_eq_some hfind
    obtain ⟨s, k, hk, rfl⟩ := decimalOf_readsBack hd
    exact Decimal.plain_ofNat (pos_of_readsBack hx (scaled_fst_pos x.quarterUnit_pos _ s) hk) (-s)

end Double

namespace Numeral

open Json (isDigit)

theorem isDigit_of_lone_zero : ∀ c ∈ ['0'], isDigit c :=
  List.forall_mem_singleton.2 (by decide)

theorem isDigit_of_mem_zeros {n : Nat} {c : Char} (h : c ∈ Decimal.zeros n) : isDigit c := by
  obtain rfl := List.eq_of_mem_replicate h
  decide

theorem positional_whole {d : Decimal} (hd : d.Plain) :
    (∀ c ∈ d.positional.1, isDigit c) ∧ (∀ c ∈ d.positional.2, isDigit c) ∧
      ∃ c cs, d.positional.1 = c :: cs ∧ (c = '0' → cs = []) := by
  obtain ⟨c, cs, heq, hzero⟩ := hd.start
  unfold Decimal.positional
  split
  · refine ⟨isDigit_of_lone_zero, fun e he => ?_, '0', [], rfl, fun _ => rfl⟩
    rcases List.mem_append.1 he with he | he
    · exact isDigit_of_mem_zeros he
    · exact hd.digits e he
  · next hpos =>
    refine ⟨fun e he => ?_, fun e he => hd.digits e (List.mem_of_mem_drop he), c,
      cs.take (d.point.toNat - 1) ++ Decimal.zeros (d.point.toNat - d.digits.length), ?_,
      fun hc => ?_⟩
    · rcases List.mem_append.1 he with he | he
      · exact hd.digits e (List.mem_of_mem_take he)
      · exact isDigit_of_mem_zeros he
    · obtain ⟨k, hk⟩ : ∃ k, d.point.toNat = k + 1 := ⟨d.point.toNat - 1, by omega⟩
      rw [heq, hk]
      rfl
    · obtain ⟨rfl, hpoint⟩ := hzero hc
      rw [heq, hpoint]
      rfl

variable {d : Decimal} {negative : Bool}

theorem proper_positional (hd : d.Plain) {fraction : Option (List Char)}
    (hfraction : ∀ ds ∈ fraction, ds ≠ [] ∧ ∀ c ∈ ds, isDigit c) :
    (⟨negative, d.positional.1, fraction, none⟩ : Numeral).Proper :=
  have ⟨hwhole, _, hstart⟩ := positional_whole hd
  ⟨hwhole, hstart, hfraction, nofun⟩

theorem optional_digits {ds : List Char} (hds : ∀ c ∈ ds, isDigit c) :
    ∀ es ∈ (if ds.isEmpty then none else some ds), es ≠ [] ∧ ∀ c ∈ es, isDigit c := by
  intro es hes
  split at hes
  · cases hes
  · next hne =>
    obtain rfl := Option.some.inj hes
    exact ⟨by simpa using hne, hds⟩

theorem proper_scientific (hd : d.Plain) {sign : Bool} {es : List Char} (hne : es ≠ [])
    (hes : ∀ c ∈ es, isDigit c) :
    (⟨negative, d.scientific.1,
      if d.scientific.2.1.isEmpty then none else some d.scientific.2.1, some (sign, es)⟩ :
      Numeral).Proper := by
  obtain ⟨c, cs, heq, -⟩ := hd.start
  refine ⟨fun e he => hd.digits e (List.mem_of_mem_take he), ⟨c, [], ?_, fun _ => rfl⟩,
    optional_digits fun e he => hd.digits e (List.mem_of_mem_drop he), fun e he => ?_⟩
  · rw [Decimal.scientific, heq]
    rfl
  · obtain rfl := Option.some.inj he
    exact ⟨hne, hes⟩

def ofShortest (format : Double.TextFormat) (x : Double) : Numeral :=
  if x.isZero then ⟨x.negative, ['0'], some ['0'], none⟩
  else
    let d := x.shortest format.tie
    if format.least ≤ d.point ∧ d.point ≤ format.most then
      let (whole, fraction) := d.positional
      ⟨x.negative, whole, some (if fraction.isEmpty then ['0'] else fraction), none⟩
    else
      let (whole, fraction, e) := d.scientific
      ⟨x.negative, whole, if fraction.isEmpty then none else some fraction,
        some (e < 0, Nat.toDigits 10 e.natAbs)⟩

theorem proper_ofShortest (format : Double.TextFormat) (x : Double) :
    (ofShortest format x).Proper := by
  unfold ofShortest
  split
  · refine ⟨isDigit_of_lone_zero, ⟨'0', [], rfl, fun _ => rfl⟩, fun ds hds => ?_, nofun⟩
    obtain rfl := Option.some.inj hds
    exact ⟨List.cons_ne_nil _ _, isDigit_of_lone_zero⟩
  · next hx =>
    have hd := Double.plain_shortest (Bool.eq_false_iff.2 hx) format.tie
    dsimp only
    split
    · refine proper_positional hd fun ds hds => ?_
      obtain rfl := Option.some.inj hds
      split
      · exact ⟨List.cons_ne_nil _ _, isDigit_of_lone_zero⟩
      · next hne => exact ⟨by simpa using hne, (positional_whole hd).2.1⟩
    · exact proper_scientific hd Nat.toDigits_ne_nil fun _ => Json.isDigit_of_mem_toDigits

theorem proper_ofDouble (x : Double) : (ofDouble x).Proper := proper_ofShortest format x

end Numeral
end IntervalStack
