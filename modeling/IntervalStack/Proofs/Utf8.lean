import IntervalStack.Text.Utf8

/-! Texts as UTF-8 bytes. Bytes that were made from a text are read back as that text, although
bytes that were not can be read as well. -/

namespace IntervalStack.Text

variable {a b c d lo hi : UInt8} {rest : List UInt8}

theorem between_iff : (decide (lo ≤ b) && decide (b ≤ hi)) = true ↔
    lo.toNat ≤ b.toNat ∧ b.toNat ≤ hi.toNat := by
  rw [Bool.and_eq_true, decide_eq_true_eq, decide_eq_true_eq, UInt8.le_iff_toNat_le,
    UInt8.le_iff_toNat_le]

theorem not_between (h : hi.toNat < b.toNat) : ¬ (decide (lo ≤ b) && decide (b ≤ hi)) = true :=
  fun h' => Nat.not_lt.2 (between_iff.1 h').2 h

theorem not_single (h : 128 ≤ a.toNat) : ¬ a < 0x80 :=
  fun h' => Nat.not_lt.2 h (UInt8.lt_iff_toNat_lt.1 h')

theorem continues_iff : continues b = true ↔ 128 ≤ b.toNat ∧ b.toNat ≤ 191 := between_iff

theorem secondFits_of (hb : continues b = true) (hE0 : a.toNat = 0xE0 → 0xA0 ≤ b.toNat)
    (hED : a.toNat = 0xED → b.toNat ≤ 0x9F) (hF0 : a.toNat = 0xF0 → 0x90 ≤ b.toNat)
    (hF4 : a.toNat = 0xF4 → b.toNat ≤ 0x8F) : secondFits a b = true := by
  obtain ⟨hlow, hhigh⟩ := continues_iff.1 hb
  unfold secondFits
  split
  · next ha => exact between_iff.2 ⟨hE0 (by rw [ha]; rfl), hhigh⟩
  split
  · next ha => exact between_iff.2 ⟨hlow, hED (by rw [ha]; rfl)⟩
  split
  · next ha => exact between_iff.2 ⟨hF0 (by rw [ha]; rfl), hhigh⟩
  split
  · next ha => exact between_iff.2 ⟨hlow, hF4 (by rw [ha]; rfl)⟩
  · exact hb

/-! Characters of one to four bytes. -/

theorem character_one (ha : a.toNat < 128) : character a rest = (Char.ofNat a.toNat, 0) := by
  unfold character
  rw [if_pos (UInt8.lt_iff_toNat_lt.2 ha)]

theorem character_two (ha : 0xC2 ≤ a.toNat ∧ a.toNat ≤ 0xDF) (hb : continues b = true) :
    character a (b :: rest) = (Char.ofNat (a.toNat % 32 * 64 + low b), 1) := by
  have hfirst : (decide (0xC2 ≤ a) && decide (a ≤ 0xDF)) = true := between_iff.2 ha
  unfold character
  rw [if_neg (not_single (by omega)), if_pos hfirst]
  dsimp only
  rw [if_pos hb]

theorem character_three (ha : 0xE0 ≤ a.toNat ∧ a.toNat ≤ 0xEF) (hb : secondFits a b = true)
    (hc : continues c = true) : character a (b :: c :: rest)
      = (Char.ofNat (a.toNat % 16 * 4096 + low b * 64 + low c), 2) := by
  have hfirst : (decide (0xE0 ≤ a) && decide (a ≤ 0xEF)) = true := between_iff.2 ha
  have hlt : (0xDF : UInt8).toNat < a.toNat := ha.1
  unfold character
  rw [if_neg (not_single (by omega)), if_neg (not_between hlt), if_pos hfirst]
  dsimp only
  rw [hb, Bool.not_true, if_neg Bool.false_ne_true, if_pos hc]

theorem character_four (ha : 0xF0 ≤ a.toNat ∧ a.toNat ≤ 0xF4) (hb : secondFits a b = true)
    (hc : continues c = true) (hd : continues d = true) : character a (b :: c :: d :: rest)
      = (Char.ofNat (a.toNat % 8 * 262144 + low b * 4096 + low c * 64 + low d), 3) := by
  have hfirst : (decide (0xF0 ≤ a) && decide (a ≤ 0xF4)) = true := between_iff.2 ha
  have htwo : (0xDF : UInt8).toNat < a.toNat := Nat.lt_of_lt_of_le (by decide) ha.1
  have hthree : (0xEF : UInt8).toNat < a.toNat := ha.1
  unfold character
  rw [if_neg (not_single (by omega)), if_neg (not_between htwo), if_neg (not_between hthree),
    if_pos hfirst]
  dsimp only
  rw [hb, hc, Bool.not_true, if_neg Bool.false_ne_true, if_neg Bool.false_ne_true, if_pos hd]

theorem toNat_byte {n : Nat} (hn : n < 256) : (UInt8.ofNat n).toNat = n :=
  UInt8.toNat_ofNat_of_lt' hn

theorem tail_byte (n : Nat) :
    continues (UInt8.ofNat (n % 64 + 128)) = true ∧ low (UInt8.ofNat (n % 64 + 128)) = n % 64 := by
  rw [continues_iff, low, toNat_byte (by omega)]
  omega

theorem decodeFrom_char (c : Char) (rest : List UInt8) :
    decodeFrom 0 (String.utf8EncodeChar c ++ rest) = c :: decodeFrom 0 rest := by
  have hself : Char.ofNat c.val.toNat = c := Char.ofNat_toNat c
  -- There are no surrogates among the characters.
  have hvalid : c.val.toNat < 0xD800 ∨ 0xDFFF < c.val.toNat ∧ c.val.toNat < 0x110000 := c.valid
  unfold String.utf8EncodeChar
  generalize c.val.toNat = v at hself hvalid
  obtain ⟨hlast, hlastLow⟩ := tail_byte v
  obtain ⟨hmiddle, hmiddleLow⟩ := tail_byte (v / 64)
  obtain ⟨hupper, hupperLow⟩ := tail_byte (v / 4096)
  dsimp only
  split
  · have ha : (UInt8.ofNat v).toNat = v := toNat_byte (by omega)
    have hchar : character (UInt8.ofNat v) rest = (c, 0) := by
      rw [character_one (by omega), ha, hself]
    simp only [List.cons_append, List.nil_append, decodeFrom, hchar]
  split
  · have ha : (UInt8.ofNat (v / 64 % 32 + 192)).toNat = v / 64 % 32 + 192 := toNat_byte (by omega)
    have hv : (v / 64 % 32 + 192) % 32 * 64 + v % 64 = v := by omega
    have hchar : character (UInt8.ofNat (v / 64 % 32 + 192)) (UInt8.ofNat (v % 64 + 128) :: rest)
        = (c, 1) := by
      rw [character_two (by omega) hlast, ha, hlastLow, hv, hself]
    simp only [List.cons_append, List.nil_append, decodeFrom, hchar]
  split
  · have ha : (UInt8.ofNat (v / 4096 % 16 + 224)).toNat = v / 4096 % 16 + 224 :=
      toNat_byte (by omega)
    have hb : (UInt8.ofNat (v / 64 % 64 + 128)).toNat = v / 64 % 64 + 128 := toNat_byte (by omega)
    have hv : (v / 4096 % 16 + 224) % 16 * 4096 + v / 64 % 64 * 64 + v % 64 = v := by omega
    have hchar : character (UInt8.ofNat (v / 4096 % 16 + 224))
        (UInt8.ofNat (v / 64 % 64 + 128) :: UInt8.ofNat (v % 64 + 128) :: rest) = (c, 2) := by
      rw [character_three (by omega) (secondFits_of hmiddle (by omega) (by omega) (by omega)
        (by omega)) hlast, ha, hmiddleLow, hlastLow, hv, hself]
    simp only [List.cons_append, List.nil_append, decodeFrom, hchar]
  · have ha : (UInt8.ofNat (v / 262144 % 8 + 240)).toNat = v / 262144 % 8 + 240 :=
      toNat_byte (by omega)
    have hb : (UInt8.ofNat (v / 4096 % 64 + 128)).toNat = v / 4096 % 64 + 128 :=
      toNat_byte (by omega)
    have hv : (v / 262144 % 8 + 240) % 8 * 262144 + v / 4096 % 64 * 4096 + v / 64 % 64 * 64 + v % 64
        = v := by omega
    have hchar : character (UInt8.ofNat (v / 262144 % 8 + 240)) (UInt8.ofNat (v / 4096 % 64 + 128)
        :: UInt8.ofNat (v / 64 % 64 + 128) :: UInt8.ofNat (v % 64 + 128) :: rest) = (c, 3) := by
      rw [character_four (by omega) (secondFits_of hupper (by omega) (by omega) (by omega)
        (by omega)) hmiddle hlast, ha, hupperLow, hmiddleLow, hlastLow, hv, hself]
    simp only [List.cons_append, List.nil_append, decodeFrom, hchar]

theorem decode_encode (s : String) : decode (encode s) = s := by
  have hchars (cs : List Char) : decodeFrom 0 (cs.flatMap String.utf8EncodeChar) = cs := by
    induction cs with
    | nil => rfl
    | cons c cs ih => rw [List.flatMap_cons, decodeFrom_char, ih]
  rw [decode, encode, hchars, String.ofList_toList]

theorem byte_ne_zero {n : Nat} (hpos : 0 < n) (hn : n < 256) : 0 ≠ UInt8.ofNat n := by
  intro h
  have hzero : 0 = n := (congrArg UInt8.toNat h).trans (toNat_byte hn)
  omega

theorem zero_notMem_encode {s : String} (h : '\x00' ∉ s.toList) : 0 ∉ encode s := by
  intro hzero
  obtain ⟨c, hc, hzero⟩ := List.mem_flatMap.1 hzero
  have hpos : 0 < c.val.toNat := by
    refine Nat.pos_of_ne_zero fun hnull => h ?_
    rwa [show '\x00' = c from Char.toNat_inj.1 hnull.symm]
  unfold String.utf8EncodeChar at hzero
  generalize c.val.toNat = v at hpos hzero
  dsimp only at hzero
  split at hzero
  · exact byte_ne_zero hpos (by omega) (List.mem_singleton.1 hzero)
  -- All bytes of the longer forms have their first bit set.
  split at hzero
  · simp only [List.mem_cons, List.not_mem_nil, or_false] at hzero
    rcases hzero with h | h <;> exact byte_ne_zero (by omega) (by omega) h
  split at hzero
  · simp only [List.mem_cons, List.not_mem_nil, or_false] at hzero
    rcases hzero with h | h | h <;> exact byte_ne_zero (by omega) (by omega) h
  · simp only [List.mem_cons, List.not_mem_nil, or_false] at hzero
    rcases hzero with h | h | h | h <;> exact byte_ne_zero (by omega) (by omega) h

end IntervalStack.Text
