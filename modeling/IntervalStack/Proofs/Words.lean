import IntervalStack.Machine.Memory
import IntervalStack.Word
import Mathlib.Algebra.Order.Ring.Nat

/-! Words, and words in memory. -/

namespace IntervalStack

namespace Word

theorem toInt_ofNat {n : Nat} (h : n < 0x80000000) : (Int32.ofNat n).toInt = n :=
  Int32.toInt_ofNat_of_lt h

theorem toInt_sub_ofNat {k c : Nat} (hk : k < 0x80000000) (hc : c < 0x80000000) :
    (Int32.ofNat k - Int32.ofNat c).toInt = (k : Int) - c := by
  rw [Int32.toInt_sub, toInt_ofNat hk, toInt_ofNat hc,
    Int.bmod_eq_of_le (by omega) (by omega)]

theorem sub_ofNat_lt_zero_iff {k c : Nat} (hk : k < 0x80000000) (hc : c < 0x80000000) :
    Int32.ofNat k - Int32.ofNat c < 0 ↔ k < c := by
  rw [Int32.lt_iff_toInt_lt, toInt_sub_ofNat hk hc, Int32.toInt_zero]
  omega

theorem ofNat_add_of_nonneg {o : Int32} (a : Nat) (ho : 0 ≤ o.toInt) :
    Int32.ofNat a + o = Int32.ofNat (a + o.toInt.toNat) := by
  have hself : Int32.ofNat o.toInt.toNat = o := by
    rw [← Int32.ofInt_eq_ofNat, Int.toNat_of_nonneg ho, Int32.ofInt_toInt]
  rw [Int32.ofNat_add, hself]

theorem ofNat_toNat (n : Int32) : Int32.ofNat n.toUInt32.toNat = n := by
  change (UInt32.ofNat n.toUInt32.toNat).toInt32 = n
  rw [UInt32.ofNat_toNat]
  rfl

theorem toInt_pred {n : Int32} (h : 1 ≤ n.toInt) : (n - 1).toInt = n.toInt - 1 := by
  have hlt := n.toInt_lt
  rw [Int32.toInt_sub, Int32.toInt_one, Int.bmod_eq_of_le (by omega) (by omega)]

theorem toInt_toInt32 (n : UInt32) :
    n.toInt32.toInt = if n.toNat < 2 ^ 31 then (n.toNat : Int) else n.toNat - 2 ^ 32 := by
  rw [← Int32.toInt_toBitVec, UInt32.toBitVec_toInt32, BitVec.toInt_eq_toNat_cond,
    UInt32.toNat_toBitVec]
  split
  all_goals split
  all_goals omega

theorem toNat_toInt {n : Int32} (h : 0 ≤ n.toInt) : n.toInt.toNat = n.toUInt32.toNat := by
  have hsigned := toInt_toInt32 n.toUInt32
  rw [show n.toUInt32.toInt32 = n from rfl] at hsigned
  have hlt := n.toUInt32.toNat_lt
  split at hsigned
  all_goals omega

theorem sub_eq_zero_iff {m n : Int32} : m - n = 0 ↔ m = n := by
  rw [Int32.sub_eq_iff_eq_add, Int32.zero_add]

/-! Arithmetic that does not fail. -/

theorem bind_eq_ok_iff {α β : Type} {r : Except Overflow α} {f : α → Except Overflow β} {b : β} :
    (r >>= f) = .ok b ↔ ∃ a, r = .ok a ∧ f a = .ok b := by
  cases r with
  | error o => simp [bind, Except.bind]
  | ok a => simp [bind, Except.bind]

theorem exists_add_iff {a b : UInt32} :
    (∃ c, add a b = .ok c) ↔ a.toNat + b.toNat < 2 ^ 32 := by
  have hsize : UInt32.size = 2 ^ 32 := rfl
  simp only [add_eq_ok_iff, exists_and_left, exists_eq, and_true, hsize]

theorem exists_negateSigned_iff {n : UInt32} :
    (∃ d, negateSigned n.toInt32 = .ok d) ↔ n.toNat ≠ 2 ^ 31 := by
  have hlt := UInt32.toNat_lt n
  have hfits : fitsSigned (-n.toInt32.toInt) = true ↔ n.toNat ≠ 2 ^ 31 := by
    rw [fitsSigned, Bool.and_eq_true, decide_eq_true_eq, decide_eq_true_eq, toInt_toInt32]
    split
    all_goals omega
  rw [← hfits, negateSigned]
  split
  all_goals simp_all

theorem exists_subtractSigned_iff {n k : UInt32} (hk : k.toNat < 2 ^ 31) :
    (∃ d, subtractSigned n.toInt32 k.toInt32 = .ok d) ↔
      n.toNat < 2 ^ 31 ∨ 2 ^ 31 + k.toNat ≤ n.toNat := by
  have hlt := UInt32.toNat_lt n
  have hfits : fitsSigned (n.toInt32.toInt - k.toInt32.toInt) = true ↔
      n.toNat < 2 ^ 31 ∨ 2 ^ 31 + k.toNat ≤ n.toNat := by
    rw [fitsSigned, Bool.and_eq_true, decide_eq_true_eq, decide_eq_true_eq, toInt_toInt32,
      toInt_toInt32, if_pos hk]
    split
    all_goals omega
  rw [← hfits, subtractSigned]
  split
  all_goals simp_all

end Word

theorem LittleEndian.length_encode (n v : Nat) : (LittleEndian.encode n v).length = n := by
  induction n generalizing v with
  | zero => rfl
  | succ n ih => rw [encode, List.length_cons, ih]

theorem LittleEndian.decode_lt (bs : List UInt8) : decode bs < 256 ^ bs.length := by
  induction bs with
  | nil => exact Nat.one_pos
  | cons b bs ih =>
    have hb := b.toNat_lt
    rw [decode, List.length_cons, Nat.pow_succ]
    omega

theorem LittleEndian.decode_inj {bs bs' : List UInt8} (hlen : bs.length = bs'.length)
    (h : decode bs = decode bs') : bs = bs' := by
  induction bs generalizing bs' with
  | nil => exact (List.length_eq_zero_iff.1 hlen.symm).symm
  | cons b bs ih =>
    cases bs' with
    | nil => cases hlen
    | cons b' bs' =>
      have hb := b.toNat_lt
      have hb' := b'.toNat_lt
      rw [decode, decode] at h
      rw [ih (Nat.succ.inj hlen) (by omega), UInt8.toNat.inj (show b.toNat = b'.toNat by omega)]

namespace Memory

def word (m : Memory) (a : Nat) : Int32 := (UInt32.ofNat (LittleEndian.decode (m.read a 4))).toInt32

def setWord (m : Memory) (a : Nat) (v : Int32) : Memory :=
  m.write a (LittleEndian.encode 4 v.toUInt32.toNat)

variable {m m' : Memory} {a b : Nat} {v : Int32}

@[simp] theorem size_setWord : (m.setWord a v).size = m.size := size_write _ _ _

theorem get_write_of_outside (bs : List UInt8) (ha : a + bs.length ≤ UInt32.size)
    (hb : b < UInt32.size) (h : b < a ∨ a + bs.length ≤ b) : (m.write a bs).get b = m.get b := by
  induction bs generalizing m a with
  | nil => rfl
  | cons v bs ih =>
    rw [List.length_cons] at ha h
    rw [write, ih (by omega) (by omega), get_set m v (by omega) hb, if_neg (by omega)]

theorem read_write (bs : List UInt8) (ha : a + bs.length ≤ UInt32.size) :
    (m.write a bs).read a bs.length = bs := by
  induction bs generalizing m a with
  | nil => rfl
  | cons v bs ih =>
    rw [List.length_cons] at ha
    rw [List.length_cons, read, write, ih (by omega), get_write_of_outside bs (by omega) (by omega)
      (by omega), get_set m v (by omega) (by omega), if_pos rfl]

theorem read_congr {n : Nat} (h : ∀ i, i < n → m'.get (a + i) = m.get (a + i)) :
    m'.read a n = m.read a n := by
  induction n generalizing a with
  | zero => rfl
  | succ n ih =>
    have hfirst : m'.get a = m.get a := h 0 (by omega)
    have hrest : m'.read (a + 1) n = m.read (a + 1) n := ih fun i hi => by
      have hnext := h (i + 1) (by omega)
      rwa [Nat.add_comm i 1, ← Nat.add_assoc] at hnext
    rw [read, read, hfirst, hrest]

theorem word_congr (h : ∀ i, i < 4 → m'.get (a + i) = m.get (a + i)) : m'.word a = m.word a := by
  rw [word, word, read_congr h]

theorem read_eq_iff {n : Nat} :
    m'.read a n = m.read a n ↔ ∀ i, i < n → m'.get (a + i) = m.get (a + i) := by
  refine ⟨fun h => ?_, read_congr⟩
  induction n generalizing a with
  | zero => exact fun i hi => absurd hi (Nat.not_lt_zero i)
  | succ n ih =>
    obtain ⟨hfirst, hrest⟩ := List.cons.inj h
    intro i hi
    cases i with
    | zero => exact hfirst
    | succ i =>
      rw [Nat.add_comm i 1, ← Nat.add_assoc]
      exact ih hrest i (by omega)

theorem get_of_word_eq (h : m'.word a = m.word a) {i : Nat} (hi : i < 4) :
    m'.get (a + i) = m.get (a + i) := by
  have hlt := LittleEndian.decode_lt (m.read a 4)
  have hlt' := LittleEndian.decode_lt (m'.read a 4)
  rw [length_read] at hlt hlt'
  have hdecode := congrArg UInt32.toNat (congrArg Int32.toUInt32 h)
  rw [word, word, UInt32.toUInt32_toInt32, UInt32.toUInt32_toInt32, UInt32.toNat_ofNat_of_lt' hlt,
    UInt32.toNat_ofNat_of_lt' hlt'] at hdecode
  refine read_eq_iff.1 (LittleEndian.decode_inj ?_ hdecode) i hi
  rw [length_read, length_read]

theorem get_setWord (ha : a + 4 ≤ 0x100000000) (hb : b < 0x100000000) (h : b < a ∨ a + 4 ≤ b) :
    (m.setWord a v).get b = m.get b := get_write_of_outside _ ha hb h

theorem word_setWord_self (ha : a + 4 ≤ 0x100000000) : (m.setWord a v).word a = v := by
  have hread : (m.setWord a v).read a 4 = LittleEndian.encode 4 v.toUInt32.toNat := read_write _ ha
  have hlt : v.toUInt32.toNat < UInt32.size := v.toUInt32.toNat_lt
  rw [word, hread, LittleEndian.decode_encode, Nat.mod_eq_of_lt hlt, UInt32.ofNat_toNat]
  rfl

theorem word_setWord_of_apart (ha : a + 4 ≤ 0x100000000) (hb : b + 4 ≤ 0x100000000)
    (h : b + 4 ≤ a ∨ a + 4 ≤ b) : (m.setWord a v).word b = m.word b :=
  word_congr fun i hi => get_setWord ha (by omega) (by omega)

end Memory
end IntervalStack
