import IntervalStack.Text.Utf8

/-! Byte memory of a fixed size. Only bytes that were written take space: they hang in a binary tree
that is searched by the bits of the address, the highest first. -/

namespace IntervalStack

inductive ByteTree
  | zeros
  | byte (b : UInt8)
  | fork (low high : ByteTree)

namespace ByteTree

def low : ByteTree → ByteTree
  | .fork l _ => l
  | _ => .zeros

def high : ByteTree → ByteTree
  | .fork _ h => h
  | _ => .zeros

def get : Nat → ByteTree → Nat → UInt8
  | 0, .byte b, _ => b
  | n + 1, .fork l h, a => if a.testBit n then get n h a else get n l a
  | _, _, _ => 0

def set : Nat → ByteTree → Nat → UInt8 → ByteTree
  | 0, _, _, b => .byte b
  | n + 1, t, a, b =>
    if a.testBit n then .fork t.low (set n t.high a b) else .fork (set n t.low a b) t.high

theorem get_zeros (n a : Nat) : get n .zeros a = 0 := by cases n <;> rfl

theorem get_succ (n : Nat) (t : ByteTree) (a : Nat) :
    get (n + 1) t a = if a.testBit n then get n t.high a else get n t.low a := by
  cases t <;> simp [get, low, high, get_zeros]

/-- A byte that was set is read back at every address with the same last `n` bits, and all other
bytes stay as they were. -/
theorem get_set (n : Nat) (t : ByteTree) (a b : Nat) (v : UInt8) :
    get n (set n t a v) b = if a % Nat.pow 2 n = b % Nat.pow 2 n then v else get n t b := by
  induction n generalizing t with
  | zero => simp [set, get, Nat.mod_one]
  | succ n ih =>
    have ha := Nat.mod_lt a (Nat.two_pow_pos n)
    have hb := Nat.mod_lt b (Nat.two_pow_pos n)
    have hA := Nat.mod_two_eq_zero_or_one (a / 2 ^ n)
    have hB := Nat.mod_two_eq_zero_or_one (b / 2 ^ n)
    simp only [Nat.pow_eq] at ih ⊢
    simp only [get_succ n t b, Nat.mod_pow_succ, Nat.testBit_eq_decide_div_mod_eq, set]
    rcases hA with hA | hA <;> rcases hB with hB | hB <;>
      simp [get, ih, hA, hB, Nat.testBit_eq_decide_div_mod_eq] <;> omega

end ByteTree

def addressBits : Nat := 32

structure Memory where
  size : Nat
  bytes : ByteTree

namespace Memory

def zeros (size : Nat) : Memory := ⟨size, .zeros⟩

def get (m : Memory) (a : Nat) : UInt8 := m.bytes.get addressBits a

def set (m : Memory) (a : Nat) (b : UInt8) : Memory :=
  { m with bytes := m.bytes.set addressBits a b }

def read (m : Memory) (a : Nat) : Nat → List UInt8
  | 0 => []
  | n + 1 => m.get a :: read m (a + 1) n

def write (m : Memory) (a : Nat) : List UInt8 → Memory
  | [] => m
  | b :: bs => write (m.set a b) (a + 1) bs

def readText (m : Memory) (a : Nat) : Nat → Option (List UInt8)
  | 0 => none
  | n + 1 =>
    let b := m.get a
    if b = 0 then some [] else (readText m (a + 1) n).map (b :: ·)

@[simp] theorem size_set (m : Memory) (a : Nat) (b : UInt8) : (m.set a b).size = m.size := rfl

@[simp] theorem size_write (m : Memory) (a : Nat) (bs : List UInt8) :
    (m.write a bs).size = m.size := by
  induction bs generalizing m a with
  | nil => rfl
  | cons b bs ih => simp [write, ih]

@[simp] theorem length_read (m : Memory) (a n : Nat) : (m.read a n).length = n := by
  induction n generalizing a with
  | zero => rfl
  | succ n ih => simp [read, ih]

theorem get_set (m : Memory) {a b : Nat} (v : UInt8) (ha : a < UInt32.size)
    (hb : b < UInt32.size) : (m.set a v).get b = if a = b then v else m.get b := by
  have hsize : Nat.pow 2 addressBits = UInt32.size := rfl
  simp only [get, set, ByteTree.get_set, hsize, Nat.mod_eq_of_lt ha, Nat.mod_eq_of_lt hb]

end Memory

/-! Numbers as bytes, the lowest first. -/

namespace LittleEndian

def encode : Nat → Nat → List UInt8
  | 0, _ => []
  | n + 1, v => UInt8.ofNat (v % 256) :: encode n (v / 256)

def decode : List UInt8 → Nat
  | [] => 0
  | b :: bs => b.toNat + 256 * decode bs

theorem decode_encode (n v : Nat) : decode (encode n v) = v % Nat.pow 256 n := by
  induction n generalizing v with
  | zero => simp [encode, decode, Nat.mod_one]
  | succ n ih =>
    rw [Nat.pow_eq, Nat.pow_succ, Nat.mul_comm (256 ^ n), Nat.mod_mul]
    simp [encode, decode, ih]

end LittleEndian
end IntervalStack
