/-! Arithmetic on 32-bit words that refuses to wrap. Sizes are unsigned words and offsets are
signed words; a sum, difference or negation that does not fit is an `Overflow`. -/

namespace IntervalStack

inductive Overflow
  | add
  | subtract
  | multiply
  | negate
deriving DecidableEq

def Overflow.message : Overflow → String
  | .add => "attempt to add with overflow"
  | .subtract => "attempt to subtract with overflow"
  | .multiply => "attempt to multiply with overflow"
  | .negate => "attempt to negate with overflow"

namespace Word

def add (a b : UInt32) : Except Overflow UInt32 :=
  if a.toNat + b.toNat < UInt32.size then .ok (a + b) else .error .add

def subtract (a b : UInt32) : Except Overflow UInt32 :=
  if b ≤ a then .ok (a - b) else .error .subtract

def fitsSigned (n : Int) : Bool := -0x80000000 ≤ n && n < 0x80000000

def addSigned (a b : Int32) : Except Overflow Int32 :=
  if fitsSigned (a.toInt + b.toInt) then .ok (a + b) else .error .add

def subtractSigned (a b : Int32) : Except Overflow Int32 :=
  if fitsSigned (a.toInt - b.toInt) then .ok (a - b) else .error .subtract

def negateSigned (a : Int32) : Except Overflow Int32 :=
  if fitsSigned (-a.toInt) then .ok (-a) else .error .negate

theorem add_eq_ok_iff {a b c : UInt32} :
    add a b = .ok c ↔ a.toNat + b.toNat < UInt32.size ∧ c = a + b := by
  unfold add
  split
  · simp_all [eq_comm]
  · simp only [reduceCtorEq, false_iff, not_and]
    omega

theorem toNat_of_add {a b c : UInt32} (h : add a b = .ok c) :
    c.toNat = a.toNat + b.toNat := by
  obtain ⟨hlt, rfl⟩ := add_eq_ok_iff.1 h
  rw [UInt32.toNat_add, Nat.mod_eq_of_lt hlt]

theorem subtract_eq_ok_iff {a b c : UInt32} : subtract a b = .ok c ↔ b ≤ a ∧ c = a - b := by
  unfold subtract
  split
  · simp_all [eq_comm]
  · next h => simp only [reduceCtorEq, h, false_and]

end Word
end IntervalStack
