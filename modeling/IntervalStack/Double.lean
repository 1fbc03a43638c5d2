/-! Binary64 numbers, held as bit patterns: the sign of a zero and the payload of a NaN survive
every load and store. Arithmetic rounds as `Float` does; a NaN operand is passed on with its quiet
bit set, the first operand before the second, and an invalid operation gives the default NaN. -/

namespace IntervalStack

structure Double where
  bits : UInt64
deriving DecidableEq, Inhabited

namespace Double

def toFloat (x : Double) : Float := Float.ofBits x.bits

def negative (x : Double) : Bool := decide (0x8000000000000000 ≤ x.bits.toNat)

def exponentField (x : Double) : Nat := x.bits.toNat / 0x10000000000000 % 0x800

def fractionField (x : Double) : Nat := x.bits.toNat % 0x10000000000000

def isFinite (x : Double) : Bool := x.exponentField ≠ 2047

def isNaN (x : Double) : Bool := x.exponentField = 2047 && x.fractionField ≠ 0

def isZero (x : Double) : Bool := x.exponentField = 0 && x.fractionField = 0

def significand (x : Double) : Nat :=
  if x.exponentField = 0 then x.fractionField else 0x10000000000000 + x.fractionField

def scale (x : Double) : Nat := max 1 x.exponentField

def magnitude (x : Double) : Nat × Nat :=
  if 1075 ≤ x.scale then (x.significand <<< (x.scale - 1075), 1)
  else (x.significand, 1 <<< (1075 - x.scale))

def positive (x : Double) : Bool := !x.isNaN && !x.isZero && !x.negative

def belowZero (x : Double) : Bool := !x.isNaN && !x.isZero && x.negative

def equals (x y : Double) : Bool :=
  !x.isNaN && !y.isNaN && (x.bits == y.bits || x.isZero && y.isZero)

def nan : Double := ⟨0x7FF8000000000000⟩

def invalid : Double := ⟨0xFFF8000000000000⟩

def quieted (x : Double) : Double := ⟨x.bits ||| 0x0008000000000000⟩

def ofFloat (r : Float) : Double := if r.isNaN then invalid else ⟨r.toBits⟩

def combine (op : Float → Float → Float) (x y : Double) : Double :=
  if x.isNaN then x.quieted
  else if y.isNaN then y.quieted
  else ofFloat (op x.toFloat y.toFloat)

def add : Double → Double → Double := combine (· + ·)
def subtract : Double → Double → Double := combine (· - ·)
def multiply : Double → Double → Double := combine (· * ·)
def divide : Double → Double → Double := combine (· / ·)

def negate (x : Double) : Double := ⟨x.bits ^^^ 0x8000000000000000⟩

def ofInt32 (n : Int32) : Double := ⟨n.toFloat.toBits⟩

def toInt32 (x : Double) : Int32 := x.toFloat.toInt32

def ofNat (n : Nat) : Double := ⟨(Float.ofNat n).toBits⟩

def zero : Double := ⟨0⟩

theorem fractionField_lt (x : Double) : x.fractionField < 0x10000000000000 :=
  Nat.mod_lt _ (by decide)

theorem significand_lt (x : Double) : x.significand < 0x20000000000000 := by
  have h := x.fractionField_lt
  unfold significand
  split <;> omega

end Double
end IntervalStack
