import IntervalStack.Json.Basic

/-! The double that a JSON number stands for. The digits are gathered in a 64-bit significand, and
what does not fit is dropped; the significand is then multiplied or divided by one power of ten, or
by several when the exponent is far below zero. The result can differ from the nearest double in the
last place. -/

namespace IntervalStack.Numeral

structure Gathered where
  significand : Nat
  exponent : Int

def fits (significand : Nat) (c : Char) : Bool := 10 * significand + digitValue c < UInt64.size

def gatherWhole (significand : Nat) : List Char → Gathered
  | [] => ⟨significand, 0⟩
  | c :: cs =>
    if fits significand c then gatherWhole (10 * significand + digitValue c) cs
    else ⟨significand, (c :: cs).length⟩

def gatherFraction (g : Gathered) : List Char → Gathered
  | [] => g
  | c :: cs =>
    if fits g.significand c then
      gatherFraction ⟨10 * g.significand + digitValue c, g.exponent - 1⟩ cs
    else g

def powerOfTen (n : Nat) : Double := ⟨(Float.ofScientific 1 false n).toBits⟩

/-- Multiplies by a power of ten, in steps of `10 ^ 308` when it is far below zero. A result out of
range is refused. -/
def scaleBy : Nat → Double → Int → Option Double
  | 0, x, _ => some x
  | fuel + 1, x, e =>
    if e.natAbs ≤ 308 then
      if 0 ≤ e then
        let y := x.multiply (powerOfTen e.toNat)
        if y.isFinite then some y else none
      else some (x.divide (powerOfTen e.natAbs))
    else if x.isZero then some x
    else if 0 ≤ e then none
    else scaleBy fuel (x.divide (powerOfTen 308)) (e + 308)

def signed (negative : Bool) (x : Double) : Double := if negative then x.negate else x

def exponentLimit : Nat := 0x80000000

def toDouble? (n : Numeral) : Option Double :=
  let whole := gatherWhole 0 n.whole
  match n.fraction, n.exponent with
  | none, none => (scaleBy 5 (.ofNat whole.significand) whole.exponent).map (signed n.negative)
  | fraction, exponent =>
    let g := gatherFraction whole (fraction.getD [])
    let (negativeExponent, digits) := exponent.getD (false, ['0'])
    let e := natOf digits
    if exponentLimit ≤ e then
      if g.significand ≠ 0 ∧ negativeExponent = false then none
      else some (signed n.negative .zero)
    else
      let total := if negativeExponent then g.exponent - e else g.exponent + e
      (scaleBy 5 (.ofNat g.significand) total).map (signed n.negative)

end IntervalStack.Numeral
