import IntervalStack.Decimal.Basic

/-! The shortest decimal that reads back as a given double, and its text. Of the decimals with the
fewest digits the nearest is taken; which of two equally near ones is for the format to say. -/

namespace IntervalStack

namespace Double

/-- The numbers that round to a double of magnitude `4 * significand` quarter units reach from
`4 * significand - gapBelow` to `4 * significand + 2`. -/
def gapBelow (x : Double) : Nat :=
  if x.fractionField = 0 ∧ 1 < x.exponentField then 1 else 2

def quarterUnit (x : Double) : Nat × Nat :=
  if 1077 ≤ x.scale then (1 <<< (x.scale - 1077), 1) else (1, 1 <<< (1077 - x.scale))

inductive Tie
  | larger
  | even
deriving DecidableEq

def Tie.takesUpper (tie : Tie) (lower below above : Nat) : Bool :=
  if above = below then
    match tie with
    | .larger => true
    | .even => lower % 2 = 1
  else above < below

def decimalOf (x : Double) (tie : Tie) (n : Nat) : Option Decimal :=
  let unit := x.quarterUnit
  let s := (n : Int) - Decimal.pointOf (4 * x.significand * unit.1) unit.2
  let (num, den) := Decimal.scaled unit.1 unit.2 s
  let value := 4 * x.significand * num
  let low := (4 * x.significand - x.gapBelow) * num
  let high := (4 * x.significand + 2) * num
  let within (c : Nat) : Bool :=
    if x.significand % 2 = 0 then low ≤ c * den && c * den ≤ high
    else low < c * den && c * den < high
  let down := value / den
  let up := down + 1
  if within up && (!within down || tie.takesUpper down (value - down * den) (up * den - value)) then
    some (Decimal.ofNat up (-s))
  else if within down then some (Decimal.ofNat down (-s))
  else none

def shortest (x : Double) (tie : Tie) : Decimal :=
  ((List.range' 1 17).findSome? (x.decimalOf tie)).getD ⟨['0'], 1⟩

/-- How the text of a number is chosen. It is positional where the decimal point stands at one of
the positions from `least` to `most`, and has an exponent elsewhere. -/
structure TextFormat where
  least : Int
  most : Int
  tie : Tie

def sign (x : Double) : String := if x.negative then "-" else ""

def finiteText (format : TextFormat) (x : Double) : String :=
  if x.isZero then x.sign ++ "0.0"
  else
    let d := x.shortest format.tie
    if format.least ≤ d.point ∧ d.point ≤ format.most then
      let (whole, fraction) := d.positional
      x.sign ++ String.ofList (whole ++ '.' :: (if fraction.isEmpty then ['0'] else fraction))
    else
      let (whole, fraction, exponent) := d.scientific
      x.sign ++ String.ofList (whole ++ (if fraction.isEmpty then [] else '.' :: fraction)) ++ "e"
        ++ toString exponent

/-- In assembly texts and messages numbers from `1e-4` up to `1e16` are positional, and a tie goes
to the larger number. -/
def listingFormat : TextFormat := ⟨-3, 16, .larger⟩

def text (x : Double) : String :=
  if x.isNaN then "NaN"
  else if x.isFinite then x.finiteText listingFormat
  else x.sign ++ "inf"

end Double
end IntervalStack
