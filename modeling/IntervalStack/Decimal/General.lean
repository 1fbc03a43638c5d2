import IntervalStack.Decimal.Basic

/-! The `%g` text of a double: six significant digits of its exact value, a half going to the even
neighbour, without trailing zeros; positional when the first digit stands between the fourth
decimal and the hundred thousands. The positional text is rounded on its own, to the decimals that
the first digit of the six leaves. -/

namespace IntervalStack

def roundHalfEven (num den : Nat) : Nat :=
  let q := num / den
  let twice := 2 * (num % den)
  if twice < den then q else if den < twice then q + 1 else q + q % 2

namespace Double

/-- The magnitude of a finite double rounded to so many decimals; to places in front of the point where
there are fewer than none. -/
def toDecimals (x : Double) (decimals : Int) : Decimal :=
  let (num, den) := x.magnitude
  let (a, b) := Decimal.scaled num den decimals
  Decimal.ofNat (roundHalfEven a b) (-decimals)

def sixDigits (x : Double) : Decimal :=
  let (num, den) := x.magnitude
  x.toDecimals (6 - Decimal.pointOf num den)

def withFraction (whole fraction : List Char) : String :=
  String.ofList (if fraction.isEmpty then whole else whole ++ '.' :: fraction)

def exponentText (e : Int) : String :=
  let ds := toString e.natAbs
  (if e < 0 then "e-" else "e+") ++ (if ds.length < 2 then "0" ++ ds else ds)

def general (x : Double) : String :=
  if x.isNaN then "nan"
  else
    let sign := if x.negative then "-" else ""
    if !x.isFinite then sign ++ "inf"
    else if x.isZero then sign ++ "0"
    else
      let d := x.sixDigits
      if -3 ≤ d.point ∧ d.point ≤ 6 then
        let (whole, fraction) := (x.toDecimals (6 - d.point)).positional
        sign ++ withFraction whole fraction
      else
        let (whole, fraction, e) := d.scientific
        sign ++ withFraction whole fraction ++ exponentText e

end Double
end IntervalStack
