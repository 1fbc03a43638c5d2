import IntervalStack.Decimal.Shortest

/-! JSON values as they are written. A number keeps its digits, so that a whole number and a number
with a fraction stay apart; an object keeps repeated keys; a string whose escapes spell no Unicode
text is kept as `none`. -/

namespace IntervalStack

/-- A number by its parts: the sign, the digits in front of the point, those behind it, and the
exponent with its sign. -/
structure Numeral where
  negative : Bool
  whole : List Char
  fraction : Option (List Char)
  exponent : Option (Bool × List Char)
deriving DecidableEq

inductive Json
  | null
  | bool (b : Bool)
  | num (n : Numeral)
  | str (s : Option String)
  | arr (items : List Json)
  | obj (members : List (Option String × Json))

namespace Numeral

def digitValue (c : Char) : Nat := c.toNat - '0'.toNat

def natOf (digits : List Char) : Nat := digits.foldl (fun n c => 10 * n + digitValue c) 0

def ofInt (n : Int) : Numeral := ⟨n < 0, Nat.toDigits 10 n.natAbs, none, none⟩

def toInt? (n : Numeral) : Option Int :=
  match n.fraction, n.exponent with
  | none, none =>
    let v := natOf n.whole
    if n.negative then (if v = 0 then none else some (-v)) else some v
  | _, _ => none

def text (n : Numeral) : String :=
  String.ofList <|
    (if n.negative then ['-'] else []) ++ n.whole
      ++ (match n.fraction with
        | some ds => '.' :: ds
        | none => [])
      ++ (match n.exponent with
        | some (negative, ds) => 'e' :: (if negative then '-' else '+') :: ds
        | none => [])

def format : Double.TextFormat := ⟨-4, 16, .even⟩

def ofDouble (x : Double) : Numeral :=
  if x.isZero then ⟨x.negative, ['0'], some ['0'], none⟩
  else
    let d := x.shortest format.tie
    if format.least ≤ d.point ∧ d.point ≤ format.most then
      let (whole, fraction) := d.positional
      ⟨x.negative, whole, some (if fraction.isEmpty then ['0'] else fraction), none⟩
    else
      let (whole, fraction, e) := d.scientific
      ⟨x.negative, whole, if fraction.isEmpty then none else some fraction,
        some (e < 0, Nat.toDigits 10 e.natAbs)⟩

end Numeral

namespace Json

def ofInt (n : Int) : Json := .num (.ofInt n)

def ofNat (n : Nat) : Json := ofInt n

def ofString (s : String) : Json := .str (some s)

def record (members : List (String × Json)) : Json :=
  .obj (members.map fun m => (some m.1, m.2))

def isNull : Json → Bool
  | .null => true
  | _ => false

end Json
end IntervalStack
