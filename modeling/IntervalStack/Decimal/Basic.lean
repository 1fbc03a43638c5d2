import IntervalStack.Double

/-! Decimal numbers as digit strings with a point, and the two ways to write them down. -/

namespace IntervalStack

structure Decimal where
  digits : List Char
  point : Int
deriving DecidableEq

namespace Decimal

def digitCount (n : Nat) : Nat := (Nat.toDigits 10 n).length

def pointOf (num den : Nat) : Int :=
  if den ≤ num then digitCount (num / den) else 1 - digitCount ((den - 1) / num)

def scaled (num den : Nat) (s : Int) : Nat × Nat :=
  if 0 ≤ s then (num * Nat.pow 10 s.toNat, den) else (num, den * Nat.pow 10 (-s).toNat)

def zeros (n : Nat) : List Char := List.replicate n '0'

def dropTrailingZeros (cs : List Char) : List Char :=
  (cs.reverse.dropWhile (· == '0')).reverse

def ofNat (n : Nat) (exponent : Int) : Decimal :=
  let cs := Nat.toDigits 10 n
  ⟨dropTrailingZeros cs, cs.length + exponent⟩

def positional (d : Decimal) : List Char × List Char :=
  if d.point ≤ 0 then (['0'], zeros (-d.point).toNat ++ d.digits)
  else
    let n := d.point.toNat
    (d.digits.take n ++ zeros (n - d.digits.length), d.digits.drop n)

def scientific (d : Decimal) : List Char × List Char × Int :=
  (d.digits.take 1, d.digits.drop 1, d.point - 1)

end Decimal
end IntervalStack
