/-! UTF-8 bytes of a text, and reading bytes that need not be well formed: every longest run of
bytes that starts a character and does not finish it becomes one replacement character. -/

namespace IntervalStack.Text

def encode (s : String) : List UInt8 := s.toList.flatMap String.utf8EncodeChar

def replacement : Char := '�'

def continues (b : UInt8) : Bool := 0x80 ≤ b && b ≤ 0xBF

def secondFits (first second : UInt8) : Bool :=
  if first = 0xE0 then 0xA0 ≤ second && second ≤ 0xBF
  else if first = 0xED then 0x80 ≤ second && second ≤ 0x9F
  else if first = 0xF0 then 0x90 ≤ second && second ≤ 0xBF
  else if first = 0xF4 then 0x80 ≤ second && second ≤ 0x8F
  else continues second

def low (b : UInt8) : Nat := b.toNat % 64

def character (a : UInt8) (rest : List UInt8) : Char × Nat :=
  if a < 0x80 then (Char.ofNat a.toNat, 0)
  else if 0xC2 ≤ a && a ≤ 0xDF then
    match rest with
    | b :: _ =>
      if continues b then (Char.ofNat (a.toNat % 32 * 64 + low b), 1) else (replacement, 0)
    | [] => (replacement, 0)
  else if 0xE0 ≤ a && a ≤ 0xEF then
    match rest with
    | b :: c :: _ =>
      if !secondFits a b then (replacement, 0)
      else if continues c then (Char.ofNat (a.toNat % 16 * 4096 + low b * 64 + low c), 2)
      else (replacement, 1)
    | [b] => (replacement, if secondFits a b then 1 else 0)
    | [] => (replacement, 0)
  else if 0xF0 ≤ a && a ≤ 0xF4 then
    match rest with
    | b :: c :: d :: _ =>
      if !secondFits a b then (replacement, 0)
      else if !continues c then (replacement, 1)
      else if continues d then
        (Char.ofNat (a.toNat % 8 * 262144 + low b * 4096 + low c * 64 + low d), 3)
      else (replacement, 2)
    | [b, c] => (replacement, if !secondFits a b then 0 else if continues c then 2 else 1)
    | [b] => (replacement, if secondFits a b then 1 else 0)
    | [] => (replacement, 0)
  else (replacement, 0)

def decodeFrom : Nat → List UInt8 → List Char
  | _, [] => []
  | skip + 1, _ :: rest => decodeFrom skip rest
  | 0, a :: rest => (character a rest).1 :: decodeFrom (character a rest).2 rest

def decode (bytes : List UInt8) : String := String.ofList (decodeFrom 0 bytes)

end IntervalStack.Text
