import IntervalStack.Text.Printable

/-! Escaped texts of assembly listings. Quotes, backslashes and line breaks get a short escape and
other characters without a visible form a numeric one; an extending mark is escaped only at the
start, where it has nothing to extend. -/

namespace IntervalStack.Text

def numericEscape (c : Char) : List Char :=
  ['\\', 'u', '\x7b'] ++ Nat.toDigits 16 c.toNat ++ ['\x7d']

def escapeChar (first : Bool) (c : Char) : List Char :=
  match c with
  | '\x00' => ['\\', '0']
  | '\t' => ['\\', 't']
  | '\r' => ['\\', 'r']
  | '\n' => ['\\', 'n']
  | '\\' => ['\\', '\\']
  | '"' => ['\\', '"']
  | '\'' => ['\\', '\'']
  | c => if isPrintable c && !(first && isExtending c) then [c] else numericEscape c

def escapeChars : List Char → List Char
  | [] => []
  | c :: cs => escapeChar true c ++ cs.flatMap (escapeChar false)

def escape (s : String) : String := String.ofList (escapeChars s.toList)

end IntervalStack.Text
