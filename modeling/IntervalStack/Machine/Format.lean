import IntervalStack.Machine.Value

/-! Print formats: texts with the directives `%d`, `%g`, `%c` and `%s`, and `%%` for the sign
itself. -/

namespace IntervalStack

inductive Piece
  | text (s : String)
  | int
  | general
  | char
  | str
deriving DecidableEq

inductive FormatError
  | unknownDirective (c : Char)
  | trailingPercent
  | missingArgument
  | mismatch (argument : Value) (piece : Piece)
deriving DecidableEq

namespace Piece

def name : Piece → String
  | .text _ => "Text"
  | .int => "Int"
  | .general => "General"
  | .char => "Char"
  | .str => "Str"

def takesArgument : Piece → Bool
  | .text _ => false
  | _ => true

def ofLetter? : Char → Option Piece
  | 'd' => some .int
  | 'g' => some .general
  | 'c' => some .char
  | 's' => some .str
  | _ => none

def written : Piece → List Char
  | .text s => s.toList.flatMap fun c => if c = '%' then ['%', '%'] else [c]
  | .int => ['%', 'd']
  | .general => ['%', 'g']
  | .char => ['%', 'c']
  | .str => ['%', 's']

end Piece

def FormatError.message : FormatError → String
  | .unknownDirective c => "%" ++ String.singleton c
  | .trailingPercent => "trailing %"
  | .missingArgument => "missing printf argument"
  | .mismatch argument piece => "argument " ++ argument.text ++ " does not match " ++ piece.name

namespace Format

def cons (c : Char) : List Piece → List Piece
  | .text s :: ps => .text (String.ofList (c :: s.toList)) :: ps
  | ps => .text (String.singleton c) :: ps

def parseChars : List Char → Except FormatError (List Piece)
  | [] => .ok []
  | ['%'] => .error .trailingPercent
  | '%' :: c :: rest =>
    if c = '%' then (parseChars rest).map (cons '%')
    else
      match Piece.ofLetter? c with
      | some piece => (parseChars rest).map (piece :: ·)
      | none => .error (.unknownDirective c)
  | c :: rest => (parseChars rest).map (cons c)

def parse (s : String) : Except FormatError (List Piece) := parseChars s.toList

def written (pieces : List Piece) : String := String.ofList (pieces.flatMap Piece.written)

def argumentCount (pieces : List Piece) : Nat := pieces.countP Piece.takesArgument

end Format
end IntervalStack
