import IntervalStack.Decimal.General
import IntervalStack.Machine.Fault

/-! Printing by a format: each directive takes the next argument. -/

namespace IntervalStack.Format

def renderArgument (readText : UInt32 → Except Fault String) (piece : Piece) (argument : Value) :
    Except Fault String :=
  match piece, argument with
  | .int, .int n => .ok (toString n.toInt)
  | .general, .float x => .ok x.general
  | .char, .int n => .ok (String.singleton (Char.ofNat (n.toUInt32.toNat % 256)))
  | .str, .int n => readText n.toUInt32
  | _, _ => .error (.badFormat (.mismatch argument piece))

def render (readText : UInt32 → Except Fault String) :
    List Piece → List Value → Except Fault String
  | [], _ => .ok ""
  | .text s :: pieces, arguments => do
    let rest ← render readText pieces arguments
    return s ++ rest
  | piece :: pieces, argument :: arguments => do
    let first ← renderArgument readText piece argument
    let rest ← render readText pieces arguments
    return first ++ rest
  | _ :: _, [] => .error (.badFormat .missingArgument)

end IntervalStack.Format
