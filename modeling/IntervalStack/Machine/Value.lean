import IntervalStack.Decimal.Shortest

/-! Values on the operand stack. -/

namespace IntervalStack

inductive Value
  | int (n : Int32)
  | float (x : Double)
deriving DecidableEq

def Value.text : Value → String
  | .int n => "Int(" ++ toString n.toInt ++ ")"
  | .float x => "Float(" ++ x.text ++ ")"

end IntervalStack
