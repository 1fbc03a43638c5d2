import IntervalStack.Asm.Instr

/-! Sequences of instructions and their listing. -/

namespace IntervalStack

abbrev Code := List Instr

namespace Code

def line : Instr → String
  | .label l => (Instr.label l).text
  | .dLabel l => (Instr.dLabel l).text
  | i => "    " ++ i.text

def text (code : Code) : String := String.join (code.map fun i => line i ++ "\n")

def occurrences (code : Code) (i : Instr) : Nat := code.countP (·.equals i)

def calls (code : Code) (routine : String) : Nat := code.countP (· == .call routine)

def dataCount (code : Code) : Nat := code.countP Instr.isData

end Code
end IntervalStack
