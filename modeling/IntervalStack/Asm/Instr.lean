import IntervalStack.Decimal.Shortest
import IntervalStack.Text.Escape
import IntervalStack.Tree.Ty

/-! Instructions of the stack machine and their assembly text. A store finds the address below the
value, a jump pops its condition, a call pushes the return address and a return pops it. -/

namespace IntervalStack

inductive Instr
  | dLabel (name : String)
  | dataZ (count : UInt32)
  | dataI (value : Int32)
  | dataF (value : Double)
  | dataC (value : UInt8)
  | dataS (text : String)
  | label (name : String)
  | pushI (value : Int32)
  | pushF (value : Double)
  | pushD (label : String)
  | duplicate
  | exchange
  | pop
  | loadC
  | loadI
  | loadF
  | storeC
  | storeI
  | storeF
  | add
  | subtract
  | multiply
  | divide
  | negate
  | fAdd
  | fSubtract
  | fMultiply
  | fDivide
  | fNegate
  | convertF
  | convertI
  | btAnd
  | btOr
  | bNegate
  | jump (target : String)
  | jumpTrue (target : String)
  | jumpFalse (target : String)
  | jumpPos (target : String)
  | jumpNeg (target : String)
  | jumpFZero (target : String)
  | jumpFPos (target : String)
  | jumpFNeg (target : String)
  | call (target : String)
  | ret
  | halt
  | printf
  | memtop
  | nop
deriving DecidableEq, Inhabited

namespace Instr

def isData : Instr → Bool
  | .dLabel _ | .dataZ _ | .dataI _ | .dataF _ | .dataC _ | .dataS _ => true
  | _ => false

def target? : Instr → Option String
  | .jump l | .jumpTrue l | .jumpFalse l | .jumpPos l | .jumpNeg l
  | .jumpFZero l | .jumpFPos l | .jumpFNeg l | .call l => some l
  | _ => none

def mnemonic : Instr → String
  | .dLabel _ => "DLabel"
  | .dataZ _ => "DataZ"
  | .dataI _ => "DataI"
  | .dataF _ => "DataF"
  | .dataC _ => "DataC"
  | .dataS _ => "DataS"
  | .label _ => "Label"
  | .pushI _ => "PushI"
  | .pushF _ => "PushF"
  | .pushD _ => "PushD"
  | .duplicate => "Duplicate"
  | .exchange => "Exchange"
  | .pop => "Pop"
  | .loadC => "LoadC"
  | .loadI => "LoadI"
  | .loadF => "LoadF"
  | .storeC => "StoreC"
  | .storeI => "StoreI"
  | .storeF => "StoreF"
  | .add => "Add"
  | .subtract => "Subtract"
  | .multiply => "Multiply"
  | .divide => "Divide"
  | .negate => "Negate"
  | .fAdd => "FAdd"
  | .fSubtract => "FSubtract"
  | .fMultiply => "FMultiply"
  | .fDivide => "FDivide"
  | .fNegate => "FNegate"
  | .convertF => "ConvertF"
  | .convertI => "ConvertI"
  | .btAnd => "BTAnd"
  | .btOr => "BTOr"
  | .bNegate => "BNegate"
  | .jump _ => "Jump"
  | .jumpTrue _ => "JumpTrue"
  | .jumpFalse _ => "JumpFalse"
  | .jumpPos _ => "JumpPos"
  | .jumpNeg _ => "JumpNeg"
  | .jumpFZero _ => "JumpFZero"
  | .jumpFPos _ => "JumpFPos"
  | .jumpFNeg _ => "JumpFNeg"
  | .call _ => "Call"
  | .ret => "Return"
  | .halt => "Halt"
  | .printf => "Printf"
  | .memtop => "Memtop"
  | .nop => "Nop"

def operand? : Instr → Option String
  | .dLabel l | .label l | .pushD l => some l
  | .dataZ n => some (toString n.toNat)
  | .dataI n | .pushI n => some (toString n.toInt)
  | .dataF x | .pushF x => some x.text
  | .dataC c => some (toString c.toNat)
  | .dataS s => some ("\"" ++ Text.escape s ++ "\"")
  | i => i.target?

def text (i : Instr) : String :=
  match i.operand? with
  | some operand => i.mnemonic ++ " " ++ operand
  | none => i.mnemonic

def equals : Instr → Instr → Bool
  | .dataF x, .dataF y => x.equals y
  | .pushF x, .pushF y => x.equals y
  | i, j => i == j

def load? : Ty → Option Instr
  | .bool | .char => some .loadC
  | .float => some .loadF
  | .int | .interval _ | .struct _ => some .loadI
  | .void => none

def store? : Ty → Option Instr
  | .bool | .char => some .storeC
  | .float => some .storeF
  | .int | .interval _ | .struct _ => some .storeI
  | .void => none

end Instr
end IntervalStack
