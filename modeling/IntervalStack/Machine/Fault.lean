import IntervalStack.Machine.Format
import IntervalStack.Machine.Heap

/-! The faults that end a run or keep a program from being loaded. -/

namespace IntervalStack

def HeapError.message : HeapError → String
  | .outOfMemory size =>
    "memory manager cannot satisfy a request for " ++ toString size ++ " bytes"
  | .notLive address =>
    "deallocation of " ++ toString address ++ ", which is not a live allocation"
  | .unallocated address => "access to unallocated heap memory at " ++ toString address
  | .overflow cause => cause.message

inductive Operand
  | integer
  | float
deriving DecidableEq

def Operand.text : Operand → String
  | .integer => "integer"
  | .float => "float"

inductive Fault
  | stackUnderflow (pc : Nat)
  | typeMismatch (pc : Nat) (expected : Operand) (found : Value)
  | invalidAddress (address : Int) (width : Nat)
  | heap (error : HeapError)
  | unknownLabel (label : String)
  | duplicateLabel (label : String)
  | divideByZero (pc : Nat)
  | stepLimit (limit : Nat)
  | memoryLayout (memorySize : Nat)
  | badFormat (error : FormatError)
  | ranOffEnd
  | overflow (cause : Overflow)
deriving DecidableEq

def Fault.message : Fault → String
  | .stackUnderflow pc => "operand stack underflow at instruction " ++ toString pc
  | .typeMismatch pc expected found =>
    "expected " ++ expected.text ++ " operand at instruction " ++ toString pc ++ ", found "
      ++ found.text
  | .invalidAddress address width =>
    "access of " ++ toString width ++ " bytes at " ++ toString address ++ " is outside memory"
  | .heap error => error.message
  | .unknownLabel label => "undefined label `" ++ label ++ "`"
  | .duplicateLabel label => "label `" ++ label ++ "` defined twice"
  | .divideByZero pc => "integer division by zero at instruction " ++ toString pc
  | .stepLimit limit => "step limit of " ++ toString limit ++ " instructions exceeded"
  | .memoryLayout memorySize =>
    "data segment and heap do not fit in " ++ toString memorySize ++ " bytes of memory"
  | .badFormat error => "bad printf format: " ++ error.message
  | .ranOffEnd => "execution ran past the last instruction"
  | .overflow cause => cause.message

end IntervalStack
