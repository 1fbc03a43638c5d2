import IntervalStack.Frame

/-! The data and the error handlers that every program carries. -/

namespace IntervalStack

namespace Environment

def mainLabel : String := "$$main"
def nullGuard : String := "$eat-location-zero"

def integerFormat : String := "$print-format-integer"
def floatFormat : String := "$print-format-floating"
def characterFormat : String := "$print-format-character"
def stringFormat : String := "$print-format-string"
def newlineString : String := "$print-format-newline"
def spaceString : String := "$print-format-space"
def trueString : String := "$boolean-true-string"
def falseString : String := "$boolean-false-string"
def openBracketString : String := "$print-format-open-bracket"
def closeBracketString : String := "$print-format-close-bracket"
def separatorString : String := "$print-format-separator"

def errorFormat : String := "$errors-general-message"
def divideByZeroMessage : String := "$errors-divide-by-zero"
def generalError : String := "$$general-runtime-error"
def divideByZero : String := "$$divide-by-zero"

def allocateEntry : String := "-mem-manager-allocate"
def deallocateEntry : String := "-mem-manager-deallocate"

def structName (typeCode : Int32) : String := "$struct-name-" ++ toString typeCode.toInt

def dataString (label text : String) : Code := [.dLabel label, .dataS text]

/-- The jump to the main program and the data behind it. The guard comes first, so that no record
and no variable has address zero. -/
def opening (c : Cells) (globalSize : UInt32) : Code :=
  [Instr.jump mainLabel, .dLabel nullGuard, .dataZ 8]
    ++ dataString integerFormat "%d"
    ++ dataString floatFormat "%g"
    ++ dataString characterFormat "%c"
    ++ dataString stringFormat "%s"
    ++ dataString newlineString "\n"
    ++ dataString spaceString " "
    ++ dataString trueString "true"
    ++ dataString falseString "false"
    ++ dataString openBracketString "["
    ++ dataString closeBracketString "]"
    ++ dataString separatorString ", "
    ++ dataString errorFormat "Runtime error: %s\n"
    ++ dataString divideByZeroMessage "division by zero"
    ++ c.declare
    ++ [Instr.dLabel Frame.globalBlock, .dataZ globalSize]

def errorHandlers : Code :=
  [.label generalError, .pushD errorFormat, .printf, .halt,
    .label divideByZero, .pushD divideByZeroMessage, .jump generalError]

def printString (label : String) : Code := [.pushD label, .printf]

end Environment
end IntervalStack
