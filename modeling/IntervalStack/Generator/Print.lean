import IntervalStack.Generator.Expr

/-! Code that prints values, and the routines that print intervals. -/

namespace IntervalStack.Generator

open Environment (printString)

def printBoolCode (group : String) : Code :=
  let no := Labels.part group "false"
  let join := Labels.part group "join"
  [.jumpFalse no, .pushD Environment.trueString, .jump join,
    .label no, .pushD Environment.falseString, .label join]
    ++ printString Environment.stringFormat

def printScalar : ScalarKind → Gen Code
  | .float => pure (printString Environment.floatFormat)
  | .char => pure (printString Environment.characterFormat)
  | .int => pure (printString Environment.integerFormat)
  | .bool => return printBoolCode (← fresh "print-bool")

def printInterval (code : Code) (fresh : Bool) (k : ScalarKind) : Gen Code := do
  notePrinter k
  if fresh then
    notePush
    return code ++ [Instr.duplicate, .call k.printer, RefCounter.push]
  else return code ++ [Instr.call k.printer]

def printStruct (ctx : Context) (code : Code) (fresh : Bool) (id : StructId) (span : Span) :
    Gen Code := do
  let d ← structOf ctx id span
  match d.printer with
  | some method => do
    let result := ((d.method? method).map (·.returnType)).getD .void
    let (callee, typeCode) ← methodOf ctx (.struct id) method span
    checkArity method callee.params [] span
    let f ← methodCode code fresh (methodLabel typeCode method) callee.returnType []
    discard f result
  | none => do
    let s ← layoutOf ctx id span
    let name := .pushD (Environment.structName s.typeCode) :: printString Environment.stringFormat
    if fresh then
      notePush
      return code ++ [RefCounter.push] ++ name
    else return code ++ [Instr.pop] ++ name

def printItem (ctx : Context) (item : Expr) : Gen Code := do
  match ScalarKind.of? item.ty with
  | some k => do
    let code ← valueOf item (← expr ctx item)
    return code ++ (← printScalar k)
  | none => do
    let f ← expr ctx item
    let code ← valueOf item f
    let fresh := isFresh f item.ty
    match item.ty with
    | .interval _ =>
      match ScalarKind.of? item.ty.base with
      | some k => printInterval code fresh k
      | none => refuse (.unprintable item.ty) item.span
    | .struct id => printStruct ctx code fresh id item.span
    | _ => refuse (.unprintable item.ty) item.span

def printSpaced (ctx : Context) (space : Code) : List Expr → Gen Code
  | [] => pure []
  | e :: es => do
    let code ← printItem ctx e
    let rest ← printSpaced ctx space es
    return space ++ code ++ rest

def printItems (ctx : Context) (space : Code) : List Expr → Gen Code
  | [] => pure []
  | e :: es => do
    let code ← printItem ctx e
    let rest ← printSpaced ctx space es
    return code ++ rest

def print (ctx : Context) (items : List Expr) (spaces newline : Bool) : Gen Code := do
  let space := if spaces then printString Environment.spaceString else []
  let code ← printItems ctx space items
  return code ++ (if newline then printString Environment.newlineString else [])

/-- The routine that prints intervals over a kind of scalar. It takes the record from below the
return address. A flat interval has its high bound behind as many bytes as its header says; a nested
one has two records, printed by the same routine. -/
def intervalPrinter (k : ScalarKind) : Gen Code := do
  let load := (Instr.load? k.ty).getD .loadI
  let group ← fresh "interval-printer"
  let nested := Labels.part group "nested"
  let close := Labels.part group "close"
  let low ← printScalar k
  let high ← printScalar k
  let separator := printString Environment.separatorString
  let child (offset : Int32) : Code :=
    [.duplicate, .pushI offset, .add, .loadI, .call k.printer]
  return [Instr.label k.printer, .exchange] ++ printString Environment.openBracketString
    ++ [Instr.duplicate, .pushI Layout.typeCodeOffset, .add, .loadI,
      .pushI Layout.nestedIntervalCode, .subtract, .jumpFalse nested]
    ++ [Instr.duplicate, .pushI Layout.payloadOffset, .add, load] ++ low
    ++ separator
    ++ [Instr.duplicate, .duplicate, .pushI Layout.subtypeSizeOffset, .add, .loadC,
      .pushI Layout.payloadOffset, .add, .add, load] ++ high
    ++ [Instr.jump close]
    ++ [Instr.label nested]
    ++ child Layout.payloadOffset ++ separator
    ++ child (Layout.payloadOffset + Layout.pointerSize.toInt32)
    ++ [Instr.label close, .pop] ++ printString Environment.closeBracketString ++ [Instr.ret]

def intervalPrinters : List ScalarKind → Gen Code
  | [] => pure []
  | k :: ks => do
    let code ← intervalPrinter k
    let rest ← intervalPrinters ks
    return code ++ rest

end IntervalStack.Generator
