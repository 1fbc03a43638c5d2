import IntervalStack.Generator.Context

/-! Code for expressions. -/

namespace IntervalStack.Generator

def value (code : Code) : Fragment := ⟨.value, code⟩

def address (code : Code) : Fragment := ⟨.address, code⟩

/-- The instructions of an arithmetic operator, for integers or for floats. A division by zero goes
to the error handler. -/
def arithmetic? : BinOp → Bool → Option Code
  | .add, false => some [.add]
  | .add, true => some [.fAdd]
  | .sub, false => some [.subtract]
  | .sub, true => some [.fSubtract]
  | .mul, false => some [.multiply]
  | .mul, true => some [.fMultiply]
  | .div, false => some [.duplicate, .jumpFalse Environment.divideByZero, .divide]
  | .div, true => some [.duplicate, .jumpFZero Environment.divideByZero, .fDivide]
  | _, _ => none

def comparisonJump : BinOp → Bool → String → Instr
  | .less, false | .greaterEq, false => .jumpNeg
  | .less, true | .greaterEq, true => .jumpFNeg
  | .greater, false | .lessEq, false => .jumpPos
  | .greater, true | .lessEq, true => .jumpFPos
  | .eq, false => .jumpFalse
  | .notEq, false => .jumpTrue
  | _, _ => .jumpFZero

def holdsWhenTaken (op : BinOp) (float : Bool) : Bool :=
  !(op == .lessEq || op == .greaterEq) && !(op == .notEq && float)

def truth (b : Bool) : Instr := .pushI (if b then 1 else 0)

def compareCode (op : BinOp) (float : Bool) (group : String) : Code :=
  let target := Labels.part group "taken"
  let join := Labels.part group "join"
  let taken := holdsWhenTaken op float
  [comparisonJump op float target, truth !taken, .jump join,
    .label target, truth taken, .label join]

def logicalCode (op : BinOp) (left right : Code) (done : String) : Code :=
  let jump : Instr := if op = .and then .jumpFalse done else .jumpTrue done
  left ++ [Instr.duplicate, jump, .pop] ++ right ++ [Instr.label done]

def floatToBool (group : String) : Code :=
  let zero := Labels.part group "zero"
  let join := Labels.part group "join"
  [.jumpFZero zero, .pushI 1, .jump join, .label zero, .pushI 0, .label join]

def unaryCode (op : UnaryOp) (ty : Ty) (span : Span) : Gen Code :=
  match op, ty with
  | .not, .bool => pure [.bNegate]
  | .negate, .float => pure [.fNegate]
  | .negate, .int | .negate, .char => pure [.negate]
  | .toFloat, .float => pure []
  | .toFloat, _ => pure [.convertF]
  | .toInt, .float => pure [.convertI]
  | .toInt, _ => pure []
  | .toChar, .char => pure []
  | .toChar, .float => pure [.convertI, .pushI 127, .btAnd]
  | .toChar, _ => pure [.pushI 127, .btAnd]
  | .toBool, .bool => pure []
  | .toBool, .float => return floatToBool (← fresh "to-bool")
  | .toBool, _ => pure [.bNegate, .bNegate]
  | _, _ => refuse (.unsupportedOperand op.name ty) span

def allocateRecord (size : UInt32) (typeCode : Int32) : Code :=
  [.pushI size.toInt32, .call Environment.allocateEntry,
    .duplicate, .pushI 1, .storeI,
    .duplicate, .pushI Layout.typeCodeOffset, .add, .pushI typeCode, .storeI]

def intervalCode (sub : Ty) (typeCode : Int32) (store : Instr) (low high : Code) : Code :=
  allocateRecord (Layout.intervalSize sub) typeCode
    ++ [Instr.duplicate, .pushI Layout.subtypeSizeOffset, .add, .pushI sub.size.toInt32, .storeC]
    ++ [Instr.duplicate, .pushI (Layout.boundOffset sub .low), .add] ++ low ++ [store]
    ++ [Instr.duplicate, .pushI (Layout.boundOffset sub .high), .add] ++ high ++ [store]

def newStructCode (s : StructLayout) : Code :=
  allocateRecord s.recordSize s.typeCode
    ++ [Instr.duplicate, .duplicate, .pushI Layout.selfOffset, .add, .exchange, .storeI]
    ++ s.referenceSlots.flatMap (fun slot => [Instr.duplicate, .pushI slot, .add, .pushI 0, .storeI])
    ++ Frame.callInitializer cells (initializerLabel s.typeCode)

/-- A part of the record that `object` yields. A part of a stored record is named by its address. A
new record ends here: the part is read, and counted if it is a reference, before the record is
scheduled. -/
def memberOf (object : Expr) (f : Fragment) (offset : Int32) (ty : Ty) (span : Span) :
    Gen Fragment := do
  let code ← valueOf object f
  if isFresh f object.ty then
    let load ← shaped (Fragment.loadOf ty) span
    notePush
    return value (code ++ [Instr.duplicate, .pushI offset, .add, load]
      ++ (if ty.isHeap then [Instr.duplicate, RefCounter.increment] else [])
      ++ [Instr.exchange, RefCounter.push])
  else return address (code ++ [Instr.pushI offset, .add])

def resultFragment (result : Ty) (code : Code) : Fragment :=
  if result = .void then ⟨.void, code⟩ else ⟨.value, code⟩

def callCode (name : String) (result : Ty) (args : Code) : Fragment :=
  resultFragment result
    (args ++ [Instr.call (functionLabel name)] ++ Frame.fetchResult cells result)

def functionOf (ctx : Context) (name : String) (span : Span) : Gen Function :=
  match ctx.program.function? name with
  | some f => pure f
  | none => refuse (.unknownFunction name) span

def methodOf (ctx : Context) (receiver : Ty) (name : String) (span : Span) :
    Gen (Function × Int32) :=
  match receiver with
  | .struct id => do
    let d ← structOf ctx id span
    match d.method? name with
    | some f => return (f, (← layoutOf ctx id span).typeCode)
    | none => refuse (.unknownMethod receiver name) span
  | _ => refuse (.unknownMethod receiver name) span

def checkArity (name : String) (params : List Binding) (args : List Expr) (span : Span) :
    Gen Unit :=
  require (args.length = params.length) (.arityMismatch name params.length args.length) span

/-- The call of a method. The receiver stays on the operand stack with a reference of its own, which
is scheduled for a decrement after the call. -/
def methodCode (receiver : Code) (fresh : Bool) (label : String) (result : Ty) (args : Code) :
    Gen Fragment := do
  let code := receiver ++ (if fresh then [] else [Instr.duplicate, RefCounter.increment])
    ++ [Instr.duplicate] ++ Frame.pushArgument cells .int ++ args
    ++ [Instr.call label] ++ Frame.fetchResult cells result
  notePush
  return resultFragment result
    (code ++ (if result = .void then [RefCounter.push] else [Instr.exchange, RefCounter.push]))

mutual

def expr (ctx : Context) : Expr → Gen Fragment
  | ⟨kind, ty, span⟩ => exprKind ctx ty span kind

def exprKind (ctx : Context) (ty : Ty) (span : Span) : ExprKind → Gen Fragment
  | .bool b => pure (value [truth b])
  | .char c => pure (value [.pushI c.val.toInt32])
  | .int n => pure (value [.pushI n])
  | .float x => pure (value [.pushF x])
  | .ident b => return address (← bindingAddress ctx b span)
  | .self =>
    match ctx.selfSlot with
    | some slot => pure (address (cells.loadFrame ++ [Instr.pushI slot, .add]))
    | none => refuse .selfOutsideStruct span
  | .binary op lhs rhs => do
    let unsupported := GenerationError.unsupportedOperand op.symbol lhs.ty
    require (!lhs.ty.isHeap && lhs.ty ≠ .void) unsupported span
    let left ← valueOf lhs (← expr ctx lhs)
    if op.isLogical then
      require (lhs.ty = .bool) unsupported span
      let done ← fresh (if op = .and then "and" else "or")
      let right ← valueOf rhs (← expr ctx rhs)
      return value (logicalCode op left right done)
    else
      let right ← valueOf rhs (← expr ctx rhs)
      let float := lhs.ty.isFloat
      if op.isComparison then
        let group ← fresh "compare"
        return value (left ++ right ++ [if float then .fSubtract else .subtract]
          ++ compareCode op float group)
      else
        require (lhs.ty ≠ .bool) unsupported span
        match arithmetic? op float with
        | some code => return value (left ++ right ++ code)
        | none => refuse unsupported span
  | .unary op operand => do
    require (!operand.ty.isHeap && operand.ty ≠ .void)
      (.unsupportedOperand op.name operand.ty) span
    let code ← valueOf operand (← expr ctx operand)
    return value (code ++ (← unaryCode op operand.ty span))
  | .interval low high =>
    match ty with
    | .interval sub => do
      let store ← shaped (Fragment.storeOf sub) span
      let lowCode ← ownedValueOf low (← expr ctx low)
      let highCode ← ownedValueOf high (← expr ctx high)
      let typeCode := if sub.isHeap then Layout.nestedIntervalCode else Layout.flatIntervalCode
      return value (intervalCode sub typeCode store lowCode highCode)
    | _ => refuse (.unsupportedOperand ".." ty) span
  | .bound interval b =>
    match interval.ty with
    | .interval sub => do
      memberOf interval (← expr ctx interval) (Layout.boundOffset sub b) ty span
    | other => refuse (.unsupportedOperand b.selector other) span
  | .field object member =>
    match member.storage with
    | .member offset => do memberOf object (← expr ctx object) offset member.ty span
    | _ => refuse (.notAMember member.name) span
  | .methodCall object method args => do
    let f ← expr ctx object
    let receiver ← valueOf object f
    let (callee, typeCode) ← methodOf ctx object.ty method span
    checkArity method callee.params args span
    let code ← arguments ctx (callee.params.map (·.ty)) args
    methodCode receiver (isFresh f object.ty) (methodLabel typeCode method) callee.returnType code
  | .call function args => do
    let callee ← functionOf ctx function span
    checkArity function callee.params args span
    let code ← arguments ctx (callee.params.map (·.ty)) args
    return callCode function callee.returnType code
  | .new id => return value (newStructCode (← layoutOf ctx id span))

def arguments (ctx : Context) (params : List Ty) : List Expr → Gen Code
  | [] => pure []
  | e :: es =>
    match params with
    | [] => pure []
    | ty :: tys => do
      let code ← ownedValueOf e (← expr ctx e)
      let rest ← arguments ctx tys es
      return code ++ Frame.pushArgument cells ty ++ rest

end

end IntervalStack.Generator
