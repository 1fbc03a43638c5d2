import IntervalStack.Generator.Print

/-! Code for statements and blocks. -/

namespace IntervalStack.Generator

def blockSpan : List LocatedStmt → Span
  | [] => .none
  | s :: _ => s.span

def declare (ctx : Context) (target : Binding) (e : Expr) (span : Span) : Gen Code := do
  let store ← shaped (Fragment.storeOf target.ty) span
  let place ← bindingAddress ctx target span
  let code ← ownedValueOf e (← expr ctx e)
  return place ++ code ++ [store]

def isPart : ExprKind → Bool
  | .field .. | .bound .. => true
  | _ => false

def update (ctx : Context) (target e : Expr) (span : Span) : Gen Code := do
  let store ← shaped (Fragment.storeOf target.ty) span
  let code ← ownedValueOf e (← expr ctx e)
  let f ← expr ctx target
  require (f.isAddress || !isPart target.kind) .temporaryUpdateTarget span
  let place ← shaped f.toAddress target.span
  if target.ty.isHeap then
    notePush
    return code ++ place ++ [Instr.duplicate, .loadI, RefCounter.push, .exchange, store]
  else return code ++ place ++ [Instr.exchange, store]

def leaveLoop (ctx : Context) (span : Span) : Gen Code :=
  match ctx.loop with
  | none => refuse .breakOutsideLoop span
  | some loop => do
    let (release, pending) ← releaseDownTo ctx loop.depth span
    return release ++ (if pending then [RefCounter.drain] else []) ++ [Instr.jump loop.endLabel]

def returnValue (ctx : Context) (routine : Routine) (value : Option Expr) (span : Span) :
    Gen Code :=
  match value with
  | some e =>
    if routine.returnType = .void then refuse (.returnMismatch routine.returnType) span
    else do ownedValueOf e (← expr ctx e)
  | none =>
    if routine.returnType = .void then pure []
    else refuse (.returnMismatch routine.returnType) span

/-- A return counts a borrowed result, releases all open scopes and leaves through the exit of the
routine, which drains. -/
def leaveRoutine (ctx : Context) (value : Option Expr) (span : Span) : Gen Code :=
  match ctx.routine with
  | none => refuse .returnOutsideFunction span
  | some routine => do
    let code ← returnValue ctx routine value span
    let (release, pending) ← releaseDownTo ctx 0 span
    modify fun s => { s with exitPushed := s.exitPushed || pending }
    return code ++ release ++ [Instr.jump routine.exitLabel]

def loopCondition (ctx : Context) (cond : Expr) : Gen (Code × Bool) := do
  let before := (← get).pushed
  modify fun s => { s with pushed := false }
  let code ← valueOf cond (← expr ctx cond)
  let pushed := (← get).pushed
  modify fun s => { s with pushed := pushed || before }
  return (code, pushed)

mutual

/-- A block clears the references of its scope, runs its statements, and releases its references. It
drains when something was scheduled in it, or when `force` asks for it. -/
def block (ctx : Context) (force : Bool) : Block → Gen Code
  | ⟨scope, body⟩ => do
    let span := blockSpan body
    let clear ← clearReferences ctx span scope.owned
    let before := (← get).pushed
    modify fun s => { s with pushed := false }
    let code ← stmts (ctx.enter scope before) body
    let release ← releaseBindings ctx span scope.owned
    let pushed := (← get).pushed
    modify fun s => { s with pushed := before }
    return clear ++ code ++ release ++ (if pushed || force then [RefCounter.drain] else [])

def stmts (ctx : Context) : List LocatedStmt → Gen Code
  | [] => pure []
  | s :: rest => do
    let code ← locatedStmt ctx s
    let more ← stmts ctx rest
    return code ++ more

def locatedStmt (ctx : Context) : LocatedStmt → Gen Code
  | ⟨node, span⟩ => stmt ctx span node

def stmt (ctx : Context) (span : Span) : Stmt → Gen Code
  | .declaration target e => declare ctx target e span
  | .update target e => update ctx target e span
  | .print items spaces newline => print ctx items spaces newline
  | .ifElse cond thenBlock none => do
    let group ← fresh "if"
    let done := Labels.part group "end"
    let test ← valueOf cond (← expr ctx cond)
    let yes ← block ctx false thenBlock
    return test ++ [Instr.jumpFalse done] ++ yes ++ [Instr.label done]
  | .ifElse cond thenBlock (some elseBlock) => do
    let group ← fresh "if"
    let otherwise := Labels.part group "else"
    let done := Labels.part group "end"
    let test ← valueOf cond (← expr ctx cond)
    let yes ← block ctx false thenBlock
    let no ← block ctx false elseBlock
    return test ++ [Instr.jumpFalse otherwise] ++ yes ++ [Instr.jump done, .label otherwise] ++ no
      ++ [Instr.label done]
  | .loop cond body => do
    let group ← fresh "while"
    let test := Labels.part group "test"
    let done := Labels.part group "end"
    let (condCode, condPushed) ← loopCondition ctx cond
    let bodyCode ← block { ctx with loop := some ⟨done, ctx.depth⟩ } condPushed body
    return [Instr.label test] ++ condCode ++ [Instr.jumpFalse done] ++ bodyCode
      ++ [Instr.jump test, .label done]
  | .leave => leaveLoop ctx span
  | .ret value => leaveRoutine ctx value span
  | .call e => do discard (← expr ctx e) e.ty
  | .block b => block ctx false b

end

end IntervalStack.Generator
