import IntervalStack.Asm.Label
import IntervalStack.Generator.Error

/-! What a piece of code is generated in, and the steps that all pieces share.

Heap values follow one rule of ownership. A fragment that leaves an address names a reference that
somebody else owns, so storing its value costs an increment; a fragment that leaves a heap value
leaves a new reference, which its user takes over. A new reference that is not stored is scheduled
for a decrement right after its last use. -/

namespace IntervalStack

inductive ScalarKind
  | bool
  | char
  | int
  | float
deriving DecidableEq

namespace ScalarKind

def of? : Ty → Option ScalarKind
  | .bool => some .bool
  | .char => some .char
  | .int => some .int
  | .float => some .float
  | _ => none

def ty : ScalarKind → Ty
  | .bool => .bool
  | .char => .char
  | .int => .int
  | .float => .float

def all : List ScalarKind := [.bool, .char, .int, .float]

def printer (k : ScalarKind) : String := "-print-interval-" ++ k.ty.text

end ScalarKind

namespace Generator

def functionLabel (name : String) : String := "-function-" ++ name

def methodLabel (typeCode : Int32) (name : String) : String :=
  "-method-" ++ toString typeCode.toInt ++ "-" ++ name

def initializerLabel (typeCode : Int32) : String := "-struct-init-" ++ toString typeCode.toInt

structure OpenScope where
  scope : Scope
  pushed : Bool

structure Loop where
  endLabel : String
  depth : Nat

structure Routine where
  exitLabel : String
  returnType : Ty
  selfSlot : Option Int32

structure Context where
  program : Program
  structs : StructTable
  routine : Option Routine
  loop : Option Loop
  scope : Option Scope
  outer : List OpenScope

structure State where
  labels : Labels
  pushed : Bool
  exitPushed : Bool
  printers : List ScalarKind

abbrev Gen := StateT State (Except GenerationFailure)

def cells : Cells := .standard

def refuse {α : Type} (error : GenerationError) (span : Span) : Gen α :=
  throw (.refused error span)

def require (condition : Bool) (error : GenerationError) (span : Span) : Gen Unit :=
  if condition then pure () else refuse error span

def shaped {α : Type} (result : Except FragmentError α) (span : Span) : Gen α :=
  match result with
  | .ok a => pure a
  | .error e => refuse (.fragment e) span

def sized {α : Type} (result : Except Overflow α) : Gen α :=
  match result with
  | .ok a => pure a
  | .error o => throw (.overflow o)

def fresh (stem : String) : Gen String :=
  modifyGet fun s =>
    let (l, labels) := s.labels.fresh stem
    (l, { s with labels })

def notePush : Gen Unit := modify fun s => { s with pushed := true }

def notePrinter (k : ScalarKind) : Gen Unit :=
  modify fun s => { s with printers := s.printers.insert k }

namespace Context

def selfSlot (ctx : Context) : Option Int32 := ctx.routine.bind (·.selfSlot)

def depth (ctx : Context) : Nat := ctx.outer.length + (if ctx.scope.isSome then 1 else 0)

def enter (ctx : Context) (scope : Scope) (pushed : Bool) : Context :=
  { ctx with
    scope := some scope
    outer := match ctx.scope with
      | some s => ⟨s, pushed⟩ :: ctx.outer
      | none => ctx.outer }

def openScopes (ctx : Context) (pushed : Bool) : List OpenScope :=
  match ctx.scope with
  | some s => ⟨s, pushed⟩ :: ctx.outer
  | none => ctx.outer

end Context

def bindingAddress (ctx : Context) (b : Binding) (span : Span) : Gen Code :=
  match Frame.storageAddress? cells b.storage ctx.selfSlot with
  | some code => pure code
  | none => refuse (.memberOutsideStruct b.name) span

/-- Sets the references of a scope to null, so that one whose declaration never runs is released
without harm. -/
def clearReferences (ctx : Context) (span : Span) : List Binding → Gen Code
  | [] => pure []
  | b :: bs => do
    let address ← bindingAddress ctx b span
    let rest ← clearReferences ctx span bs
    return address ++ [Instr.pushI 0, .storeI] ++ rest

def releaseBindings (ctx : Context) (span : Span) : List Binding → Gen Code
  | [] => pure []
  | b :: bs => do
    let address ← bindingAddress ctx b span
    notePush
    let rest ← releaseBindings ctx span bs
    return address ++ [Instr.loadI, RefCounter.push] ++ rest

def releaseScopes (ctx : Context) (span : Span) : List OpenScope → Gen Code
  | [] => pure []
  | s :: ss => do
    let code ← releaseBindings ctx span s.scope.owned
    let rest ← releaseScopes ctx span ss
    return code ++ rest

/-- Releases the open scopes from the innermost one on until `depth` of them are left, without
closing them, and tells whether a drain is due. -/
def releaseDownTo (ctx : Context) (depth : Nat) (span : Span) : Gen (Code × Bool) := do
  let scopes := ctx.openScopes (← get).pushed
  let left := scopes.take (scopes.length - depth)
  let pending := left.any fun s => s.pushed || !s.scope.owned.isEmpty
  let code ← releaseScopes ctx span left
  return (code, pending)

def layoutOf (ctx : Context) (id : StructId) (span : Span) : Gen StructLayout :=
  match ctx.structs.get? id with
  | some s => pure s
  | none => refuse (.unknownStruct id) span

def structOf (ctx : Context) (id : StructId) (span : Span) : Gen StructDef :=
  match ctx.program.struct? id with
  | some d => pure d
  | none => refuse (.unknownStruct id) span

def isFresh (f : Fragment) (ty : Ty) : Bool := ty.isHeap && !f.isAddress

def valueOf (e : Expr) (f : Fragment) : Gen Code := shaped (f.toValue e.ty) e.span

def ownedValueOf (e : Expr) (f : Fragment) : Gen Code := do
  let code ← valueOf e f
  return if e.ty.isHeap && f.isAddress then code ++ [Instr.duplicate, RefCounter.increment] else code

def discard (f : Fragment) (ty : Ty) : Gen Code :=
  match f.shape with
  | .void => pure f.code
  | .address => pure (f.code ++ [Instr.pop])
  | .value =>
    if ty.isHeap then do
      notePush
      return f.code ++ [RefCounter.push]
    else pure (f.code ++ [Instr.pop])

end Generator
end IntervalStack
