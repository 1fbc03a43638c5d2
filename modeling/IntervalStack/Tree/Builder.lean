import IntervalStack.Frame
import IntervalStack.Layout

/-! Building a program call by call, with storage given out on the way. Globals grow upward from
zero. Parameters stand above the frame pointer, the last one at it. Locals grow downward below the
saved frame pointer and the return address. Members follow the header of their record. A block that
is closed gives its bytes back to the blocks behind it; a routine needs as many bytes as were in use
at one time. -/

namespace IntervalStack

inductive Builder.Target
  | main
  | function (name : String) (params : List Binding) (returnType : Ty)
  | method (id : StructId) (name : String) (params : List Binding) (returnType : Ty)
  | initializer (id : StructId)

structure Builder.OpenBlock where
  block : Block
  mark : UInt32

structure Builder.Context where
  target : Builder.Target
  used : UInt32
  peak : UInt32
  blocks : List Builder.OpenBlock

structure Builder where
  structs : List StructDef
  functions : List Function
  contexts : List Builder.Context
  main : Builder.Context

namespace Builder

inductive Error
  | endFunctionOutside
  | memberOutside
  | endStructOutside
  | overflow (cause : Overflow)
deriving DecidableEq

def Error.message : Error → String
  | .endFunctionOutside => "end_function outside of a function"
  | .memberOutside => "member declared outside of a struct"
  | .endStructOutside => "end_struct outside of a struct"
  | .overflow cause => cause.message

def sized {α : Type} : Except Overflow α → Except Error α
  | .ok a => .ok a
  | .error o => .error (.overflow o)

namespace Target

def isFrame : Target → Bool
  | .main => false
  | _ => true

end Target

namespace Context

def new (target : Target) : Context := ⟨target, 0, 0, [⟨.empty, 0⟩]⟩

def allocate (c : Context) (size : UInt32) : Except Overflow (Storage × Context) := do
  let storage ← if c.target.isFrame then do
      let extent ← Word.add (← Word.add Frame.headerSize c.used) size
      pure (Storage.belowFrame (← Word.negateSigned extent.toInt32))
    else pure (Storage.global c.used.toInt32)
  let used ← Word.add c.used size
  return (storage, { c with used, peak := max c.peak used })

def editBlock (c : Context) (edit : Block → Block) : Context :=
  match c.blocks with
  | [] => { c with blocks := [⟨edit .empty, c.used⟩] }
  | b :: bs => { c with blocks := { b with block := edit b.block } :: bs }

def addStmt (c : Context) (s : Stmt) : Context :=
  c.editBlock fun b => { b with stmts := b.stmts ++ [⟨s, .none⟩] }

def addBinding (c : Context) (b : Binding) : Context :=
  c.editBlock fun block =>
    { block with scope := { block.scope with bindings := block.scope.bindings ++ [b] } }

def openBlock (c : Context) : Context := { c with blocks := ⟨.empty, c.used⟩ :: c.blocks }

def sealBlock (b : OpenBlock) (used : UInt32) : Except Overflow Block := do
  let size ← Word.subtract used b.mark
  return { b.block with scope := { b.block.scope with allocatedSize := size } }

def closeBlock (c : Context) : Except Overflow (Block × Context) := do
  match c.blocks with
  | [] => return (← sealBlock ⟨.empty, 0⟩ c.used, { c with used := 0 })
  | b :: bs => return (← sealBlock b c.used, { c with used := b.mark, blocks := bs })

/-- Closes the open blocks into one another until only the given ones are left, of which the first
is the outermost block of all. -/
def foldBlocks (used : UInt32) (b : OpenBlock) : List OpenBlock → Except Overflow Block
  | [] => sealBlock b used
  | outer :: rest => do
    let inner ← sealBlock b used
    foldBlocks b.mark
      { outer with block := { outer.block with
          stmts := outer.block.stmts ++ [⟨.block inner, .none⟩] } } rest

def closeAll (c : Context) : Except Overflow Block :=
  match c.blocks with
  | [] => sealBlock ⟨.empty, 0⟩ c.used
  | b :: bs => foldBlocks c.used b bs

end Context

def empty : Builder := ⟨[], [], [], .new .main⟩

def current (b : Builder) : Context := b.contexts.headD b.main

def setCurrent (b : Builder) (c : Context) : Builder :=
  match b.contexts with
  | [] => { b with main := c }
  | _ :: cs => { b with contexts := c :: cs }

def stmt (b : Builder) (s : Stmt) : Builder := b.setCurrent (b.current.addStmt s)

def declare (b : Builder) (name : String) (ty : Ty) : Except Error (Binding × Builder) := do
  let (storage, c) ← sized (b.current.allocate ty.size)
  let binding : Binding := ⟨name, ty, storage⟩
  return (binding, b.setCurrent (c.addBinding binding))

def declareInit (b : Builder) (name : String) (value : Expr) :
    Except Error (Binding × Builder) := do
  let (binding, b) ← b.declare name value.ty
  return (binding, b.stmt (.declaration binding value))

def openBlock (b : Builder) : Builder := b.setCurrent b.current.openBlock

def closeBlock (b : Builder) : Except Error (Block × Builder) := do
  let (block, c) ← sized b.current.closeBlock
  return (block, b.setCurrent c)

def placeParams : List (String × Ty) → Except Overflow (List Binding × UInt32)
  | [] => return ([], 0)
  | (name, ty) :: rest => do
    let (bindings, offset) ← placeParams rest
    return (⟨name, ty, .aboveFrame offset.toInt32⟩ :: bindings, ← Word.add offset ty.size)

def begin (b : Builder) (target : Target) : Builder :=
  { b with contexts := .new target :: b.contexts }

def beginFunction (b : Builder) (name : String) (params : List (String × Ty)) (result : Ty) :
    Except Error (List Binding × Builder) := do
  let (bindings, _) ← sized (placeParams params)
  return (bindings, b.begin (.function name bindings result))

def beginMethod (b : Builder) (id : StructId) (name : String) (params : List (String × Ty))
    (result : Ty) : Except Error (List Binding × Builder) := do
  let (bindings, _) ← sized (placeParams params)
  return (bindings, b.begin (.method id name bindings result))

def editStruct (b : Builder) (id : StructId) (edit : StructDef → StructDef) : Builder :=
  { b with structs := b.structs.modify id.toNat edit }

def endFunction (b : Builder) : Except Error Builder :=
  match b.contexts with
  | c :: cs =>
    match c.target with
    | .function name params result => do
      let body ← sized c.closeAll
      return { b with
        contexts := cs
        functions := b.functions ++ [⟨name, params, result, c.peak, body, .none⟩] }
    | .method id name params result => do
      let body ← sized c.closeAll
      let f : Function := ⟨name, params, result, c.peak, body, .none⟩
      return editStruct { b with contexts := cs } id fun d => { d with methods := d.methods ++ [f] }
    | _ => .error .endFunctionOutside
  | [] => .error .endFunctionOutside

def beginStruct (b : Builder) (name : String) : Builder :=
  let id := UInt32.ofNat b.structs.length
  let d : StructDef := ⟨id, name, [], 0, 0, .empty, [], none, .none⟩
  begin { b with structs := b.structs ++ [d] } (.initializer id)

def openStruct? (b : Builder) : Option StructId :=
  match b.contexts with
  | c :: _ =>
    match c.target with
    | .initializer id => some id
    | _ => none
  | [] => none

def member (b : Builder) (name : String) (value : Expr) : Except Error (Binding × Builder) := do
  match b.openStruct? with
  | none => throw .memberOutside
  | some id =>
    match b.structs[id.toNat]? with
    | none => return (⟨name, value.ty, .member 0⟩, b)
    | some d =>
      let offset ← sized (Word.add Layout.membersOffset d.memberArea)
      let area ← sized (Word.add d.memberArea value.ty.size)
      let binding : Binding := ⟨name, value.ty, .member offset.toInt32⟩
      let b := b.editStruct id fun d =>
        { d with memberArea := area, members := d.members ++ [binding] }
      return (binding, b.stmt (.declaration binding value))

def endStruct (b : Builder) : Except Error Builder :=
  match b.contexts with
  | c :: cs =>
    match c.target with
    | .initializer id => do
      let body ← sized c.closeAll
      return editStruct { b with contexts := cs } id fun d =>
        { d with initializer := body, initializerLocals := c.peak }
    | _ => .error .endStructOutside
  | [] => .error .endStructOutside

def setPrinter (b : Builder) (id : StructId) (method : String) : Builder :=
  b.editStruct id fun d => { d with printer := some method }

def endContext (b : Builder) : Except Error Builder :=
  if b.openStruct?.isSome then b.endStruct else b.endFunction

def endContexts : List Context → Builder → Except Error Builder
  | [], b => return b
  | _ :: cs, b => do endContexts cs (← b.endContext)

def finish (b : Builder) : Except Error Program := do
  let b ← endContexts b.contexts b
  let main ← sized b.main.closeAll
  return ⟨b.main.peak, b.structs, b.functions, main⟩

end Builder
end IntervalStack
