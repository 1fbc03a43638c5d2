import IntervalStack.Tree.Expr
import IntervalStack.Word

/-! Statements, blocks, routines, structs and whole programs. -/

namespace IntervalStack

mutual

structure Block where
  scope : Scope
  stmts : List LocatedStmt

structure LocatedStmt where
  node : Stmt
  span : Span

inductive Stmt
  | declaration (target : Binding) (value : Expr)
  | update (target value : Expr)
  | print (items : List Expr) (spaces newline : Bool)
  | ifElse (cond : Expr) (thenBlock : Block) (elseBlock : Option Block)
  | loop (cond : Expr) (body : Block)
  | leave
  | ret (value : Option Expr)
  | call (call : Expr)
  | block (block : Block)

end

namespace Block

def empty : Block := ⟨.empty, []⟩

instance : Inhabited Block := ⟨empty⟩

end Block

structure Function where
  name : String
  params : List Binding
  returnType : Ty
  localsSize : UInt32
  body : Block
  span : Span
deriving Inhabited

def Function.paramsSize (f : Function) : Except Overflow UInt32 :=
  f.params.foldlM (fun n p => Word.add n p.ty.size) 0

structure StructDef where
  id : StructId
  name : String
  members : List Binding
  memberArea : UInt32
  initializerLocals : UInt32
  initializer : Block
  methods : List Function
  printer : Option String
  span : Span
deriving Inhabited

def StructDef.method? (d : StructDef) (name : String) : Option Function :=
  d.methods.find? (·.name == name)

structure Program where
  globalSize : UInt32
  structs : List StructDef
  functions : List Function
  main : Block
deriving Inhabited

namespace Program

def struct? (p : Program) (id : StructId) : Option StructDef := p.structs.find? (·.id == id)

def function? (p : Program) (name : String) : Option Function :=
  p.functions.find? (·.name == name)

end Program
end IntervalStack
