import IntervalStack.Tree.Program

/-! What the types in a tree promise. The generator takes the types of a tree as they are; here they
are held against each other. -/

namespace IntervalStack

def BinOp.result (op : BinOp) (lhs : Ty) : Ty :=
  if op.isComparison || op.isLogical then .bool else lhs

def UnaryOp.result (op : UnaryOp) (operand : Ty) : Ty :=
  match op with
  | .not | .toBool => .bool
  | .negate => operand
  | .toFloat => .float
  | .toInt => .int
  | .toChar => .char

/-- What the types in a piece of the tree are held against: it stands in the main program, or in a
routine with the given result and, for initialisers and methods, a record of the given struct. -/
structure Typing where
  program : Program
  self : Option StructId
  returns : Option Ty

namespace Typing

def struct? (p : Typing) : Ty → Option StructDef
  | .struct id => p.program.struct? id
  | _ => none

def hasMember (p : Typing) (object : Ty) (m : Binding) : Bool :=
  (p.struct? object).any (·.members.contains m)

def accepts (f : Option Function) (args : List Ty) (ty : Ty) : Bool :=
  f.any fun f => args = f.params.map (·.ty) ∧ ty = f.returnType

mutual

def exprOk (p : Typing) : Expr → Bool
  | ⟨kind, ty, _⟩ => p.kindOk ty kind

def kindOk (p : Typing) (ty : Ty) : ExprKind → Bool
  | .bool _ => ty = .bool
  | .char _ => ty = .char
  | .int _ => ty = .int
  | .float _ => ty = .float
  | .ident b =>
    ty = b.ty && (!b.storage.isMember || p.self.any fun id => p.hasMember (.struct id) b)
  | .self => p.self.any fun id => ty = .struct id
  | .binary op l r => p.exprOk l && p.exprOk r && r.ty = l.ty && ty = op.result l.ty
  | .unary op e => p.exprOk e && ty = op.result e.ty
  | .interval low high => p.exprOk low && p.exprOk high && high.ty = low.ty && ty = .interval low.ty
  | .bound i _ => p.exprOk i && i.ty = .interval ty
  | .field object m => p.exprOk object && p.hasMember object.ty m && ty = m.ty
  | .methodCall object method args =>
    p.exprOk object && p.exprsOk args &&
      accepts ((p.struct? object.ty).bind (·.method? method)) (args.map (·.ty)) ty
  | .call name args =>
    p.exprsOk args && accepts (p.program.function? name) (args.map (·.ty)) ty
  | .new id => ty = .struct id

def exprsOk (p : Typing) : List Expr → Bool
  | [] => true
  | e :: es => p.exprOk e && p.exprsOk es

end

mutual

def blockOk (p : Typing) : Block → Bool
  | ⟨_, ss⟩ => p.stmtsOk ss

def stmtsOk (p : Typing) : List LocatedStmt → Bool
  | [] => true
  | ⟨node, _⟩ :: rest => p.stmtOk node && p.stmtsOk rest

def stmtOk (p : Typing) : Stmt → Bool
  | .declaration b e => p.exprOk e && e.ty = b.ty
  | .update target e => p.exprOk target && p.exprOk e && e.ty = target.ty
  | .print items _ _ => p.exprsOk items
  | .ifElse cond yes none => p.exprOk cond && cond.ty = .bool && p.blockOk yes
  | .ifElse cond yes (some no) => p.exprOk cond && cond.ty = .bool && p.blockOk yes && p.blockOk no
  | .loop cond body => p.exprOk cond && cond.ty = .bool && p.blockOk body
  | .leave => true
  | .ret none => p.returns = some .void
  | .ret (some e) => p.exprOk e && p.returns = some e.ty
  | .call e => p.exprOk e
  | .block b => p.blockOk b

end

end Typing

namespace Program

def wellTyped (p : Program) : Bool :=
  Typing.blockOk ⟨p, none, none⟩ p.main &&
    p.functions.all (fun f => Typing.blockOk ⟨p, none, some f.returnType⟩ f.body) &&
    p.structs.all fun d => Typing.blockOk ⟨p, some d.id, some .void⟩ d.initializer &&
      d.methods.all fun f => Typing.blockOk ⟨p, some d.id, some f.returnType⟩ f.body

end Program

mutual

/-- Whether control can reach the end of a block, going by its syntax alone: a return or a break
never does, and a loop always may. -/
def Block.completes : Block → Bool
  | ⟨_, ss⟩ => stmtsComplete ss

def stmtsComplete : List LocatedStmt → Bool
  | [] => true
  | ⟨node, _⟩ :: rest => node.completes && stmtsComplete rest

def Stmt.completes : Stmt → Bool
  | .leave | .ret _ => false
  | .ifElse _ yes (some no) => yes.completes || no.completes
  | .block b => b.completes
  | .declaration .. | .update .. | .print .. | .ifElse _ _ none | .loop .. | .call _ => true

end

/-- The body of a routine with a result ends in a return on every path of its syntax. -/
def Function.returns (f : Function) : Bool := f.returnType = .void || !f.body.completes

def Program.returns (p : Program) : Bool :=
  p.functions.all Function.returns && p.structs.all fun d => d.methods.all Function.returns

end IntervalStack
