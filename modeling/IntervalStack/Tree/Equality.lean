import IntervalStack.Tree.Program

/-! Equality of programs, with the floats compared as numbers. -/

namespace IntervalStack

mutual

def Expr.equals : Expr → Expr → Bool
  | ⟨k, t, s⟩, ⟨k', t', s'⟩ => k.equals k' && t == t' && s == s'

def ExprKind.equals : ExprKind → ExprKind → Bool
  | .bool b, .bool b' => b == b'
  | .char c, .char c' => c == c'
  | .int n, .int n' => n == n'
  | .float x, .float x' => x.equals x'
  | .ident b, .ident b' => b == b'
  | .self, .self => true
  | .binary op l r, .binary op' l' r' => op == op' && l.equals l' && r.equals r'
  | .unary op e, .unary op' e' => op == op' && e.equals e'
  | .interval l h, .interval l' h' => l.equals l' && h.equals h'
  | .bound e b, .bound e' b' => e.equals e' && b == b'
  | .field e m, .field e' m' => e.equals e' && m == m'
  | .methodCall e m args, .methodCall e' m' args' =>
    e.equals e' && m == m' && exprsEqual args args'
  | .call f args, .call f' args' => f == f' && exprsEqual args args'
  | .new id, .new id' => id == id'
  | _, _ => false

def exprsEqual : List Expr → List Expr → Bool
  | [], [] => true
  | e :: es, e' :: es' => e.equals e' && exprsEqual es es'
  | _, _ => false

end

mutual

def Block.equals : Block → Block → Bool
  | ⟨scope, body⟩, ⟨scope', body'⟩ => scope == scope' && stmtsEqual body body'
termination_by structural x => x

def stmtsEqual : List LocatedStmt → List LocatedStmt → Bool
  | [], [] => true
  | s :: ss, s' :: ss' => s.equals s' && stmtsEqual ss ss'
  | _, _ => false
termination_by structural x => x

def LocatedStmt.equals : LocatedStmt → LocatedStmt → Bool
  | ⟨node, span⟩, ⟨node', span'⟩ => node.equals node' && span == span'
termination_by structural x => x

def Stmt.equals : Stmt → Stmt → Bool
  | .declaration b e, .declaration b' e' => b == b' && e.equals e'
  | .update t e, .update t' e' => t.equals t' && e.equals e'
  | .print es spaces newline, .print es' spaces' newline' =>
    exprsEqual es es' && spaces == spaces' && newline == newline'
  | .ifElse c b d, .ifElse c' b' d' => c.equals c' && b.equals b' && optionalEqual d d'
  | .loop c b, .loop c' b' => c.equals c' && b.equals b'
  | .leave, .leave => true
  | .ret none, .ret none => true
  | .ret (some e), .ret (some e') => e.equals e'
  | .call e, .call e' => e.equals e'
  | .block b, .block b' => b.equals b'
  | _, _ => false
termination_by structural x => x

def optionalEqual : Option Block → Option Block → Bool
  | none, none => true
  | some b, some b' => b.equals b'
  | _, _ => false
termination_by structural x => x

end

def Function.equals (f g : Function) : Bool :=
  f.name == g.name && f.params == g.params && f.returnType == g.returnType
    && f.localsSize == g.localsSize && f.body.equals g.body && f.span == g.span

def listsEqual {α : Type} (equals : α → α → Bool) : List α → List α → Bool
  | [], [] => true
  | a :: as, b :: bs => equals a b && listsEqual equals as bs
  | _, _ => false

def StructDef.equals (d e : StructDef) : Bool :=
  d.id == e.id && d.name == e.name && d.members == e.members && d.memberArea == e.memberArea
    && d.initializerLocals == e.initializerLocals && d.initializer.equals e.initializer
    && listsEqual Function.equals d.methods e.methods && d.printer == e.printer
    && d.span == e.span

def Program.equals (p q : Program) : Bool :=
  p.globalSize == q.globalSize && listsEqual StructDef.equals p.structs q.structs
    && listsEqual Function.equals p.functions q.functions && p.main.equals q.main

end IntervalStack
