import IntervalStack.Double
import IntervalStack.Tree.Binding
import IntervalStack.Tree.Span

/-! Expressions. Each one carries its type and its span; the functions at the end build
expressions whose type follows from their parts. -/

namespace IntervalStack

inductive BinOp
  | add | sub | mul | div
  | less | lessEq | greater | greaterEq | eq | notEq
  | and | or
deriving DecidableEq, Inhabited

namespace BinOp

def isComparison : BinOp → Bool
  | .less | .lessEq | .greater | .greaterEq | .eq | .notEq => true
  | _ => false

def isLogical : BinOp → Bool
  | .and | .or => true
  | _ => false

def symbol : BinOp → String
  | .add => "+"
  | .sub => "-"
  | .mul => "*"
  | .div => "/"
  | .less => "<"
  | .lessEq => "<="
  | .greater => ">"
  | .greaterEq => ">="
  | .eq => "=="
  | .notEq => "!="
  | .and => "&&"
  | .or => "||"

def name : BinOp → String
  | .add => "Add"
  | .sub => "Sub"
  | .mul => "Mul"
  | .div => "Div"
  | .less => "Less"
  | .lessEq => "LessEq"
  | .greater => "Greater"
  | .greaterEq => "GreaterEq"
  | .eq => "Eq"
  | .notEq => "NotEq"
  | .and => "And"
  | .or => "Or"

def all : List BinOp :=
  [.add, .sub, .mul, .div, .less, .lessEq, .greater, .greaterEq, .eq, .notEq, .and, .or]

def ofName? (s : String) : Option BinOp := all.find? (·.name == s)

end BinOp

inductive UnaryOp
  | not | negate | toFloat | toInt | toChar | toBool
deriving DecidableEq, Inhabited

namespace UnaryOp

def name : UnaryOp → String
  | .not => "Not"
  | .negate => "Negate"
  | .toFloat => "ToFloat"
  | .toInt => "ToInt"
  | .toChar => "ToChar"
  | .toBool => "ToBool"

def all : List UnaryOp := [.not, .negate, .toFloat, .toInt, .toChar, .toBool]

def ofName? (s : String) : Option UnaryOp := all.find? (·.name == s)

end UnaryOp

inductive Bound
  | low
  | high
deriving DecidableEq, Inhabited

namespace Bound

def selector : Bound → String
  | .low => ".low"
  | .high => ".high"

def name : Bound → String
  | .low => "Low"
  | .high => "High"

def ofName? (s : String) : Option Bound := [low, high].find? (·.name == s)

end Bound

mutual

structure Expr where
  kind : ExprKind
  ty : Ty
  span : Span

inductive ExprKind
  | bool (value : Bool)
  | char (value : Char)
  | int (value : Int32)
  | float (value : Double)
  | ident (binding : Binding)
  | self
  | binary (op : BinOp) (lhs rhs : Expr)
  | unary (op : UnaryOp) (operand : Expr)
  | interval (low high : Expr)
  | bound (interval : Expr) (bound : Bound)
  | field (object : Expr) (member : Binding)
  | methodCall (object : Expr) (method : String) (args : List Expr)
  | call (function : String) (args : List Expr)
  | new (id : StructId)

end

instance : Inhabited Expr := ⟨⟨.self, .void, .none⟩⟩

namespace Expr

def untracked (kind : ExprKind) (ty : Ty) : Expr := ⟨kind, ty, .none⟩

def int (n : Int32) : Expr := untracked (.int n) .int
def float (x : Double) : Expr := untracked (.float x) .float
def bool (b : Bool) : Expr := untracked (.bool b) .bool
def char (c : Char) : Expr := untracked (.char c) .char

def ident (b : Binding) : Expr := untracked (.ident b) b.ty

def self (id : StructId) : Expr := untracked .self (.struct id)

def binary (op : BinOp) (lhs rhs : Expr) : Expr :=
  untracked (.binary op lhs rhs) (if op.isComparison || op.isLogical then .bool else lhs.ty)

def unary (op : UnaryOp) (operand : Expr) : Expr :=
  untracked (.unary op operand) <|
    match op with
    | .not | .toBool => .bool
    | .negate => operand.ty
    | .toFloat => .float
    | .toInt => .int
    | .toChar => .char

def interval (low high : Expr) : Expr := untracked (.interval low high) (.interval low.ty)

def bound (e : Expr) (b : Bound) : Expr := untracked (.bound e b) (e.ty.sub?.getD .void)

def field (object : Expr) (member : Binding) : Expr :=
  untracked (.field object member) member.ty

def methodCall (object : Expr) (method : String) (args : List Expr) (result : Ty) : Expr :=
  untracked (.methodCall object method args) result

def call (function : String) (args : List Expr) (result : Ty) : Expr :=
  untracked (.call function args) result

def new (id : StructId) : Expr := untracked (.new id) (.struct id)

end Expr
end IntervalStack
