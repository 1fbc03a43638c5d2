import IntervalStack.Proofs.Comparison
import IntervalStack.Proofs.Frames.Operands
import IntervalStack.Proofs.WellTyped

/-! What a scalar expression evaluates to, read off its tree. It is made of literals, of places that
are reached from a variable through any number of records, and of operators. Operands are evaluated
from left to right, and the right one of a logical operator only where the left one does not decide.
The only thing that can go wrong is a division by zero. -/

namespace IntervalStack

def Ty.isScalar (ty : Ty) : Bool := (ScalarKind.of? ty).isSome

def Value.ofBool (b : Bool) : Value := .int (if b then 1 else 0)

namespace BinOp

def takes (op : BinOp) (ty : Ty) : Bool :=
  if op.isLogical then ty = .bool else ty.isScalar && (op.isComparison || ty ≠ .bool)

def decidedBy : BinOp → Value → Bool
  | .and, .int a => a = 0
  | .or, .int a => a ≠ 0
  | _, _ => false

/-- Words are integers that wrap around; divisions go toward zero, and a comparison is made of the
wrapped difference and zero. -/
def onWords (op : BinOp) (a b : Int32) : Option Value :=
  match op with
  | .add => some (.int (.ofInt (a.toInt + b.toInt)))
  | .sub => some (.int (.ofInt (a.toInt - b.toInt)))
  | .mul => some (.int (.ofInt (a.toInt * b.toInt)))
  | .div => if b = 0 then none else some (.int (.ofInt (a.toInt.tdiv b.toInt)))
  | .and | .or => some (.int b)
  | _ => some (.ofBool (op.holds (Int32.ofInt (a.toInt - b.toInt)).toInt 0))

def onFloats (op : BinOp) (x y : Double) : Option Value :=
  match op with
  | .add => some (.float (x.add y))
  | .sub => some (.float (x.subtract y))
  | .mul => some (.float (x.multiply y))
  | .div => if y.isZero then none else some (.float (x.divide y))
  | .less => some (.ofBool (x.subtract y).belowZero)
  | .lessEq => some (.ofBool !(x.subtract y).positive)
  | .greater => some (.ofBool (x.subtract y).positive)
  | .greaterEq => some (.ofBool !(x.subtract y).belowZero)
  | .eq => some (.ofBool (x.subtract y).isZero)
  | .notEq => some (.ofBool !(x.subtract y).isZero)
  | .and | .or => some (.float y)

def apply (op : BinOp) : Value → Value → Option Value
  | .int a, .int b => op.onWords a b
  | .float x, .float y => op.onFloats x y
  | _, v => some v

end BinOp

namespace UnaryOp

def takes (op : UnaryOp) (ty : Ty) : Bool :=
  match op with
  | .not => ty = .bool
  | .negate => ty.isScalar && ty ≠ .bool
  | _ => ty.isScalar

/-- What the operator yields for an operand of the type. A character is the low seven bits of what it
is made of. -/
def apply : UnaryOp → Ty → Value → Value
  | .not, _, .int n => .ofBool (n = 0)
  | .negate, _, .int n => .int (.ofInt (-n.toInt))
  | .negate, _, .float x => .float x.negate
  | .toFloat, _, .int n => .float (.ofInt32 n)
  | .toInt, _, .float x => .int x.toInt32
  | .toChar, .char, v => v
  | .toChar, _, .int n => .int (n &&& 127)
  | .toChar, _, .float x => .int (x.toInt32 &&& 127)
  | .toBool, .bool, v => v
  | .toBool, _, .int n => .ofBool (n ≠ 0)
  | .toBool, _, .float x => .ofBool !x.isZero
  | _, _, v => v

end UnaryOp

mutual

/-- A variable, or a part of a record that is stored in such a place. -/
def Expr.isPath : Expr → Bool
  | ⟨kind, _, _⟩ => kind.isPath

def ExprKind.isPath : ExprKind → Bool
  | .ident _ | .self => true
  | .bound i _ => i.isPath
  | .field object m => object.isPath && m.storage.isMember
  | _ => false

end

mutual

def Expr.isScalar : Expr → Bool
  | ⟨kind, ty, _⟩ => kind.isScalar ty

def ExprKind.isScalar (ty : Ty) : ExprKind → Bool
  | .bool _ | .char _ | .int _ | .float _ => true
  | .unary op e => e.isScalar && op.takes e.ty
  | .binary op l r => l.isScalar && r.isScalar && op.takes l.ty
  | kind => kind.isPath && ty.isScalar

end

def Memory.value (memory : Memory) (ty : Ty) (a : Int32) : Value :=
  (memory.operands ty a.toInt.toNat).headD (.int 0)

namespace Machine

variable (m : Machine) (slot : Option Int32)

def dataAddress (l : String) : Int32 := .ofNat ((m.image.dataLabel? l).getD 0)

def wordAt (a : Int32) : Int32 := m.memory.word a.toInt.toNat

def framePointer : Int32 := m.wordAt (m.dataAddress Generator.cells.frame)

def selfPointer : Int32 := m.wordAt (m.framePointer + slot.getD 0)

def storageBase : Storage → Int32
  | .global _ => m.dataAddress Frame.globalBlock
  | .aboveFrame _ | .belowFrame _ => m.framePointer
  | .member _ => m.selfPointer slot

mutual

def locate (m : Machine) (slot : Option Int32) : Expr → Int32
  | ⟨kind, _, _⟩ => m.locateKind slot kind

def locateKind (m : Machine) (slot : Option Int32) : ExprKind → Int32
  | .ident b => m.storageBase slot b.storage + b.storage.offset
  | .self => m.framePointer + slot.getD 0
  | .bound i b => m.wordAt (m.locate slot i) + Layout.boundOffset (i.ty.sub?.getD .void) b
  | .field object member => m.wordAt (m.locate slot object) + member.storage.offset
  | _ => 0

end

mutual

/-- The value of a scalar expression, or none if it divides by zero. -/
def eval (m : Machine) (slot : Option Int32) : Expr → Option Value
  | ⟨kind, ty, _⟩ => m.evalKind slot ty kind

def evalKind (m : Machine) (slot : Option Int32) (ty : Ty) : ExprKind → Option Value
  | .bool b => some (.ofBool b)
  | .char c => some (.int c.val.toInt32)
  | .int n => some (.int n)
  | .float x => some (.float x)
  | .unary op e => do return op.apply e.ty (← m.eval slot e)
  | .binary op l r => do
    let a ← m.eval slot l
    if op.decidedBy a then return a
    else op.apply a (← m.eval slot r)
  | kind => some (m.memory.value ty (m.locateKind slot kind))

end

def readable (a : Int32) (width : Nat) : Bool := (m.check a.toInt width).toBool

def hasData (l : String) : Bool := (m.image.dataLabel? l).isSome

def frameReadable : Bool :=
  m.hasData Generator.cells.frame && m.readable (m.dataAddress Generator.cells.frame) 4

def storageReadable : Storage → Bool
  | .global _ => m.hasData Frame.globalBlock
  | .aboveFrame _ | .belowFrame _ => m.frameReadable
  | .member _ => m.frameReadable && m.readable (m.framePointer + slot.getD 0) 4

mutual

def leads (m : Machine) (slot : Option Int32) : Expr → Bool
  | ⟨kind, _, _⟩ => m.leadsKind slot kind

def leadsKind (m : Machine) (slot : Option Int32) : ExprKind → Bool
  | .ident b => m.storageReadable slot b.storage
  | .self => m.frameReadable
  | .bound i _ => m.leads slot i && m.readable (m.locate slot i) 4
  | .field object _ => m.leads slot object && m.readable (m.locate slot object) 4
  | _ => true

end

mutual

def addressable (m : Machine) (slot : Option Int32) : Expr → Bool
  | ⟨kind, ty, _⟩ => m.addressableKind slot ty kind

def addressableKind (m : Machine) (slot : Option Int32) (ty : Ty) : ExprKind → Bool
  | .bool _ | .char _ | .int _ | .float _ => true
  | .unary _ e => m.addressable slot e
  | .binary _ l r => m.addressable slot l && m.addressable slot r
  | kind => m.leadsKind slot kind && m.readable (m.locateKind slot kind) ty.size.toNat

end

end Machine
end IntervalStack
