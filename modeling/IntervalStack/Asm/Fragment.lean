import IntervalStack.Asm.Code

/-! Code together with what it leaves on the operand stack. -/

namespace IntervalStack

inductive Shape
  | address
  | value
  | void
deriving DecidableEq

def Shape.text : Shape → String
  | .address => "address"
  | .value => "value"
  | .void => "void"

inductive FragmentError
  | shape (expected found : Shape)
  | unloadable (ty : Ty)
deriving DecidableEq

def FragmentError.message : FragmentError → String
  | .shape expected found =>
    "expected " ++ expected.text ++ " fragment, found " ++ found.text ++ " fragment"
  | .unloadable ty => "cannot load a value of type `" ++ ty.text ++ "`"

structure Fragment where
  shape : Shape
  code : Code
deriving DecidableEq

namespace Fragment

def isAddress (f : Fragment) : Bool := f.shape = .address

def loadOf (ty : Ty) : Except FragmentError Instr :=
  match Instr.load? ty with
  | some i => .ok i
  | none => .error (.unloadable ty)

def storeOf (ty : Ty) : Except FragmentError Instr :=
  match Instr.store? ty with
  | some i => .ok i
  | none => .error (.unloadable ty)

def toValue (f : Fragment) (ty : Ty) : Except FragmentError Code :=
  match f.shape with
  | .value => .ok f.code
  | .address => (loadOf ty).map fun load => f.code ++ [load]
  | .void => .error (.shape .value .void)

def toAddress (f : Fragment) : Except FragmentError Code :=
  if f.shape = .address then .ok f.code else .error (.shape .address f.shape)

def toVoid (f : Fragment) : Except FragmentError Code :=
  if f.shape = .void then .ok f.code else .error (.shape .void f.shape)

end Fragment
end IntervalStack
