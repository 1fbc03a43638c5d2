/-! The types of the language: four scalars, intervals over a type, structs, and the type of what
yields nothing. -/

namespace IntervalStack

abbrev StructId := UInt32

inductive Ty
  | bool
  | char
  | int
  | float
  | interval (sub : Ty)
  | struct (id : StructId)
  | void
deriving DecidableEq, Inhabited

namespace Ty

def size : Ty → UInt32
  | .bool | .char => 1
  | .int | .interval _ | .struct _ => 4
  | .float => 8
  | .void => 0

def isHeap : Ty → Bool
  | .interval _ | .struct _ => true
  | _ => false

def isFloat (t : Ty) : Bool := t = .float

def base : Ty → Ty
  | .interval sub => sub.base
  | t => t

def sub? : Ty → Option Ty
  | .interval sub => some sub
  | _ => none

def text : Ty → String
  | .bool => "bool"
  | .char => "char"
  | .int => "int"
  | .float => "float"
  | .interval sub => "[" ++ sub.text ++ "]"
  | .struct id => "struct#" ++ toString id.toNat
  | .void => "void"

theorem size_le (t : Ty) : t.size.toNat ≤ 8 := by cases t <;> simp [size]

theorem size_of_isHeap {t : Ty} (h : t.isHeap) : t.size = 4 := by
  cases t <;> simp_all [isHeap, size]

end Ty
end IntervalStack
