import IntervalStack.Tree.Ty

/-! Names with a type and a place, and the scopes that own them. -/

namespace IntervalStack

/-- Where a binding lives: in the block of globals, above the frame pointer (parameters), below it
(locals), or in the record of the struct being initialised or called. -/
inductive Storage
  | global (offset : Int32)
  | aboveFrame (offset : Int32)
  | belowFrame (offset : Int32)
  | member (offset : Int32)
deriving DecidableEq, Inhabited

namespace Storage

def offset : Storage → Int32
  | .global o | .aboveFrame o | .belowFrame o | .member o => o

def isMember : Storage → Bool
  | .member _ => true
  | _ => false

end Storage

structure Binding where
  name : String
  ty : Ty
  storage : Storage
deriving DecidableEq, Inhabited

def Binding.isOwned (b : Binding) : Bool := b.ty.isHeap && !b.storage.isMember

structure Scope where
  allocatedSize : UInt32
  bindings : List Binding
deriving DecidableEq, Inhabited

namespace Scope

def empty : Scope := ⟨0, []⟩

def owned (s : Scope) : List Binding := s.bindings.filter Binding.isOwned

end Scope
end IntervalStack
