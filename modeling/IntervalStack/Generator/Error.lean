import IntervalStack.Asm.Fragment
import IntervalStack.RefCounter

/-! Why a program is refused. A refusal names an inconsistency of the tree and the place of the
node that shows it. -/

namespace IntervalStack

inductive GenerationError
  | fragment (error : FragmentError)
  | breakOutsideLoop
  | returnOutsideFunction
  | returnMismatch (expected : Ty)
  | unknownFunction (name : String)
  | unknownStruct (id : StructId)
  | arityMismatch (name : String) (expected found : Nat)
  | unknownMethod (ty : Ty) (method : String)
  | memberOutsideStruct (name : String)
  | notAMember (name : String)
  | selfOutsideStruct
  | unsupportedOperand (op : String) (ty : Ty)
  | unprintable (ty : Ty)
  | temporaryUpdateTarget
  | worklistCapacity (capacity : UInt32)
deriving DecidableEq

def GenerationError.message : GenerationError → String
  | .fragment error => error.message
  | .breakOutsideLoop => "`break` outside of a loop"
  | .returnOutsideFunction => "`return` outside of a function"
  | .returnMismatch expected =>
    "return does not match the declared return type `" ++ expected.text ++ "`"
  | .unknownFunction name => "unknown function `" ++ name ++ "`"
  | .unknownStruct id => "unknown struct #" ++ toString id.toNat
  | .arityMismatch name expected found =>
    "`" ++ name ++ "` expects " ++ toString expected ++ " arguments, found " ++ toString found
  | .unknownMethod ty method => "type `" ++ ty.text ++ "` has no method `" ++ method ++ "`"
  | .memberOutsideStruct name =>
    "member `" ++ name ++ "` used outside of a struct initializer or method"
  | .notAMember name => "`" ++ name ++ "` is not a struct member"
  | .selfOutsideStruct => "`this` used outside of a struct initializer or method"
  | .unsupportedOperand op ty => "operator `" ++ op ++ "` is not defined for `" ++ ty.text ++ "`"
  | .unprintable ty => "cannot print a value of type `" ++ ty.text ++ "`"
  | .temporaryUpdateTarget => "cannot update a member of a temporary record"
  | .worklistCapacity capacity =>
    "worklist capacity " ++ toString capacity.toNat ++ " is outside 1..="
      ++ toString RefCounter.maxCapacity.toNat

inductive GenerationFailure
  | refused (error : GenerationError) (span : Span)
  | overflow (cause : Overflow)
deriving DecidableEq

end IntervalStack
