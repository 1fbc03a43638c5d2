import IntervalStack.Tree.Program
import IntervalStack.Word

/-! The shape of records in memory. A record starts with its reference count (four bytes), its type
code (four bytes) and, in the last byte of the header, the size of an interval's bounds. Behind the
twelve bytes of header stand the two bounds of an interval, or the own address of a struct and its
members. -/

namespace IntervalStack

namespace Layout

def pointerSize : UInt32 := 4

def typeCodeOffset : Int32 := 4
def subtypeSizeOffset : Int32 := 11
def headerSize : UInt32 := 12
def payloadOffset : Int32 := 12

def selfOffset : Int32 := 12
def membersOffset : UInt32 := 16

def flatIntervalCode : Int32 := 2
def nestedIntervalCode : Int32 := 3
def firstStructCode : Int32 := 16

def boundOffset (sub : Ty) : Bound → Int32
  | .low => payloadOffset
  | .high => payloadOffset + sub.size.toInt32

def intervalSize (sub : Ty) : UInt32 := headerSize + 2 * sub.size

end Layout

inductive RecordKind
  | flatInterval
  | nestedInterval
  | struct (id : StructId)
deriving DecidableEq

namespace RecordKind

def of? : Ty → Option RecordKind
  | .interval sub => some (if sub.isHeap then .nestedInterval else .flatInterval)
  | .struct id => some (.struct id)
  | _ => none

def typeCode : RecordKind → Except Overflow Int32
  | .flatInterval => .ok Layout.flatIntervalCode
  | .nestedInterval => .ok Layout.nestedIntervalCode
  | .struct id => Word.addSigned Layout.firstStructCode id.toInt32

end RecordKind

structure StructLayout where
  id : StructId
  name : String
  typeCode : Int32
  recordSize : UInt32
  referenceSlots : List Int32
deriving DecidableEq

namespace StructLayout

def referenceSlot? (b : Binding) : Option Int32 :=
  if b.ty.isHeap then
    match b.storage with
    | .member offset => some offset
    | _ => none
  else none

def ofDef (d : StructDef) : Except Overflow StructLayout := do
  let typeCode ← (RecordKind.struct d.id).typeCode
  let recordSize ← Word.add Layout.membersOffset d.memberArea
  return ⟨d.id, d.name, typeCode, recordSize, d.members.filterMap referenceSlot?⟩

end StructLayout

/-- The layouts of a program's structs in the order of their ids. -/
structure StructTable where
  layouts : List StructLayout
deriving DecidableEq

namespace StructTable

def empty : StructTable := ⟨[]⟩

def insert (s : StructLayout) : List StructLayout → List StructLayout
  | [] => [s]
  | t :: ts =>
    if s.id < t.id then s :: t :: ts
    else if s.id = t.id then s :: ts
    else t :: insert s ts

def ofProgram (p : Program) : Except Overflow StructTable := do
  let layouts ← p.structs.foldlM (fun ls d => return insert (← StructLayout.ofDef d) ls) []
  return ⟨layouts⟩

def get? (t : StructTable) (id : StructId) : Option StructLayout :=
  t.layouts.find? (·.id == id)

end StructTable
end IntervalStack
