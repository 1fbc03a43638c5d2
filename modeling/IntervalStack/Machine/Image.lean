import IntervalStack.Environment
import IntervalStack.Machine.Fault
import IntervalStack.Machine.Memory

/-! Loading a listing: the executable instructions, the places of the labels, and the memory with
the data laid out from address zero on. -/

namespace IntervalStack

/-- The sizes of the machine and the number of instructions it may execute. -/
structure MachineSettings where
  memorySize : UInt32
  heapSize : UInt32
  stepLimit : UInt64
deriving DecidableEq

structure Image where
  code : Array Instr
  labels : List (String × Nat)
  dataLabels : List (String × Nat)

namespace Image

def isHostEntry (label : String) : Bool :=
  label == Environment.allocateEntry || label == Environment.deallocateEntry

def label? (image : Image) (label : String) : Option Nat := image.labels.lookup label

def dataLabel? (image : Image) (label : String) : Option Nat := image.dataLabels.lookup label

def callsHost (image : Image) (label : String) : Bool :=
  isHostEntry label && (image.label? label).isNone

end Image

def Instr.bytes : Instr → List UInt8
  | .dataI n => LittleEndian.encode 4 n.toUInt32.toNat
  | .dataF x => LittleEndian.encode 8 x.bits.toNat
  | .dataC b => [b]
  | .dataS s => Text.encode s ++ [0]
  | _ => []

def Instr.dataSize : Instr → Nat
  | .dataZ n => n.toNat
  | i => i.bytes.length

structure Loading where
  image : Image
  memory : Memory
  cursor : Nat

namespace Loading

def start (memorySize : Nat) : Loading := ⟨⟨#[], [], []⟩, .zeros memorySize, 0⟩

def data (l : Loading) (i : Instr) : Except Fault Loading :=
  if l.memory.size < l.cursor + i.dataSize then .error (.memoryLayout l.memory.size)
  else .ok { l with
    memory := l.memory.write l.cursor i.bytes
    cursor := l.cursor + i.dataSize }

def place (l : Loading) (i : Instr) : Except Fault Loading :=
  match i with
  | .label name =>
    if (l.image.label? name).isSome then .error (.duplicateLabel name)
    else .ok { l with
      image := { l.image with labels := (name, l.image.code.size) :: l.image.labels } }
  | .dLabel name =>
    if (l.image.dataLabel? name).isSome then .error (.duplicateLabel name)
    else .ok { l with
      image := { l.image with dataLabels := (name, l.cursor) :: l.image.dataLabels } }
  | .dataZ _ | .dataI _ | .dataF _ | .dataC _ | .dataS _ => l.data i
  | i => .ok { l with image := { l.image with code := l.image.code.push i } }

def placeAll (l : Loading) : Code → Except Fault Loading
  | [] => .ok l
  | i :: code => do placeAll (← l.place i) code

def unknownTarget? (image : Image) : Code → Option String
  | [] => none
  | i :: code =>
    match i.target? with
    | some target =>
      if Image.isHostEntry target || (image.label? target).isSome then unknownTarget? image code
      else some target
    | none => unknownTarget? image code

end Loading
end IntervalStack
