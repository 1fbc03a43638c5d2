import IntervalStack.Environment

/-! Deferred reference counting. A reference that dies is put on a worklist of fixed capacity; the
worklist is drained at the end of a scope. Draining takes a record off the list and decrements its
count; at zero the record's own references go onto the same list and the record goes back to the
memory manager. The count is the first word of a record, so a record's address is the address of its
count. -/

namespace IntervalStack

namespace RefCounter

def incrementRoutine : String := "-ref-counter-increment-refcount"
def pushRoutine : String := "-ref-counter-push-record"
def drainRoutine : String := "-ref-counter-perform-decrements"

def worklist : String := "$rctr-decrement-stack"
def worklistIndex : String := "$rctr-decrement-stack-index"
def overflowHandler : String := "$$rctr-worklist-overflow"
def overflowMessage : String := "$errors-rctr-worklist-overflow"
def overflowText : String := "reference-count decrement worklist overflow"

def maxCapacity : UInt32 := 536870911

end RefCounter

/-- The reference counter of a program, given by the capacity of its worklist. -/
structure RefCounter where
  capacity : UInt32
  pos : 0 < capacity
  le_max : capacity ≤ RefCounter.maxCapacity

namespace RefCounter

def ofCapacity? (capacity : UInt32) : Option RefCounter :=
  if h : 0 < capacity ∧ capacity ≤ maxCapacity then some ⟨capacity, h.1, h.2⟩ else none

def increment : Instr := .call incrementRoutine

def push : Instr := .call pushRoutine

def drain : Instr := .call drainRoutine

def data (r : RefCounter) : Code :=
  [.dLabel worklist, .dataZ (r.capacity * Layout.pointerSize),
    .dLabel worklistIndex, .dataZ Layout.pointerSize,
    .dLabel overflowMessage, .dataS overflowText]

def reset : Code := [.pushD worklistIndex, .pushI 0, .storeI]

def loadIndex : Code := [.pushD worklistIndex, .loadI]

def slotAddress : Code :=
  [Instr.pushD worklist] ++ loadIndex ++ [Instr.pushI Layout.pointerSize.toInt32, .multiply, .add]

def bumpIndex (delta : Int32) : Code :=
  [Instr.pushD worklistIndex] ++ loadIndex ++ [Instr.pushI delta, .add, .storeI]

def incrementCode : Code :=
  let null := "-rctr-increment-null"
  [.label incrementRoutine, .exchange, .duplicate, .jumpFalse null,
    .duplicate, .loadI, .pushI 1, .add, .storeI, .ret,
    .label null, .pop, .ret]

def pushCode (r : RefCounter) : Code :=
  let null := "-rctr-push-null"
  let room := "-rctr-push-room"
  [Instr.label pushRoutine, .exchange, .duplicate, .jumpFalse null]
    ++ loadIndex
    ++ [Instr.pushI r.capacity.toInt32, .subtract, .jumpNeg room, .jump overflowHandler, .label room]
    ++ slotAddress ++ [Instr.exchange, .storeI]
    ++ bumpIndex 1
    ++ [Instr.ret, .label null, .pop, .ret]

def structRelease (typeCode : Int32) : String :=
  "-rctr-release-struct-" ++ toString typeCode.toInt

def pushChild (offset : Int32) : Code :=
  [.duplicate, .pushI offset, .add, .loadI, push]

def drainCode (structs : StructTable) : Code :=
  let top := "-rctr-drain-loop"
  let done := "-rctr-drain-done"
  let live := "-rctr-drain-still-live"
  let free := "-rctr-drain-free"
  let nested := "-rctr-release-nested"
  let parents := structs.layouts.filter (!·.referenceSlots.isEmpty)
  [Instr.label drainRoutine, .label top] ++ loadIndex ++ [Instr.jumpFalse done]
    ++ bumpIndex (-1) ++ slotAddress ++ [Instr.loadI]
    ++ [Instr.duplicate, .duplicate, .loadI, .pushI 1, .subtract, .storeI,
      .duplicate, .loadI, .jumpPos live]
    ++ [Instr.duplicate, .pushI Layout.typeCodeOffset, .add, .loadI,
      .duplicate, .pushI Layout.nestedIntervalCode, .subtract, .jumpFalse nested]
    ++ parents.flatMap (fun s =>
      [Instr.duplicate, .pushI s.typeCode, .subtract, .jumpFalse (structRelease s.typeCode)])
    ++ [Instr.pop, .jump free]
    ++ [Instr.label nested, .pop] ++ pushChild Layout.payloadOffset
    ++ pushChild (Layout.payloadOffset + Layout.pointerSize.toInt32) ++ [Instr.jump free]
    ++ parents.flatMap (fun s =>
      [Instr.label (structRelease s.typeCode), .pop] ++ s.referenceSlots.flatMap pushChild
        ++ [Instr.jump free])
    ++ [Instr.label free, .call Environment.deallocateEntry, .jump top,
      .label live, .pop, .jump top,
      .label done, .ret]

def subroutines (r : RefCounter) (structs : StructTable) : Code :=
  incrementCode ++ r.pushCode ++ drainCode structs
    ++ [Instr.label overflowHandler, .pushD overflowMessage, .jump Environment.generalError]

end RefCounter
end IntervalStack
