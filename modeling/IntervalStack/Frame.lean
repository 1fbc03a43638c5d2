import IntervalStack.Asm.Code
import IntervalStack.Layout

/-! The calling convention. The frame stack grows down from the top of memory; two cells in the data
segment hold the frame pointer and the stack pointer. From above, a frame holds the arguments (the
last one at the frame pointer), the caller's frame pointer, the return address and the locals, which
end at the stack pointer. A callee leaves its result just below the arguments' end. -/

namespace IntervalStack

structure Cells where
  frame : String
  stack : String
deriving DecidableEq

namespace Cells

def standard : Cells := ⟨"$frame-pointer", "$stack-pointer"⟩

def declare (c : Cells) : Code :=
  [.dLabel c.frame, .dataZ 4, .dLabel c.stack, .dataZ 4]

def loadFrame (c : Cells) : Code := [.pushD c.frame, .loadI]

def loadStack (c : Cells) : Code := [.pushD c.stack, .loadI]

def storeFrame (c : Cells) : Code := [.pushD c.frame, .exchange, .storeI]

def storeStack (c : Cells) : Code := [.pushD c.stack, .exchange, .storeI]

def adjustStack (c : Cells) (delta : Int32) : Code :=
  [Instr.pushD c.stack] ++ c.loadStack ++ [Instr.pushI delta, .add, .storeI]

end Cells

namespace Frame

def headerSize : UInt32 := 8
def savedFrameOffset : Int32 := -4
def returnAddressOffset : Int32 := -8

def globalBlock : String := "$global-memory-block"

def entry (c : Cells) : Code :=
  [Instr.memtop] ++ c.storeFrame ++ [Instr.memtop] ++ c.storeStack

/-- Start of a routine: saves the caller's frame pointer and the return address and makes room for
the locals. -/
def prologue (c : Cells) (localsSize : UInt32) : Except Overflow Code := do
  let size ← Word.add headerSize localsSize
  let delta ← Word.negateSigned size.toInt32
  return c.loadStack ++ [Instr.pushI savedFrameOffset, .add] ++ c.loadFrame ++ [Instr.storeI]
    ++ c.loadStack ++ [Instr.pushI returnAddressOffset, .add, .exchange, .storeI]
    ++ c.loadStack ++ c.storeFrame
    ++ c.adjustStack delta

/-- End of a routine: restores the caller's frame pointer, gives up the frame with its arguments,
leaves the result at the new stack pointer and returns. -/
def epilogue (c : Cells) (localsSize paramsSize : UInt32) (result : Ty) :
    Except Overflow Code := do
  let size ← Word.add (← Word.add headerSize localsSize) paramsSize
  let restore := c.loadFrame ++ [Instr.pushI returnAddressOffset, .add, .loadI]
    ++ c.loadFrame ++ [Instr.pushI savedFrameOffset, .add, .loadI] ++ c.storeFrame
  match Instr.store? result with
  | some store =>
    let delta ← Word.subtractSigned size.toInt32 result.size.toInt32
    return restore ++ [Instr.exchange] ++ c.adjustStack delta ++ c.loadStack
      ++ [Instr.exchange, store, .ret]
  | none => return restore ++ c.adjustStack size.toInt32 ++ [Instr.ret]

def pushArgument (c : Cells) (ty : Ty) : Code :=
  c.adjustStack (-ty.size.toInt32) ++
    match Instr.store? ty with
    | some store => c.loadStack ++ [Instr.exchange, store]
    | none => []

def fetchResult (c : Cells) (ty : Ty) : Code :=
  match Instr.load? ty with
  | some load => c.loadStack ++ [load] ++ c.adjustStack ty.size.toInt32
  | none => []

def selfPointer (c : Cells) (slot : Int32) : Code :=
  c.loadFrame ++ [Instr.pushI slot, .add, .loadI]

def displaced (base : Code) (offset : Int32) : Code :=
  if offset = 0 then base else base ++ [Instr.pushI offset, .add]

def storageAddress? (c : Cells) (storage : Storage) (selfSlot : Option Int32) : Option Code :=
  match storage with
  | .global offset => some (displaced [.pushD globalBlock] offset)
  | .aboveFrame offset | .belowFrame offset => some (displaced c.loadFrame offset)
  | .member offset => selfSlot.map fun slot => displaced (selfPointer c slot) offset

def callInitializer (c : Cells) (routine : String) : Code :=
  [Instr.duplicate] ++ pushArgument c .int ++ [Instr.call routine]

end Frame
end IntervalStack
