import IntervalStack.Machine.Image
import IntervalStack.Machine.Render

/-! The machine: its state, what it is loaded with, and one step of it. A step that faults keeps
what it has done so far, in particular the operands it has popped. -/

namespace IntervalStack

structure Machine where
  image : Image
  memory : Memory
  heap : Heap
  stack : List Value
  pc : Nat
  output : String
  steps : Nat
  halted : Bool

namespace Machine

def load (code : Code) (settings : MachineSettings) : Except Fault Machine := do
  let memorySize := settings.memorySize.toNat
  let loaded ← (Loading.start memorySize).placeAll code
  match Loading.unknownTarget? loaded.image code with
  | some target => throw (.unknownLabel target)
  | none =>
    let base := (loaded.cursor + 7) / 8 * 8
    if UInt32.size ≤ base then throw (.overflow .multiply)
    else if memorySize < base + settings.heapSize.toNat then throw (.memoryLayout memorySize)
    else return {
      image := loaded.image
      memory := loaded.memory
      heap := .empty base (base + settings.heapSize.toNat)
      stack := []
      pc := 0
      output := ""
      steps := 0
      halted := false }

abbrev Exec := EStateM Fault Machine

def push (v : Value) : Exec Unit := modify fun m => { m with stack := v :: m.stack }

def pop (pc : Nat) : Exec Value := do
  match (← get).stack with
  | [] => throw (.stackUnderflow pc)
  | v :: rest =>
    modify fun m => { m with stack := rest }
    return v

def popInt (pc : Nat) : Exec Int32 := do
  match ← pop pc with
  | .int n => return n
  | found => throw (.typeMismatch pc .integer found)

def popFloat (pc : Nat) : Exec Double := do
  match ← pop pc with
  | .float x => return x
  | found => throw (.typeMismatch pc .float found)

/-- The address of an access of `width` bytes, if they lie in memory and, in the range of the heap,
in one live record. -/
def check (m : Machine) (address : Int) (width : Nat) : Except Fault Nat :=
  if address < 0 ∨ m.memory.size < address + width then .error (.invalidAddress address width)
  else
    let a := address.toNat
    if m.heap.manages a then
      match m.heap.checkAccess a width with
      | .ok () => .ok a
      | .error e => .error (.heap e)
    else .ok a

def readBytes (m : Machine) (address : Int) (width : Nat) : Except Fault (List UInt8) := do
  return m.memory.read (← m.check address width) width

def readInt (m : Machine) (address : Int) : Except Fault Int32 := do
  return (UInt32.ofNat (LittleEndian.decode (← m.readBytes address 4))).toInt32

def readText (m : Machine) (address : UInt32) : Except Fault String :=
  let a := address.toNat
  if m.memory.size < a then .error (.invalidAddress a 1)
  else
    match m.memory.readText a (m.memory.size - a) with
    | some bytes => .ok (Text.decode bytes)
    | none => .error (.invalidAddress a (m.memory.size - a))

def loadBytes (pc width : Nat) : Exec (List UInt8) := do
  let address ← popInt pc
  match (← get).readBytes address.toInt width with
  | .ok bytes => return bytes
  | .error e => throw e

def storeBytes (pc : Nat) (bytes : List UInt8) : Exec Unit := do
  let address ← popInt pc
  match (← get).check address.toInt bytes.length with
  | .ok a => modify fun m => { m with memory := m.memory.write a bytes }
  | .error e => throw e

def intBinary (pc : Nat) (op : Int32 → Int32 → Int32) : Exec Unit := do
  let b ← popInt pc
  let a ← popInt pc
  push (.int (op a b))

def floatBinary (pc : Nat) (op : Double → Double → Double) : Exec Unit := do
  let b ← popFloat pc
  let a ← popFloat pc
  push (.float (op a b))

def jump (label : String) : Exec Unit := do
  match (← get).image.label? label with
  | some target => modify fun m => { m with pc := target }
  | none => throw (.unknownLabel label)

def jumpIf (condition : Bool) (label : String) : Exec Unit :=
  if condition then jump label else pure ()

def allocate (pc : Nat) : Exec Unit := do
  let size ← popInt pc
  match (← get).heap.allocate size.toInt.toNat with
  | .ok (address, heap) =>
    modify fun m => { m with heap }
    push (.int (UInt32.ofNat address).toInt32)
  | .error e => throw (.heap e)

def deallocate (pc : Nat) : Exec Unit := do
  let address ← popInt pc
  match (← get).heap.deallocate address.toUInt32.toNat with
  | .ok heap => modify fun m => { m with heap }
  | .error e => throw (.heap e)

def call (pc : Nat) (label : String) : Exec Unit := do
  if (← get).image.callsHost label then
    if label == Environment.allocateEntry then allocate pc else deallocate pc
  else
    push (.int (Int32.ofNat (pc + 1)))
    jump label

def printf (pc : Nat) : Exec Unit := do
  let address ← popInt pc
  match (← get).readText address.toUInt32 with
  | .error e => throw e
  | .ok format =>
    match Format.parse format with
    | .error e => throw (.badFormat e)
    | .ok pieces =>
      let count := Format.argumentCount pieces
      let stack := (← get).stack
      if stack.length < count then throw (.stackUnderflow pc)
      else
        modify fun m => { m with stack := stack.drop count }
        match Format.render (← get).readText pieces (stack.take count).reverse with
        | .ok text => modify fun m => { m with output := m.output ++ text }
        | .error e => throw e

def execute (pc : Nat) : Instr → Exec Unit
  | .pushI n => push (.int n)
  | .pushF x => push (.float x)
  | .pushD label => do
    match (← get).image.dataLabel? label with
    | some address => push (.int (UInt32.ofNat address).toInt32)
    | none => throw (.unknownLabel label)
  | .duplicate => do
    let v ← pop pc
    push v
    push v
  | .exchange => do
    let b ← pop pc
    let a ← pop pc
    push b
    push a
  | .pop => do let _ ← pop pc
  | .loadC => do
    let bytes ← loadBytes pc 1
    push (.int (Int32.ofNat (LittleEndian.decode bytes)))
  | .loadI => do
    let bytes ← loadBytes pc 4
    push (.int (UInt32.ofNat (LittleEndian.decode bytes)).toInt32)
  | .loadF => do
    let bytes ← loadBytes pc 8
    push (.float ⟨UInt64.ofNat (LittleEndian.decode bytes)⟩)
  | .storeC => do
    let n ← popInt pc
    storeBytes pc (LittleEndian.encode 1 n.toUInt32.toNat)
  | .storeI => do
    let n ← popInt pc
    storeBytes pc (LittleEndian.encode 4 n.toUInt32.toNat)
  | .storeF => do
    let x ← popFloat pc
    storeBytes pc (LittleEndian.encode 8 x.bits.toNat)
  | .add => intBinary pc (· + ·)
  | .subtract => intBinary pc (· - ·)
  | .multiply => intBinary pc (· * ·)
  | .divide => do
    let b ← popInt pc
    let a ← popInt pc
    if b = 0 then throw (.divideByZero pc) else push (.int (a / b))
  | .negate => do push (.int (-(← popInt pc)))
  | .btAnd => intBinary pc (· &&& ·)
  | .btOr => intBinary pc (· ||| ·)
  | .bNegate => do push (.int (if (← popInt pc) = 0 then 1 else 0))
  | .fAdd => floatBinary pc Double.add
  | .fSubtract => floatBinary pc Double.subtract
  | .fMultiply => floatBinary pc Double.multiply
  | .fDivide => floatBinary pc Double.divide
  | .fNegate => do push (.float (← popFloat pc).negate)
  | .convertF => do push (.float (.ofInt32 (← popInt pc)))
  | .convertI => do push (.int (← popFloat pc).toInt32)
  | .jump label => jump label
  | .jumpTrue label => do jumpIf ((← popInt pc) ≠ 0) label
  | .jumpFalse label => do jumpIf ((← popInt pc) = 0) label
  | .jumpPos label => do jumpIf (0 < (← popInt pc)) label
  | .jumpNeg label => do jumpIf ((← popInt pc) < 0) label
  | .jumpFZero label => do jumpIf (← popFloat pc).isZero label
  | .jumpFPos label => do jumpIf (← popFloat pc).positive label
  | .jumpFNeg label => do jumpIf (← popFloat pc).belowZero label
  | .call label => call pc label
  | .ret => do
    let target ← popInt pc
    if target < 0 then throw .ranOffEnd else modify fun m => { m with pc := target.toInt.toNat }
  | .halt => modify fun m => { m with halted := true }
  | .printf => printf pc
  | .memtop => do push (.int (UInt32.ofNat (← get).memory.size).toInt32)
  | .nop | .label _ | .dLabel _ | .dataZ _ | .dataI _ | .dataF _ | .dataC _ | .dataS _ => pure ()

def step (limit : Nat) : Exec Unit := do
  if limit ≤ (← get).steps then throw (.stepLimit limit)
  else
    modify fun m => { m with steps := m.steps + 1 }
    let pc := (← get).pc
    match (← get).image.code[pc]? with
    | none => throw .ranOffEnd
    | some i =>
      modify fun m => { m with pc := pc + 1 }
      execute pc i

def runFor (limit : Nat) : Nat → Exec Unit
  | 0 => throw (.stepLimit limit)
  | fuel + 1 => do
    if (← get).halted then pure ()
    else
      step limit
      runFor limit fuel

/-- Runs until the machine halts or faults. The step limit ends every run, so that one more step
than it allows is never asked for. -/
def run (limit : Nat) : Exec Unit := do
  runFor limit (limit - (← get).steps + 1)

end Machine

structure Execution where
  output : String
  steps : Nat
  heap : HeapStats
deriving DecidableEq

namespace Machine

def executeCode (code : Code) (settings : MachineSettings) : Except Fault Execution := do
  let m ← load code settings
  match (run settings.stepLimit.toNat).run m with
  | .ok () m => return ⟨m.output, m.steps, m.heap.stats⟩
  | .error e _ => throw e

end Machine
end IntervalStack
