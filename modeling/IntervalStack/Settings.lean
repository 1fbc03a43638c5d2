import IntervalStack.Machine.Image
import IntervalStack.RefCounter
import IntervalStack.Text.Blank

/-! Settings and the file that holds them. A line is blank, a comment, the header of a section or an
assignment; the last assignment of a key counts, and a key that is never assigned keeps its
default. -/

namespace IntervalStack

structure Settings where
  worklistCapacity : UInt32
  machine : MachineSettings
deriving DecidableEq

namespace Settings

def default : Settings := ⟨200, ⟨1048576, 524288, 50000000⟩⟩

inductive Section
  | codegen
  | vm
deriving DecidableEq

def Section.name : Section → String
  | .codegen => "codegen"
  | .vm => "vm"

def Section.ofName? (s : String) : Option Section := [codegen, vm].find? (·.name == s)

inductive Key
  | worklistCapacity
  | memorySize
  | heapSize
  | stepLimit
deriving DecidableEq

namespace Key

def owner : Key → Section
  | .worklistCapacity => .codegen
  | _ => .vm

def name : Key → String
  | .worklistCapacity => "worklist_capacity"
  | .memorySize => "memory_size"
  | .heapSize => "heap_size"
  | .stepLimit => "step_limit"

def all : List Key := [.worklistCapacity, .memorySize, .heapSize, .stepLimit]

def find? (s : Section) (name : String) : Option Key :=
  all.find? fun k => k.owner == s && k.name == name

def bound : Key → Nat
  | .stepLimit => UInt64.size
  | _ => UInt32.size

end Key

inductive Error
  | unknownSection (name : String)
  | noAssignment (line : String)
  | outsideSection (key : String)
  | unknownKey (s : Section) (key : String)
  | invalidValue (key : Key) (value : String)
  | capacityZero
  | capacityTooLarge (capacity : UInt32)
  | stepLimitZero
  | heapTooLarge (heap memory : UInt32)
deriving DecidableEq

def Error.message : Error → String
  | .unknownSection name => "unknown section [" ++ name ++ "]"
  | .noAssignment line => "expected `key = value`, found '" ++ line ++ "'"
  | .outsideSection key => "key '" ++ key ++ "' outside of a section"
  | .unknownKey s key => "unknown key " ++ s.name ++ "." ++ key
  | .invalidValue key value => "invalid " ++ key.owner.name ++ "." ++ key.name ++ ": " ++ value
  | .capacityZero => "codegen.worklist_capacity must be > 0"
  | .capacityTooLarge capacity =>
    "codegen.worklist_capacity (" ++ toString capacity.toNat ++ ") must be at most "
      ++ toString RefCounter.maxCapacity.toNat
  | .stepLimitZero => "vm.step_limit must be > 0"
  | .heapTooLarge heap memory =>
    "vm.heap_size (" ++ toString heap.toNat ++ ") must be smaller than vm.memory_size ("
      ++ toString memory.toNat ++ ")"

def assign (s : Settings) (key : Key) (value : Nat) : Settings :=
  match key with
  | .worklistCapacity => { s with worklistCapacity := UInt32.ofNat value }
  | .memorySize => { s with machine := { s.machine with memorySize := UInt32.ofNat value } }
  | .heapSize => { s with machine := { s.machine with heapSize := UInt32.ofNat value } }
  | .stepLimit => { s with machine := { s.machine with stepLimit := UInt64.ofNat value } }

inductive Line
  | blank
  | header (name : String)
  | assignment (key value : String)
  | other (line : String)
deriving DecidableEq

namespace Line

def header? (cs : List Char) : Option (List Char) :=
  match cs with
  | '[' :: rest =>
    match rest.reverse with
    | ']' :: inner => some inner.reverse
    | _ => none
  | _ => none

def parse (line : List Char) : Line :=
  let cs := Text.trim line
  if cs.isEmpty || cs.head? == some '#' then .blank
  else
    match header? cs with
    | some inner => .header (String.ofList (Text.trim inner))
    | none =>
      if cs.contains '=' then
        let key := Text.trim (cs.takeWhile (· != '='))
        let value := Text.trim (((cs.dropWhile (· != '=')).drop 1).takeWhile (· != '#'))
        .assignment (String.ofList key) (String.ofList value)
      else .other (String.ofList cs)

end Line

def isDigit (c : Char) : Bool := '0' ≤ c && c ≤ '9'

def natOf (digits : List Char) : Nat :=
  digits.foldl (fun n c => 10 * n + (c.toNat - '0'.toNat)) 0

def number? (bound : Nat) (cs : List Char) : Option Nat :=
  let digits := if cs.head? == some '+' then cs.drop 1 else cs
  if !digits.isEmpty && digits.all isDigit && natOf digits < bound then some (natOf digits)
  else none

def value? (key : Key) (value : String) : Option Nat :=
  number? key.bound (value.toList.filter (· != '_'))

structure Reading where
  settings : Settings
  current : Option Section

def Reading.line (r : Reading) (line : List Char) : Except Error Reading :=
  match Line.parse line with
  | .blank => .ok r
  | .header name =>
    match Section.ofName? name with
    | some s => .ok { r with current := some s }
    | none => .error (.unknownSection name)
  | .other text => .error (.noAssignment text)
  | .assignment name value =>
    match r.current with
    | none => .error (.outsideSection name)
    | some s =>
      match Key.find? s name with
      | none => .error (.unknownKey s name)
      | some key =>
        match value? key value with
        | some n => .ok { r with settings := r.settings.assign key n }
        | none => .error (.invalidValue key value)

def Reading.lines (r : Reading) : List (List Char) → Except Error Reading
  | [] => .ok r
  | l :: ls => do lines (← r.line l) ls

def validate (s : Settings) : Except Error Settings :=
  if s.worklistCapacity = 0 then .error .capacityZero
  else if RefCounter.maxCapacity < s.worklistCapacity then
    .error (.capacityTooLarge s.worklistCapacity)
  else if s.machine.stepLimit = 0 then .error .stepLimitZero
  else if s.machine.memorySize ≤ s.machine.heapSize then
    .error (.heapTooLarge s.machine.heapSize s.machine.memorySize)
  else .ok s

def parse (text : String) : Except Error Settings := do
  let r ← (Reading.mk default none).lines (Text.splitOn '\n' text.toList)
  validate r.settings

end Settings
end IntervalStack
