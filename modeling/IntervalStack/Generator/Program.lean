import IntervalStack.Generator.Stmt

/-! Code for routines and whole programs. The listing holds, in this order, the environment and the
other data, the reference counter, the main program, the functions, the initialisers and methods of
the structs, the interval printers, and the error handlers. -/

namespace IntervalStack.Generator

structure RoutineSpec where
  label : String
  params : List Binding
  paramsSize : UInt32
  localsSize : UInt32
  returnType : Ty
  selfSlot : Option Int32
  body : Block

def routine (program : Program) (structs : StructTable) (spec : RoutineSpec) : Gen Code := do
  let owned := spec.params.filter (·.ty.isHeap)
  let exit ← fresh "exit"
  modify fun s => { s with exitPushed := !owned.isEmpty }
  let ctx : Context :=
    ⟨program, structs, some ⟨exit, spec.returnType, spec.selfSlot⟩, none, none, []⟩
  let prologue ← sized (Frame.prologue cells spec.localsSize)
  let body ← block ctx false spec.body
  let release ← releaseBindings ctx .none owned
  let pushed := (← get).exitPushed
  let epilogue ←
    sized (Frame.epilogue cells spec.localsSize spec.paramsSize spec.returnType)
  return [Instr.label spec.label] ++ prologue ++ body ++ [Instr.label exit] ++ release
    ++ (if pushed then [RefCounter.drain] else []) ++ epilogue

def functionSpec (f : Function) : Except Overflow RoutineSpec := do
  return ⟨functionLabel f.name, f.params, ← f.paramsSize, f.localsSize, f.returnType, none, f.body⟩

def methodSpec (typeCode : Int32) (f : Function) : Except Overflow RoutineSpec := do
  let declared ← f.paramsSize
  return ⟨methodLabel typeCode f.name, f.params, ← Word.add declared Layout.pointerSize,
    f.localsSize, f.returnType, some declared.toInt32, f.body⟩

def initializerSpec (typeCode : Int32) (d : StructDef) : RoutineSpec :=
  ⟨initializerLabel typeCode, [], Layout.pointerSize, d.initializerLocals, .void, some 0,
    d.initializer⟩

def functions (program : Program) (structs : StructTable) : List Function → Gen Code
  | [] => pure []
  | f :: fs => do
    let code ← routine program structs (← sized (functionSpec f))
    let rest ← functions program structs fs
    return code ++ rest

def methods (program : Program) (structs : StructTable) (typeCode : Int32) :
    List Function → Gen Code
  | [] => pure []
  | f :: fs => do
    let code ← routine program structs (← sized (methodSpec typeCode f))
    let rest ← methods program structs typeCode fs
    return code ++ rest

def structRoutines (program : Program) (structs : StructTable) : List StructDef → Gen Code
  | [] => pure []
  | d :: ds => do
    let typeCode :=
      (← layoutOf ⟨program, structs, none, none, none, []⟩ d.id d.span).typeCode
    let initializer ← routine program structs (initializerSpec typeCode d)
    let code ← methods program structs typeCode d.methods
    let rest ← structRoutines program structs ds
    return initializer ++ code ++ rest

def structNames (structs : StructTable) : Code :=
  structs.layouts.flatMap fun s =>
    Environment.dataString (Environment.structName s.typeCode) s.name

def wholeProgram (counter : RefCounter) (program : Program) (structs : StructTable) :
    Gen Code := do
  let main ← block ⟨program, structs, none, none, none, []⟩ false program.main
  let functionCode ← functions program structs program.functions
  let structCode ← structRoutines program structs program.structs
  let used := (← get).printers
  let printers ← intervalPrinters (ScalarKind.all.filter (used.contains ·))
  return Environment.opening cells program.globalSize ++ counter.data ++ structNames structs
    ++ counter.subroutines structs
    ++ [Instr.label Environment.mainLabel] ++ Frame.entry cells ++ RefCounter.reset
    ++ main ++ [Instr.halt] ++ functionCode ++ structCode ++ printers ++ Environment.errorHandlers

def generate (program : Program) (capacity : UInt32) : Except GenerationFailure Code := do
  match RefCounter.ofCapacity? capacity with
  | none => throw (.refused (.worklistCapacity capacity) .none)
  | some counter =>
    match StructTable.ofProgram program with
    | .error o => throw (.overflow o)
    | .ok structs =>
      let (code, _) ← (wholeProgram counter program structs).run ⟨.none, false, false, []⟩
      return code

end IntervalStack.Generator
