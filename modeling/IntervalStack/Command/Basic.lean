import IntervalStack.Command.Arguments
import IntervalStack.Files
import IntervalStack.Toolchain
import IntervalStack.Tree.Decode

/-! The commands: `build` writes the listing of a program and `run` executes it. -/

namespace IntervalStack.Command

structure Outcome where
  exit : Nat
  stdout : String
  stderr : String

def failed (text : String) : Outcome := ⟨1, "", text⟩

variable {m : Type → Type} [Monad m]

def settingsFile : String := "rangec.toml"

def ancestorsOf : Nat → String → List String
  | 0, _ => []
  | fuel + 1, directory =>
    directory :: match Path.parent? directory with
      | some parent => ancestorsOf fuel parent
      | none => []

def firstFile (files : FileAccess m) : List String → m (Option String)
  | [] => return none
  | path :: rest => do
    if ← files.isFile path then return some path else firstFile files rest

def findSettings (files : FileAccess m) (directory : String) : m (Option String) :=
  firstFile files
    ((ancestorsOf (directory.length + 2) directory).map (Path.join · settingsFile))

def loadSettings (files : FileAccess m) (path : String) : m (Except Diagnostic Settings) := do
  match ← files.read path with
  | .error e =>
    return .error (.error ("cannot read config '" ++ path ++ "': " ++ e.message) .none)
  | .ok text =>
    match Settings.parse text with
    | .ok s => return .ok s
    | .error e => return .error (.error (path ++ ": " ++ e.message) .none)

def discoverSettings (files : FileAccess m) (directory : String) :
    m (Except Diagnostic Settings) := do
  match ← findSettings files directory with
  | some path => loadSettings files path
  | none => return .ok .default

def settingsFor (files : FileAccess m) (config : Option String) (input : String) :
    m (Except Diagnostic Settings) :=
  match config with
  | some path => loadSettings files path
  | none => discoverSettings files ((Path.parent? input).getD ".")

def loadProgram (files : FileAccess m) (input : String) : m (Except String Program) := do
  match ← files.read input with
  | .error e => return .error ("error: cannot read '" ++ input ++ "': " ++ e.message ++ "\n")
  | .ok text =>
    match Program.ofText? text with
    | some p => return .ok p
    | none => return .error Diagnostic.malformed.plain

def failure (e : Toolchain.Failure) : Outcome :=
  match e.diagnostic? with
  | .ok d => failed d.plain
  | .error o => ⟨101, "", o.message ++ "\n"⟩

def withInput (files : FileAccess m) (config : Option String) (input : String)
    (next : Settings → Program → m Outcome) : m Outcome := do
  match ← settingsFor files config input with
  | .error d => return failed d.plain
  | .ok settings =>
    match ← loadProgram files input with
    | .error text => return failed text
    | .ok program => next settings program

def build (files : FileAccess m) (a : BuildArguments) : m Outcome :=
  withInput files a.config a.input fun settings program => do
    match Toolchain.compile program settings with
    | .error e => return failure e
    | .ok code =>
      let path := a.output.getD (Path.withExtension a.input "asm")
      match ← files.write path (Code.text code) with
      | .ok () => return ⟨0, "", "Compiled -> " ++ path ++ "\n"⟩
      | .error e =>
        return failed ("error: cannot write '" ++ path ++ "': " ++ e.message ++ "\n")

def statsText (e : Execution) : String :=
  "Steps:       " ++ toString e.steps ++ "\n"
    ++ "Allocations: " ++ toString e.heap.allocations ++ "\n"
    ++ "Frees:       " ++ toString e.heap.deallocations ++ "\n"
    ++ "Peak live:   " ++ toString e.heap.peakLiveRecords ++ "\n"
    ++ (if 0 < e.heap.liveRecords then
        (Diagnostic.warning (toString e.heap.liveRecords ++ " records still live at exit")
          .none).plain
      else "")

def run (files : FileAccess m) (a : RunArguments) : m Outcome :=
  withInput files a.config a.input fun settings program => do
    match Toolchain.run program settings with
    | .error e => return failure e
    | .ok execution =>
      return ⟨0, execution.output, if a.stats then statsText execution else ""⟩

def usageError : Outcome :=
  ⟨2, "", "error: unexpected or missing arguments\n\nFor more information, try '--help'.\n"⟩

def perform (files : FileAccess m) (arguments : List String) : m Outcome :=
  match Request.parse? arguments with
  | some (.build a) => build files a
  | some (.run a) => run files a
  | some (.help text) => return ⟨0, text, ""⟩
  | some .version => return ⟨0, "rangec 0.1.0\n", ""⟩
  | none => return usageError

end IntervalStack.Command
