/-! The arguments of the command line. -/

namespace IntervalStack.Command

structure BuildArguments where
  input : String
  output : Option String
  config : Option String
  source : Option String

structure RunArguments where
  input : String
  config : Option String
  source : Option String
  stats : Bool

inductive Request
  | build (arguments : BuildArguments)
  | run (arguments : RunArguments)
  | help (text : String)
  | version

inductive Flag
  | output
  | config
  | source
  | stats
deriving DecidableEq

def Flag.takesValue : Flag → Bool
  | .stats => false
  | _ => true

structure Gathered where
  values : List (Flag × String)
  inputs : List String
  help : Bool

def longFlag? (allowed : List Flag) : String → Option Flag
  | "output" => if allowed.contains .output then some .output else none
  | "config" => if allowed.contains .config then some .config else none
  | "source" => if allowed.contains .source then some .source else none
  | "stats" => if allowed.contains .stats then some .stats else none
  | _ => none

def note (g : Gathered) (f : Flag) (value : String) : Option Gathered :=
  if (g.values.lookup f).isSome || (f.takesValue && value == "") then none
  else some { g with values := (f, value) :: g.values }

def looksLikeFlag (s : String) : Bool :=
  match s.toList with
  | '-' :: _ :: _ => true
  | _ => false

def inputArgument (g : Gathered) (s : String) : Option Gathered :=
  if s == "" || !g.inputs.isEmpty then none else some { g with inputs := [s] }

def splitLong (cs : List Char) : String × Option String :=
  if cs.contains '=' then
    (String.ofList (cs.takeWhile (· != '=')),
      some (String.ofList ((cs.dropWhile (· != '=')).drop 1)))
  else (String.ofList cs, none)

/-- Reads the arguments of a command. After a double dash all of them are inputs. A request for
help is served at once. -/
def gather (allowed : List Flag) (g : Gathered) (plain : Bool) :
    List String → Option Gathered
  | [] => some g
  | s :: rest =>
    if plain then do gather allowed (← inputArgument g s) true rest
    else if s == "--" then gather allowed g true rest
    else if s == "--help" then some { g with help := true }
    else
      match s.toList with
      | '-' :: '-' :: cs =>
        let (name, value) := splitLong cs
        match longFlag? allowed name, value with
        | some f, some v => if f.takesValue then do gather allowed (← note g f v) false rest else none
        | some f, none =>
          if f.takesValue then
            match rest with
            | v :: rest' =>
              if looksLikeFlag v then none else do gather allowed (← note g f v) false rest'
            | [] => none
          else do gather allowed (← note g f "") false rest
        | none, _ => none
      | '-' :: 'o' :: cs =>
        if !allowed.contains .output then none
        else
          match cs with
          | [] =>
            match rest with
            | v :: rest' =>
              if looksLikeFlag v then none else do gather allowed (← note g .output v) false rest'
            | [] => none
          | '=' :: v => do gather allowed (← note g .output (String.ofList v)) false rest
          | v => do gather allowed (← note g .output (String.ofList v)) false rest
      | '-' :: 'h' :: _ => some { g with help := true }
      | '-' :: _ :: _ => none
      | _ => do gather allowed (← inputArgument g s) false rest

def helpText (lines : List String) : String := String.join (lines.map (· ++ "\n"))

def generalHelp : String :=
  helpText [
    "Stack-machine back end for programs over intervals and records",
    "",
    "Usage: rangec <COMMAND>",
    "",
    "Commands:",
    "  build  Compile a typed program (JSON) to stack-machine assembly",
    "  run    Compile a typed program and execute it on the simulator",
    "  help   Print this message or the help of the given subcommand(s)",
    "",
    "Options:",
    "  -h, --help     Print help",
    "  -V, --version  Print version"]

def buildHelp : String :=
  helpText [
    "Compile a typed program (JSON) to stack-machine assembly",
    "",
    "Usage: rangec build [OPTIONS] <INPUT>",
    "",
    "Arguments:",
    "  <INPUT>  Input program (typed AST as JSON)",
    "",
    "Options:",
    "  -o, --output <OUTPUT>  Output assembly file (default: <input>.asm)",
    "      --config <PATH>    Configuration file (default: nearest rangec.toml)",
    "      --source <PATH>    Source file the spans in the program refer to",
    "  -h, --help             Print help"]

def runHelp : String :=
  helpText [
    "Compile a typed program and execute it on the simulator",
    "",
    "Usage: rangec run [OPTIONS] <INPUT>",
    "",
    "Arguments:",
    "  <INPUT>  Input program (typed AST as JSON)",
    "",
    "Options:",
    "      --config <PATH>  Configuration file (default: nearest rangec.toml)",
    "      --source <PATH>  Source file the spans in the program refer to",
    "      --stats          Print step count and heap statistics after the run",
    "  -h, --help           Print help"]

def helpHelp : String :=
  helpText [
    "Print this message or the help of the given subcommand(s)",
    "",
    "Usage: rangec help [COMMAND]...",
    "",
    "Arguments:",
    "  [COMMAND]...  Print help for the subcommand(s)"]

def buildRequest? (arguments : List String) : Option Request := do
  let g ← gather [.output, .config, .source] ⟨[], [], false⟩ false arguments
  if g.help then return .help buildHelp
  else
    match g.inputs with
    | input :: _ =>
      return .build ⟨input, g.values.lookup .output, g.values.lookup .config,
        g.values.lookup .source⟩
    | [] => none

def runRequest? (arguments : List String) : Option Request := do
  let g ← gather [.config, .source, .stats] ⟨[], [], false⟩ false arguments
  if g.help then return .help runHelp
  else
    match g.inputs with
    | input :: _ =>
      return .run ⟨input, g.values.lookup .config, g.values.lookup .source,
        (g.values.lookup .stats).isSome⟩
    | [] => none

def leadingRequest? (s : String) : Option Request :=
  match s.toList with
  | '-' :: 'h' :: _ => some (.help generalHelp)
  | '-' :: 'V' :: _ => some .version
  | _ =>
    if s == "--help" then some (.help generalHelp)
    else if s == "--version" then some .version
    else none

def Request.parse? : List String → Option Request
  | "build" :: rest => buildRequest? rest
  | "run" :: rest => runRequest? rest
  | ["help"] => some (.help generalHelp)
  | ["help", "build"] => some (.help buildHelp)
  | ["help", "run"] => some (.help runHelp)
  | ["help", "help"] => some (.help helpHelp)
  | "help" :: _ => none
  | s :: _ => leadingRequest? s
  | [] => none

end IntervalStack.Command
