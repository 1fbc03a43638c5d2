import IntervalStack.Diagnostic
import IntervalStack.Generator.Program
import IntervalStack.Machine.Basic
import IntervalStack.Settings

/-! From a program to its code, and from a program to the outcome of running it. -/

namespace IntervalStack

namespace Toolchain

inductive Failure
  | refused (error : GenerationError) (span : Span)
  | faulted (fault : Fault)
  | overflow (cause : Overflow)

def Failure.diagnostic? : Failure → Except Overflow Diagnostic
  | .refused e span => .ok (.ofRefusal e span)
  | .faulted f => .ok (.ofFault f)
  | .overflow o => .error o

def Failure.ofFault : Fault → Failure
  | .overflow o | .heap (.overflow o) => .overflow o
  | f => .faulted f

def compile (p : Program) (s : Settings) : Except Failure Code :=
  match Generator.generate p s.worklistCapacity with
  | .ok code => .ok code
  | .error (.refused e span) => .error (.refused e span)
  | .error (.overflow o) => .error (.overflow o)

def run (p : Program) (s : Settings) : Except Failure Execution := do
  let code ← compile p s
  match Machine.executeCode code s.machine with
  | .ok execution => return execution
  | .error f => throw (.ofFault f)

end Toolchain
end IntervalStack
