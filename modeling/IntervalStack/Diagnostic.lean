import IntervalStack.Generator.Error
import IntervalStack.Machine.Fault

/-! Reports to the user. -/

namespace IntervalStack

inductive Severity
  | error
  | warning
deriving DecidableEq

def Severity.text : Severity → String
  | .error => "error"
  | .warning => "warning"

structure Diagnostic where
  severity : Severity
  message : String
  span : Span
  notes : List String
  help : Option String
deriving DecidableEq

namespace Diagnostic

def error (message : String) (span : Span) : Diagnostic := ⟨.error, message, span, [], none⟩

def warning (message : String) (span : Span) : Diagnostic := ⟨.warning, message, span, [], none⟩

def ofRefusal (e : GenerationError) (span : Span) : Diagnostic :=
  { error ("code generation failed: " ++ e.message) span with
    notes := ["the tree passed semantic analysis but is inconsistent"] }

def ofFault (f : Fault) : Diagnostic := error ("execution failed: " ++ f.message) .none

def malformed : Diagnostic :=
  { error "malformed program" .none with
    help := some "the input must be a typed tree produced by the front end" }

def plain (d : Diagnostic) : String :=
  d.severity.text ++ ": " ++ d.message ++ "\n"
    ++ String.join (d.notes.map fun n => "  note: " ++ n ++ "\n")
    ++ (match d.help with
      | some h => "  help: " ++ h ++ "\n"
      | none => "")

end Diagnostic
end IntervalStack
