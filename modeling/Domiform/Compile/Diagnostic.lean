import Mathlib.Tactic

/-! Compiler diagnostics: every finding of one pass, errors and warnings alike. -/
namespace Domiform

inductive Severity
  | error
  | warning
  deriving DecidableEq, Repr

structure Diagnostic where
  severity : Severity
  code : String
  message : String
  context : Option String
  deriving DecidableEq

namespace Diagnostic

def error (code message : String) : Diagnostic := ⟨.error,code,message,none⟩

def warning (code message : String) : Diagnostic := ⟨.warning,code,message,none⟩

/-- `.at(context)`. -/
def place (d : Diagnostic) (context : String) : Diagnostic := { d with context := some context }

def isError (d : Diagnostic) : Bool := d.severity == .error

end Diagnostic
end Domiform
