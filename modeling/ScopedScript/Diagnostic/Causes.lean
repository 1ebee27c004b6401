import ScopedScript.Compile.Error
import ScopedScript.Diagnostic.Basic
import ScopedScript.Machine.Fault

/-!
# Diagnostics of errors and faults

The code, the related places and the advice that belong to each cause.
-/

namespace ScopedScript

/-- The place where a binding was declared, if it is known. -/
def declaredHere (name : String) (span : Option Span) : List RelatedInfo :=
  span.toList.map fun s => ⟨code name ++ " declared here", s⟩

/-- The place where a binding was freed, if it is known. -/
def freedHere (name : String) (span : Option Span) : List RelatedInfo :=
  span.toList.map fun s => ⟨code name ++ " freed here", s⟩

namespace TypeCause

def diagnosticCode : TypeCause → DiagnosticCode
  | immutable .. => ⟨"E0002", "immutable assignment"⟩
  | nullSafety _ => ⟨"E0003", "null safety"⟩
  | unresolved .. => ⟨"E0005", "unknown name"⟩
  | mismatch .. | arity .. | invalid _ => ⟨"E0001", "type error"⟩

def related : TypeCause → List RelatedInfo
  | immutable name declaredAt => declaredHere name declaredAt
  | _ => []

def help : TypeCause → Option String
  | immutable name _ =>
    some ("declare it as " ++ code ("let mut " ++ name) ++ " to allow reassignment")
  | mismatch .float .int => some "convert explicitly with `to_float`"
  | _ => none

end TypeCause

def TypeError.toDiagnostic (e : TypeError) (filename : String) : Diagnostic :=
  { Diagnostic.error .typing e.message e.span filename with
    code := some e.cause.diagnosticCode
    related := e.cause.related
    help := e.cause.help }

namespace CompileCause

def diagnosticCode : CompileCause → Option DiagnosticCode
  | useAfterFree .. | freeInLoop .. => some ⟨"E0004", "use after free"⟩
  | _ => none

def related : CompileCause → List RelatedInfo
  | useAfterFree name declaredAt freedAt => declaredHere name declaredAt ++ freedHere name freedAt
  | freeInLoop name declaredAt => declaredHere name declaredAt
  | _ => []

def help : CompileCause → Option String
  | freeInLoop name _ => some ("free " ++ code name ++ " after the loop instead")
  | _ => none

end CompileCause

def CompileError.toDiagnostic (e : CompileError) (filename : String) : Diagnostic :=
  { Diagnostic.error .compiling e.message e.span filename with
    code := e.cause.diagnosticCode
    related := e.cause.related
    help := e.cause.help }

def FaultCause.diagnosticCode : FaultCause → Option DiagnosticCode
  | mistype _ => some ⟨"E0100", "runtime type error"⟩
  | _ => none

def Fault.toDiagnostic (f : Fault) (filename : String) : Diagnostic :=
  { Diagnostic.error .running f.message f.span filename with
    code := f.cause.diagnosticCode
    notes := f.function.toList.map fun name => "raised in " ++ code name }

end ScopedScript
