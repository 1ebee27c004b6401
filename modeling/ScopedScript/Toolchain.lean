import ScopedScript.Compile.Program
import ScopedScript.Diagnostic.Causes
import ScopedScript.Json.Parser
import ScopedScript.Machine.Run
import ScopedScript.Ron.Parser
import ScopedScript.Ron.Shape
import ScopedScript.Text.FileName
import ScopedScript.Tree.Reader
import ScopedScript.Typing.Program

/-!
# From text to outcome

Reading, checking, compiling and running a program, and the one type of failure that covers all
of them.
-/

namespace ScopedScript

/-- The data format of a program tree. -/
inductive TreeFormat
  | ron
  | json
deriving DecidableEq, Repr

/-- Files named `.json` hold JSON, all others object notation. -/
def TreeFormat.ofPath (path : String) : TreeFormat :=
  match Text.extension? path with
  | some "json" => .json
  | _ => .ron

inductive Failure
  | unreadable (path reason : String)
  | tree
  | typing (errors : List TypeError)
  | compiling (errors : List CompileError)
  | running (fault : Fault)

namespace Failure

def message : Failure → String
  | unreadable path reason => "failed to read " ++ path ++ ": " ++ reason
  | tree => "malformed syntax tree"
  | typing errors =>
    "type checking failed with " ++ Decimal.natText errors.length ++ " error(s)"
  | compiling errors =>
    "compilation failed with " ++ Decimal.natText errors.length ++ " error(s)"
  | running fault => fault.message

def diagnostics (filename : String) : Failure → List Diagnostic
  | typing errors => errors.map fun e => e.toDiagnostic filename
  | compiling errors => errors.map fun e => e.toDiagnostic filename
  | running fault => [fault.toDiagnostic filename]
  | unreadable _ _ | tree => []

/-- The failure as it is reported: its diagnostics, or its message when it has none. -/
def report (f : Failure) (filename : String) (source : Option String) :
    Diagnostic.Rendered String :=
  match f.diagnostics filename with
  | [] => .ok ("error: " ++ f.message)
  | ds => return "\n".intercalate (← ds.mapM fun d => d.render source)

end Failure

namespace Program

/-- The program that a text in object notation describes. -/
def ofRon? (d : Ron.Document) : Option Program := Tree.readProgram Ron.shape Ron.maxLevel d.root

/-- The program that a text describes. -/
def ofText? (format : TreeFormat) (text : String) : Option Program :=
  match format with
  | .ron => (Ron.parse? text).bind ofRon?
  | .json => (Json.parse? text).bind ofJson?

def ofText (format : TreeFormat) (text : String) : Except Failure Program :=
  match ofText? format text with
  | some p => .ok p
  | none => .error .tree

/-- The program checked against built-ins. -/
def typed (p : Program) (r : Registry) : Except Failure TProgram :=
  match p.check r.signatures with
  | .ok t => .ok t
  | .error errors => .error (.typing errors.toList)

/-- The code of a program. -/
def compile (p : Program) (r : Registry) : Except Failure Module :=
  match p.typed r with
  | .error f => .error f
  | .ok t =>
    match t.compile with
    | .ok m => .ok m
    | .error errors => .error (.compiling errors.toList)

end Program

/-- The status that a process ends with: the integer that came out if it fits 32 bits, zero for
any other value, and one for failures. -/
def Outcome.exitStatus : Outcome → Int
  | .ok v =>
    match v.unboxed with
    | .int n => if -2147483648 ≤ n.toInt ∧ n.toInt < 2147483648 then n.toInt else 1
    | _ => 0
  | .error _ => 1

end ScopedScript
