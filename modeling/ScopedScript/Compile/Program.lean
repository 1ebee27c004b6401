import ScopedScript.Compile.Emit

/-!
# Compiling programs

Functions and structs are numbered first, so calls can be written before the callee is compiled.
The code of a function goes where its name points; lambdas follow in the order they are finished.
-/

namespace ScopedScript

/-- Names with their positions, the last of two equal names counting. -/
def numbered (names : List String) : List (String × Nat) := names.zipIdx.reverse

def Ids.ofProgram (p : TProgram) : Ids where
  functions := numbered (p.functions.map TFunction.name)
  structs := numbered (p.structs.map StructInfo.name)

/-- The layout of a struct; its methods are the functions that have a number. -/
def StructInfo.layout (ids : Ids) (s : StructInfo) : StructLayout where
  name := s.name
  fields := s.fields.map Prod.fst
  methods := s.methods.filterMap fun m =>
    (ids.functions.lookup (methodSymbol s.name m)).map fun id => (m, id)

namespace Emit

/-- Compiles a function and puts its code where its name points. -/
def function (ids : Ids) (f : TFunction) : Emit Unit := do
  modify fun e => { e with fn := .start f.name [] }
  declareParams f.params
  let body ← stmts ids 0 f.body
  let code ← finish ids f.params body f.isAsync f.span
  match ids.functions.lookup f.name with
  | some id => modify fun e => { e with functions := e.functions.setIfInBounds id (some code) }
  | none => pure ()

end Emit

/-- The state before the first of `count` functions. -/
def Emitter.start (count : Nat) : Emitter where
  fn := .start "" []
  functions := Array.replicate count none
  natives := #[]
  errors := #[]

/-- Compiles a checked program. -/
def TProgram.compile (p : TProgram) : Except (Array CompileError) Module :=
  let ids := Ids.ofProgram p
  let (_, e) := (p.functions.forM (Emit.function ids)).run (.start p.functions.length)
  if e.errors.isEmpty then
    .ok {
      functions := e.functions.filterMap id
      structs := (p.structs.map (StructInfo.layout ids)).toArray
      natives := e.natives
      source := p.source }
  else .error e.errors

end ScopedScript
