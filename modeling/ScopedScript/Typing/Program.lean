import ScopedScript.Typing.Check

/-!
# Checking programs

Names come first: structs, then their fields and methods, then functions. Bodies are checked
after that, so they may refer to each other in any order. A program is accepted when nothing has
been reported.
-/

namespace ScopedScript

namespace Check

/-- Makes a struct known by name, so that types may refer to it. -/
def declareStructName (d : StructDecl) : Check Unit := do
  if (← structSig? d.name).isSome then reportInvalid (.duplicateStruct d.name) d.span
  else
    modify fun e =>
      { e with globals := { e.globals with structs := (d.name, ⟨[], []⟩) :: e.globals.structs } }

def resolveParams (span : Option Span) (params : List Param) : Check (List Ty) :=
  params.mapM fun p => resolveType p.type (p.span.or span)

def resolveSignature (d : FunctionDecl) : Check Signature := do
  let params ← resolveParams d.span d.params
  let ret ← resolveReturn d.ret d.span
  return ⟨params, ret, d.isAsync⟩

/-- The declared fields; of two with one name the first counts. -/
def declareFields (d : StructDecl) (sig : StructSig) : List FieldDecl → Check StructSig
  | [] => return sig
  | field :: rest => do
    let span := field.span.or d.span
    if (sig.field? field.name).isSome then
      reportInvalid (.duplicateField field.name d.name) span
      declareFields d sig rest
    else
      let ty ← resolveType field.type span
      declareFields d { sig with fields := sig.fields ++ [(field.name, ty)] } rest

/-- The declared methods; of two with one name the first counts. -/
def declareMethods (d : StructDecl) (sig : StructSig) : List FunctionDecl → Check StructSig
  | [] => return sig
  | method :: rest => do
    if method.isAsync then reportInvalid (.asyncMethod d.name method.name) method.span
    if (sig.methods.lookup method.name).isSome then
      reportInvalid (.duplicateMethod d.name method.name) method.span
      declareMethods d sig rest
    else
      let signature ← resolveSignature method
      declareMethods d { sig with methods := sig.methods ++ [(method.name, signature)] } rest

def declareStruct (d : StructDecl) : Check Unit := do
  let sig ← declareFields d ⟨[], []⟩ d.fields
  let sig ← declareMethods d sig d.methods
  modify fun e =>
    { e with globals := { e.globals with structs := (d.name, sig) :: e.globals.structs } }

def declareFunction (d : FunctionDecl) : Check Unit := do
  if (← functionSig? d.name).isSome then reportInvalid (.duplicateFunction d.name) d.span
  else
    let sig ← resolveSignature d
    modify fun e =>
      { e with globals := { e.globals with functions := (d.name, sig) :: e.globals.functions } }

def declareItems (p : Program) : Check Unit := do
  p.structs.forM declareStructName
  p.structs.forM declareStruct
  p.functions.forM declareFunction

/-- The signature that a declaration was given, or its own when another one took the name. -/
def declaredSignature (d : FunctionDecl) (struct : Option String) : Check Signature := do
  let declared ← match struct with
    | some name => pure ((← structSig? name).bind fun s => s.methods.lookup d.name)
    | none => functionSig? d.name
  return declared.getD
    ⟨d.params.map fun p => Ty.ofExpr p.type, (d.ret.map Ty.ofExpr).getD .void, d.isAsync⟩

/-- Declares parameters after those that came before them. -/
def declareParams (span : Option Span) (before : List TParam) :
    List (Param × Ty) → Check (List TParam)
  | [] => return before
  | (p, ty) :: rest => do
    if before.any fun q => q.name == p.name then
      reportInvalid (.duplicateParam p.name) (p.span.or span)
    declare p.name ty p.mutable .param .init p.span
    declareParams span (before ++ [⟨p.name, ty, p.mutable, p.span⟩]) rest

/-- Declares the receiver of a method. -/
def declareSelf (d : FunctionDecl) (struct : Option String) : Check (List TParam) :=
  match struct with
  | none => return []
  | some name => do
    declare "self" (.struct name) false .receiver .init d.span
    return [⟨"self", .struct name, false, d.span⟩]

/-- Checks the body of a function, or of a method of the given struct. -/
def checkFunction (struct : Option String) (d : FunctionDecl) : Check TFunction := do
  let sig ← declaredSignature d struct
  let name := match struct with
    | some s => methodSymbol s d.name
    | none => d.name
  enterFunction sig.ret d.isAsync
  let receiver ← declareSelf d struct
  let params ← declareParams d.span receiver (d.params.zip sig.params)
  let (body, falls) ← checkStmts d.body
  if falls ∧ sig.ret ≠ .void then reportInvalid (.functionEnds name sig.ret) d.span
  let _ ← exitFunction
  return { name, params, ret := sig.ret, body, isAsync := d.isAsync, span := d.span }

def checkItem : Item → Check (List TFunction)
  | .function d => return [← checkFunction none d]
  | .struct d => d.methods.mapM (checkFunction (some d.name))

def structInfo? (d : StructDecl) : Check (Option StructInfo) := do
  match ← structSig? d.name with
  | none => return none
  | some sig => return some ⟨d.name, sig.fields, d.methods.map FunctionDecl.name, d.span⟩

def checkItems (p : Program) : Check TProgram := do
  declareItems p
  let structs ← p.structs.mapM structInfo?
  let functions ← p.items.mapM checkItem
  return { structs := structs.filterMap id, functions := functions.flatten, source := p.source }

end Check

/-- The environment in which only built-ins are known. -/
def Env.ofNatives (natives : List (String × Signature)) : Env where
  globals := ⟨[], [], natives⟩
  contexts := []
  errors := #[]
  init := []
  narrowed := []
  nextId := 0

/-- Checks a program against built-ins; a rejected program has at least one error. -/
def Program.check (p : Program) (natives : List (String × Signature)) :
    Except (Array TypeError) TProgram :=
  let (typed, env) := (Check.checkItems p).run (.ofNatives natives)
  if env.errors.isEmpty then .ok typed else .error env.errors

end ScopedScript
