import ScopedScript.Typing.Error
import ScopedScript.Typing.Tree

/-!
# The environment of the checker

Besides the names in scope the checker follows facts about the current control-flow path: for
every declared binding whether it has a value yet, and for some bindings that they are known not
to be null. Functions being checked form a stack, since a lambda is checked inside the function
that holds it; reading an outer binding from a lambda records it as a capture.
-/

namespace ScopedScript

structure Signature where
  params : List Ty
  ret : Ty
  isAsync : Bool

def Signature.toTy (s : Signature) : Ty := .function s.params s.ret

/-- A declared struct; method signatures leave out the receiver. -/
structure StructSig where
  fields : List (String × Ty)
  methods : List (String × Signature)

/-- The position and type of a field. -/
def StructSig.field? (s : StructSig) (name : String) : Option (Nat × Ty) :=
  go s.fields 0
where
  go : List (String × Ty) → Nat → Option (Nat × Ty)
    | [], _ => none
    | (n, t) :: rest, i => if n = name then some (i, t) else go rest (i + 1)

/-- The names of the whole program. An entry hides later entries of the same name. -/
structure Globals where
  structs : List (String × StructSig)
  functions : List (String × Signature)
  natives : List (String × Signature)

/-- Whether a binding has a value on the current path. -/
inductive InitState
  | uninit
  | init
  /-- On some paths only. -/
  | maybe
deriving DecidableEq, Repr

def InitState.join (a b : InitState) : InitState := if a = b then a else .maybe

inductive VarKind
  | letBound
  | param
  /-- The `self` of a method. -/
  | receiver
  /-- An outer binding copied into a lambda. -/
  | capture
deriving DecidableEq, Repr

structure Var where
  /-- Unique for each declaration; facts are about identities, not names. -/
  id : Nat
  ty : Ty
  mutable : Bool
  kind : VarKind
  /-- How many loops of the function enclose the declaration. -/
  loopDepth : Nat
  declaredAt : Option Span

/-- A function being checked. Scopes are innermost first, and in a scope a later declaration
hides an earlier one of the same name. -/
structure FnContext where
  ret : Ty
  isAsync : Bool
  scopes : List (List (String × Var))
  loopDepth : Nat
  captures : List String

/-- For each declaration the state on the current path; a later entry hides an earlier one. -/
abbrev InitFacts := List (Nat × InitState)

structure Env where
  globals : Globals
  /-- The functions being checked, innermost first. -/
  contexts : List FnContext
  errors : Array TypeError
  init : InitFacts
  /-- Bindings known not to be null, with their types, newest first. -/
  narrowed : List (Nat × Ty)
  nextId : Nat

namespace FnContext

/-- The binding that a name means in this function alone. -/
def find? (c : FnContext) (name : String) : Option Var :=
  c.scopes.findSome? fun scope => scope.lookup name

/-- Adds a capture unless it is one already. -/
def capture (c : FnContext) (name : String) : FnContext :=
  if c.captures.contains name then c else { c with captures := c.captures ++ [name] }

/-- Declares a binding in the innermost scope. -/
def declare (c : FnContext) (name : String) (v : Var) : FnContext :=
  match c.scopes with
  | [] => c
  | scope :: rest => { c with scopes := ((name, v) :: scope) :: rest }

end FnContext

namespace Var

/-- The binding as a lambda sees it. -/
def captured (v : Var) : Var := { v with mutable := false, kind := .capture }

end Var

/-- Resolves a name. Every function passed on the way out captures it. -/
def resolveIn (name : String) : List FnContext → Option (Var × List FnContext)
  | [] => none
  | c :: outer =>
    match c.find? name with
    | some v => some (v, c :: outer)
    | none =>
      (resolveIn name outer).map fun (v, outer) => (v.captured, c.capture name :: outer)

namespace InitFacts

/-- Declarations without a recorded fact have a value. -/
def state (f : InitFacts) (id : Nat) : InitState := (f.lookup id).getD .init

/-- What holds after two paths meet, for the declarations of the first. -/
def join (a b : InitFacts) : InitFacts :=
  a.map fun (id, s) => (id, s.join ((b.lookup id).getD .uninit))

end InitFacts

/-- The checker's steps read and change the environment. -/
abbrev Check := StateM Env

namespace Check

def report (cause : TypeCause) (span : Option Span) : Check Unit :=
  modify fun e => { e with errors := e.errors.push ⟨cause, span⟩ }

def reportNull (misuse : NullMisuse) (span : Option Span) : Check Unit :=
  report (.nullSafety misuse) span

def reportInvalid (misuse : Misuse) (span : Option Span) : Check Unit :=
  report (.invalid misuse) span

def reportMismatch (expected found : Ty) (span : Option Span) : Check Unit :=
  report (.mismatch expected found) span

/-! Functions being checked. -/

def modifyContext (f : FnContext → FnContext) : Check Unit :=
  modify fun e =>
    match e.contexts with
    | [] => e
    | c :: outer => { e with contexts := f c :: outer }

/-- Starts checking a function with one scope. -/
def enterFunction (ret : Ty) (isAsync : Bool) : Check Unit :=
  modify fun e => { e with contexts := ⟨ret, isAsync, [[]], 0, []⟩ :: e.contexts }

/-- Leaves the function and gives its captures. -/
def exitFunction : Check (List String) :=
  modifyGet fun e =>
    match e.contexts with
    | [] => ([], e)
    | c :: outer => (c.captures, { e with contexts := outer })

def inAsync : Check Bool :=
  return ((← get).contexts.head?.map FnContext.isAsync).getD false

def returnType : Check Ty :=
  return ((← get).contexts.head?.map FnContext.ret).getD .void

def loopDepth : Check Nat :=
  return ((← get).contexts.head?.map FnContext.loopDepth).getD 0

def enterLoop : Check Unit := modifyContext fun c => { c with loopDepth := c.loopDepth + 1 }

def exitLoop : Check Unit := modifyContext fun c => { c with loopDepth := c.loopDepth - 1 }

/-! Scopes and names. -/

def enterScope : Check Unit := modifyContext fun c => { c with scopes := [] :: c.scopes }

def exitScope : Check Unit := modifyContext fun c => { c with scopes := c.scopes.tail }

/-- Declares a binding in the innermost scope, under an identity of its own. -/
def declare (name : String) (ty : Ty) (mutable : Bool) (kind : VarKind) (state : InitState)
    (declaredAt : Option Span) : Check Unit := do
  let depth ← loopDepth
  let id := (← get).nextId
  modifyContext fun c => c.declare name ⟨id, ty, mutable, kind, depth, declaredAt⟩
  modify fun e => { e with init := (id, state) :: e.init, nextId := id + 1 }

/-- Resolves a name for use, recording captures. -/
def lookup (name : String) : Check (Option Var) :=
  modifyGet fun e =>
    match resolveIn name e.contexts with
    | some (v, contexts) => (some v, { e with contexts })
    | none => (none, e)

/-- Resolves a name without recording captures, as the binding stands where it was declared. -/
def peek (name : String) : Check (Option Var) :=
  return (← get).contexts.findSome? fun c => c.find? name

def structSig? (name : String) : Check (Option StructSig) :=
  return (← get).globals.structs.lookup name

def functionSig? (name : String) : Check (Option Signature) :=
  return (← get).globals.functions.lookup name

def nativeSig? (name : String) : Check (Option Signature) :=
  return (← get).globals.natives.lookup name

/-! Facts about the current path. -/

def initState (id : Nat) : Check InitState := return (← get).init.state id

def markInit (id : Nat) : Check Unit := modify fun e => { e with init := (id, .init) :: e.init }

def initFacts : Check InitFacts := return (← get).init

def setInitFacts (f : InitFacts) : Check Unit := modify fun e => { e with init := f }

/-- Goes on with what holds after all these paths; with none the current facts are kept. -/
def mergePaths : List InitFacts → Check Unit
  | [] => pure ()
  | first :: rest => setInitFacts (rest.foldl InitFacts.join first)

def narrowings : Check (List (Nat × Ty)) := return (← get).narrowed

def setNarrowings (n : List (Nat × Ty)) : Check Unit := modify fun e => { e with narrowed := n }

def narrow (id : Nat) (ty : Ty) : Check Unit :=
  modify fun e => { e with narrowed := (id, ty) :: e.narrowed }

def narrowedType? (id : Nat) : Check (Option Ty) := return (← get).narrowed.lookup id

end Check

end ScopedScript
