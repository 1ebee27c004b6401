import ScopedScript.Code.Basic
import ScopedScript.Compile.Error
import ScopedScript.Compile.Uses

/-!
# The state of compilation

The compiler follows, for the function at hand, which slot each name stands for and which slots
have been freed on some path so far. Code is a list of lines that know their own address; jumps
to an address that is not known yet are pending until it is.
-/

namespace ScopedScript

/-- The indices of all functions and structs, fixed before any body is compiled. Of two entries
with one name the first counts. -/
structure Ids where
  functions : List (String × Nat)
  structs : List (String × Nat)

/-- The shape that values of a type have. -/
def Ids.tagOf (ids : Ids) : Ty → TypeTag
  | .int => .int
  | .float => .float
  | .bool => .bool
  | .string => .string
  | .void => .null
  | .null => .null
  | .any => .any
  | .struct name =>
    match ids.structs.lookup name with
    | some id => .struct id
    | none => .any
  | .function _ _ => .function
  | .task _ => .task
  | .nullable inner => .nullable (ids.tagOf inner)

structure Binding where
  name : String
  slot : Nat
  declaredAt : Option Span
  /-- How many loops of the function enclose the declaration. -/
  loopDepth : Nat

structure LoopContext where
  start : Nat
  /-- How many scopes were open when the loop began. -/
  scopeDepth : Nat

/-- Slots freed on some path so far, with the place. -/
abbrev Freed := List (Nat × Option Span)

/-- Facts of the second path win. -/
def Freed.merge (a b : Freed) : Freed := b ++ a.filter fun f => (b.lookup f.1).isNone

/-- The function at hand. -/
structure FnState where
  name : String
  captures : List String
  constants : Array Constant
  /-- Open scopes, innermost first; in each the newest binding first. -/
  scopes : List (List Binding)
  slotNames : Array String
  loops : List LoopContext
  freed : Freed
  lambdaCount : Nat

structure Emitter where
  fn : FnState
  /-- Compiled functions by index; lambdas follow the named ones. -/
  functions : Array (Option FunctionCode)
  natives : Array String
  errors : Array CompileError

abbrev Emit := StateM Emitter

/-- An instruction, or a jump whose target is still unknown. -/
inductive Step
  | instr (i : Instr)
  /-- Jumps past the innermost loop. -/
  | leaveLoop
  /-- Jumps past the innermost `if`. -/
  | leaveBranch

structure Line where
  step : Step
  span : Option Span

namespace Line

def of (i : Instr) (span : Option Span) : Line := ⟨.instr i, span⟩

def leaveLoop (span : Option Span) : Line := ⟨.leaveLoop, span⟩

def leaveBranch (span : Option Span) : Line := ⟨.leaveBranch, span⟩

/-- Gives a pending jump out of a loop its target. -/
def closeLoop (target : Nat) (l : Line) : Line :=
  match l.step with
  | .leaveLoop => { l with step := .instr (.jump target) }
  | _ => l

/-- Gives a pending jump out of an `if` its target. -/
def closeBranch (target : Nat) (l : Line) : Line :=
  match l.step with
  | .leaveBranch => { l with step := .instr (.jump target) }
  | _ => l

/-- The instruction; a jump that is still pending leads nowhere. -/
def instr (l : Line) : Instr :=
  match l.step with
  | .instr i => i
  | _ => .jump (Nat.pow 2 64 - 1)

end Line

/-- How a name is resolved in the function at hand. -/
inductive Resolved
  | slot (binding : Binding)
  | capture (index : Nat)

def FnState.resolve? (f : FnState) (name : String) : Option Resolved :=
  match f.scopes.findSome? fun scope => scope.find? fun b => b.name == name with
  | some binding => some (.slot binding)
  | none => (f.captures.findIdx? fun c => c == name).map .capture

/-- Whether a constant stands for another one in the pool. -/
def Constant.same : Constant → Constant → Bool
  | .int a, .int b => a == b
  | .float a, .float b => a == b
  | .bool a, .bool b => a == b
  | .string a, .string b => a == b
  | .null, .null => true
  | _, _ => false

namespace Emit

def report (cause : CompileCause) (span : Option Span) : Emit Unit :=
  modify fun e => { e with errors := e.errors.push ⟨cause, span⟩ }

def modifyFn (f : FnState → FnState) : Emit Unit := modify fun e => { e with fn := f e.fn }

/-- The index of a constant in the pool, where equal constants share one entry. -/
def internConstant (c : Constant) : Emit Nat :=
  modifyGet fun e =>
    match e.fn.constants.findIdx? fun d => d.same c with
    | some i => (i, e)
    | none =>
      (e.fn.constants.size, { e with fn := { e.fn with constants := e.fn.constants.push c } })

def constant (c : Constant) (span : Option Span) : Emit (List Line) := do
  let i ← internConstant c
  return [.of (.const i) span]

/-- The index of a built-in, numbered on first use. -/
def nativeId (name : String) : Emit Nat :=
  modifyGet fun e =>
    match e.natives.findIdx? fun n => n == name with
    | some i => (i, e)
    | none => (e.natives.size, { e with natives := e.natives.push name })

/-- Allocates a fresh slot for a declaration in the innermost scope. -/
def declareBinding (name : String) (declaredAt : Option Span) : Emit Nat :=
  modifyGet fun e =>
    let f := e.fn
    let slot := f.slotNames.size
    let binding : Binding := ⟨name, slot, declaredAt, f.loops.length⟩
    let scopes := match f.scopes with
      | [] => []
      | scope :: outer => (binding :: scope) :: outer
    (slot, { e with fn := { f with scopes, slotNames := f.slotNames.push name } })

def resolve? (name : String) : Emit (Option Resolved) := return (← get).fn.resolve? name

def freed : Emit Freed := return (← get).fn.freed

def setFreed (m : Freed) : Emit Unit := modifyFn fun f => { f with freed := m }

def markFreed (slot : Nat) (span : Option Span) : Emit Unit :=
  modifyFn fun f => { f with freed := (slot, span) :: f.freed }

/-- Reports a reference to a binding that was freed on some path before. -/
def checkLive (b : Binding) (span : Option Span) : Emit Bool := do
  match (← freed).lookup b.slot with
  | some freedAt =>
    report (.useAfterFree b.name b.declaredAt freedAt) span
    return false
  | none => return true

/-- Reports a name that the checker would not have passed; `null` stands in for it. -/
def unresolved (what name : String) (span : Option Span) : Emit (List Line) := do
  report (.unresolved what name) span
  constant .null span

def load (name : String) (span : Option Span) : Emit (List Line) := do
  match ← resolve? name with
  | some (.slot b) =>
    let _ ← checkLive b span
    return [.of (.load b.slot) span]
  | some (.capture i) => return [.of (.loadCapture i) span]
  | none => unresolved "binding" name span

def loads (span : Option Span) : List String → Emit (List Line)
  | [] => return []
  | name :: rest => do
    let code ← load name span
    let rest ← loads span rest
    return code ++ rest

/-- The slot of a binding that `return` hands over instead of copying it. -/
def movedSlot? : TExpr → Emit (Option Nat)
  | .mk (.binding name) _ span => do
    match ← resolve? name with
    | some (.slot b) =>
      let _ ← checkLive b span
      return some b.slot
    | _ => return none
  | _ => return none

def free (name : String) (span : Option Span) : Emit (List Line) := do
  match ← resolve? name with
  | some (.slot b) =>
    -- a second `free` is a use of a freed binding
    if !(← checkLive b span) then return []
    if b.loopDepth < (← get).fn.loops.length then
      report (.freeInLoop name b.declaredAt) span
      return []
    markFreed b.slot span
    return [.of (.free b.slot) span]
  | _ =>
    report (.notLocal name) span
    return []

/-- The store of an assignment, after its value. -/
def store (target : AssignTarget) (span : Option Span) : Emit (List Line) := do
  match ← resolve? target.name with
  | some (.slot b) =>
    if !(← checkLive b target.span) then return []
    if target.path.isEmpty then return [.of (.store b.slot) span]
    return [.of (.storeField b.slot target.path) span]
  | _ =>
    report (.notAssignable target.name) target.span
    return []

/-- The bindings of a scope, newest first, that are neither freed nor needed by `uses`. A binding
hidden by a newer one of its name can no longer be named. -/
def deadBindings (freed : Freed) (uses : List Use) (newer : List String) :
    List Binding → List Binding
  | [] => []
  | b :: older =>
    let visible := !newer.contains b.name
    let needed := visible && uses.any fun u => u.name == b.name
    let rest := deadBindings freed uses (b.name :: newer) older
    if (freed.lookup b.slot).isNone && !needed then b :: rest else rest

/-- Frees every binding of the innermost scope that the rest of its block does not need. -/
def collect (rest : List TStmt) (span : Option Span) : Emit (List Line) := do
  let f := (← get).fn
  let dead := deadBindings f.freed (blockUses [] rest) [] (f.scopes.headD [])
  setFreed (dead.map (fun b => (b.slot, span)) ++ f.freed)
  return dead.map fun b => .of (.free b.slot) span

def openScope : Emit Unit := modifyFn fun f => { f with scopes := [] :: f.scopes }

def closeScope : Emit Unit := modifyFn fun f => { f with scopes := f.scopes.tail }

/-- Emits in a scope of its own, with the instructions that open and close it. -/
def inScope (span : Option Span) (emit : Emit (List Line)) : Emit (List Line) := do
  openScope
  let body ← emit
  closeScope
  return [.of .enterScope span] ++ body ++ [.of .exitScope span]

/-- Emits the body of a loop that starts at an address. -/
def inLoop (start : Nat) (emit : Emit (List Line)) : Emit (List Line) := do
  modifyFn fun f => { f with loops := ⟨start, f.scopes.length⟩ :: f.loops }
  let body ← emit
  modifyFn fun f => { f with loops := f.loops.tail }
  return body

/-- Closes the scopes opened since the innermost loop began. -/
def exitLoopScopes (span : Option Span) : Emit (List Line) := do
  let f := (← get).fn
  match f.loops with
  | [] => return []
  | l :: _ => return List.replicate (f.scopes.length - l.scopeDepth) (.of .exitScope span)

/-- The jump of `continue`. -/
def jumpToStart (span : Option Span) : Emit (List Line) := do
  match (← get).fn.loops with
  | [] => return []
  | l :: _ => return [.of (.jump l.start) span]

end Emit

/-- The state at the start of a function. -/
def FnState.start (name : String) (captures : List String) : FnState where
  name := name
  captures := captures
  constants := #[]
  scopes := [[]]
  slotNames := #[]
  loops := []
  freed := []
  lambdaCount := 0

end ScopedScript
