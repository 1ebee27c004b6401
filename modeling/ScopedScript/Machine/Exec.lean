import ScopedScript.Machine.Linked
import ScopedScript.Machine.Operators
import ScopedScript.Machine.Scheduler

/-!
# Instructions

What each instruction does to the running task and to the rest of the machine. An instruction
that fails raises a fault, which ends the task. The struct table is the one table that is read
without a check, by the lookup of a field in a value of type `any`: a value of a struct type that
the module does not have loses the whole run.
-/

namespace ScopedScript

/-- One release of a binding. -/
structure Release where
  function : String
  slot : Nat
  name : String
  kind : ReleaseKind
deriving DecidableEq, Repr

/-- The tasks, and what running them has brought about. -/
structure Machine where
  scheduler : Scheduler
  output : String
  releases : Array Release

/-- A machine with a task taken out to run. -/
structure Running extends Machine where
  task : Task

/-- What stops an instruction. -/
inductive Trap
  | fault (f : Fault)
  /-- The run is lost: the module has no such struct type. -/
  | lost (type : Nat)
deriving DecidableEq, Repr

/-- How a task goes on after an instruction. -/
inductive Flow
  | goOn
  | finished (value : Value)
  | yielded
  | suspended
deriving Repr

abbrev Exec := EStateM Trap Running

/-- Blames an instruction for a fault. -/
def Trap.located (t : Trap) (span : Option Span) (function : String) : Trap :=
  match t with
  | fault f => fault (f.located span function)
  | lost type => lost type

/-- The fault that an error on a slot of a function amounts to. -/
def SlotError.cause (f : FunctionCode) : SlotError → FaultCause
  | alreadyReleased slot =>
    .doubleRelease ((f.slotNames[slot]?).getD ("#" ++ Decimal.natText slot))
  | e => .malformed (.slot e)

def Constant.toValue : Constant → Value
  | int n => .int n
  | float x => .float x
  | bool b => .bool b
  | string s => .string s
  | null => .null

namespace Machine

def empty : Machine := ⟨.empty, "", #[]⟩

/-- Logs the release of slots of a function, if a log is kept. -/
def record (p : Linked) (function : Nat) (kind : ReleaseKind) (m : Machine) (slots : List Nat) :
    Machine :=
  match p.config.recordReleases, p.module.functions[function]? with
  | true, some f =>
    { m with
      releases := slots.foldl
        (fun log slot => log.push ⟨f.name, slot, (f.slotNames[slot]?).getD "?", kind⟩) m.releases }
  | _, _ => m

end Machine

namespace Exec

def fail (cause : FaultCause) : Exec α := throw (.fault (.of cause))

def malformed (cause : Malformed) : Exec α := fail (.malformed cause)

def mistype (cause : Mistype) : Exec α := fail (.mistype cause)

def ofExcept : Except FaultCause α → Exec α
  | .ok a => return a
  | .error cause => fail cause

def modifyTask (f : Task → Task) : Exec Unit := modify fun s => { s with task := f s.task }

/-! ## Operands -/

def push (v : Value) : Exec Unit := modifyTask fun t => { t with stack := v :: t.stack }

def pop : Exec Value := do
  match (← get).task.stack with
  | [] => malformed .underflow
  | v :: rest =>
    modifyTask fun t => { t with stack := rest }
    return v

/-- Splits the topmost operands off, the lowest of them first. -/
def splitTop (taken : List Value) : Nat → List Value → Option (List Value × List Value)
  | 0, stack => some (taken, stack)
  | _ + 1, [] => none
  | n + 1, v :: rest => splitTop (v :: taken) n rest

/-- Takes operands in the order in which they were pushed. -/
def popMany (n : Nat) : Exec (List Value) := do
  match splitTop [] n (← get).task.stack with
  | none => malformed .underflow
  | some (taken, rest) =>
    modifyTask fun t => { t with stack := rest }
    return taken

def popBool : Exec Bool := do
  match (← pop).unboxed with
  | .bool b => return b
  | _ => malformed .condition

/-! ## Frames -/

def functionCode (p : Linked) (id : Nat) : Exec FunctionCode :=
  match p.module.functions[id]? with
  | some f => return f
  | none => malformed (.noFunction id)

def modifyFrame (f : Frame → Frame) : Exec Unit :=
  modifyTask fun t => { t with frames := t.frames.modifyHead f }

def jump (target : Nat) : Exec Unit := modifyFrame fun frame => { frame with ip := target }

/-- Works on the bindings of the innermost frame, which is one of the function `f`. -/
def onBindings (f : FunctionCode) (act : BindingM α) : Exec α := fun s =>
  match s with
  | ⟨m, ⟨id, state, ⟨function, ip, bindings, captures, base, box⟩ :: frames, stack, result,
      waiters, observed, resumeWith⟩⟩ =>
    match act bindings with
    | .ok a bindings =>
      .ok a ⟨m, ⟨id, state, ⟨function, ip, bindings, captures, base, box⟩ :: frames, stack, result,
        waiters, observed, resumeWith⟩⟩
    | .error e bindings =>
      .error (.fault (.of (e.cause f)))
        ⟨m, ⟨id, state, ⟨function, ip, bindings, captures, base, box⟩ :: frames, stack, result,
          waiters, observed, resumeWith⟩⟩
  | s => malformed .noFrame s

/-- Logs the release of slots of a function. -/
def record (p : Linked) (function : Nat) (kind : ReleaseKind) (slots : List Nat) : Exec Unit :=
  modify fun s => { s with toMachine := Machine.record p function kind s.toMachine slots }

/-- Logs the release of slots of the innermost frame. -/
def recordHere (p : Linked) (kind : ReleaseKind) (slots : List Nat) : Exec Unit := do
  match (← get).task.frames with
  | frame :: _ => record p frame.function kind slots
  | [] => malformed .noFrame

/-- Enters a function in a new frame of the running task. -/
def enter (p : Linked) (function : Nat) (args captures : List Value) (boxResult : Bool) :
    Exec Unit := do
  if p.config.maxCallDepth ≤ (← get).task.frames.length then
    fail (.callDepth p.config.maxCallDepth)
  let f ← functionCode p function
  match Frame.enter function f args captures (← get).task.stack.length boxResult with
  | .ok frame => modifyTask fun t => { t with frames := frame :: t.frames }
  | .error e => fail (e.cause f)

/-- Leaves the innermost frame, releasing what is still live in it. -/
def leave (p : Linked) : Exec Flow := do
  let v ← pop
  match (← get).task.frames with
  | [] => malformed .noFrame
  | frame :: callers =>
    modifyTask fun t =>
      { t with frames := callers, stack := t.stack.drop (t.stack.length - frame.stackBase) }
    record p frame.function .scopeExit frame.bindings.exitAll.2
    let v := if frame.boxResult then v.boxed else v
    if callers.isEmpty then return .finished v
    push v
    return .goOn

/-! ## Calls -/

def callBuiltin (p : Linked) (id : Nat) (args : List Value) : Exec Value := do
  match p.builtins[id]? with
  | none => malformed (.unlinked id)
  | some b =>
    let reply := b.call p.module args
    modify fun s => { s with output := s.output ++ reply.written }
    match reply.answer with
    | .ok v => return v
    | .error message => fail (.builtin ((p.module.natives[id]?).getD "") message)

/-- Calls a value whose type is known to be a function type. -/
def callValue (p : Linked) (callee : Value) (args : List Value) : Exec Unit :=
  match callee.unboxed with
  | .function id => enter p id args [] false
  | .closure id captures => enter p id args captures false
  | .native id => do push (← callBuiltin p id args)
  | other => malformed (.notCallable (other.typeName p.module))

/-- Takes a value out of `any`: it has to have the shape of the tag. -/
def unbox (m : Module) (tag : TypeTag) (v : Value) : Except Mistype Value :=
  if tag = .any then .ok v.boxed
  else if v.hasShape tag then .ok v.unboxed
  else .error (.shape (tag.text m) (v.typeName m))

/-- Takes arguments out of `any`, each to the shape of its parameter. -/
def unboxArgs (m : Module) (function : String) (number : Nat) :
    List Value → List TypeTag → Except Mistype (List Value)
  | v :: args, tag :: tags =>
    match unbox m tag v with
    | .ok v => (unboxArgs m function (number + 1) args tags).map (v :: ·)
    | .error cause => .error (.argument number function cause)
  | _, _ => .ok []

/-- Checks a call that is only known when it happens, and gives the arguments as the function
takes them. -/
def dynamicArgs (m : Module) (f : FunctionCode) (args : List Value) :
    Except Mistype (List Value) :=
  if f.isAsync then .error (.asyncCall f.name)
  else if args.length ≠ f.arity then .error (.argumentCount f.name f.arity args.length)
  else unboxArgs m f.name 1 args f.paramTags

/-- The first argument, counted from `number`, that a built-in does not take. -/
def refusedArg? (m : Module) (number : Nat) : List TypeExpr → List Value → Option (Nat × Value)
  | t :: params, v :: args =>
    if Builtin.accepts m t v.unboxed then refusedArg? m (number + 1) params args
    else some (number, v)
  | _, _ => none

/-- Checks a call of a built-in that is only known when it happens. -/
def checkBuiltinArgs (m : Module) (b : Builtin) (args : List Value) : Except Mistype Unit :=
  if b.params.length ≠ args.length then
    .error (.argumentCount b.name b.params.length args.length)
  else
    match refusedArg? m 1 b.params args with
    | some (number, v) => .error (.builtinArgument number b.name (v.typeName m))
    | none => .ok ()

def ofMistype (x : Except Mistype α) : Exec α :=
  match x with
  | .ok a => return a
  | .error cause => mistype cause

/-- Enters a function with arguments of type `any`; its result will be boxed. -/
def enterDynamic (p : Linked) (id : Nat) (args captures : List Value) : Exec Unit := do
  let f ← functionCode p id
  let args ← ofMistype (dynamicArgs p.module f args)
  enter p id args captures true

def callDynamic (p : Linked) (callee : Value) (args : List Value) : Exec Unit :=
  match callee.unboxed with
  | .function id => enterDynamic p id args []
  | .closure id captures => enterDynamic p id args captures
  | .native id => do
    match p.builtins[id]? with
    | none => malformed (.unlinked id)
    | some b =>
      ofMistype (checkBuiltinArgs p.module b args)
      push (← callBuiltin p id args).boxed
  | other => mistype (.notCallable (other.typeName p.module))

/-- Calls a method that is looked up in the struct type that the receiver turns out to have. -/
def callMethod (p : Linked) (receiver : Value) (method : String) (args : List Value) :
    Exec Unit :=
  match receiver.unboxed with
  | .struct type fields =>
    match p.module.structs[type]? with
    | none => malformed (.noStruct type)
    | some layout =>
      match layout.method? method with
      | none => mistype (.structNoMethod layout.name method)
      | some id => enterDynamic p id (.struct type fields :: args) []
  | other => mistype (.noMethod (other.typeName p.module) method)

/-! ## Structs -/

def getField (m : Module) (v : Value) (index : Nat) : Exec Value :=
  match v.unboxed with
  | .struct _ fields =>
    match fields[index]? with
    | some field => return field
    | none => malformed (.fieldRange index)
  | other => malformed (.fieldAccess (other.typeName m))

/-- The boxed field of this name. -/
def getFieldDynamic (m : Module) (v : Value) (name : String) : Exec Value :=
  match v.unboxed with
  | .struct type fields =>
    match m.structs[type]? with
    | none => throw (.lost type)
    | some layout =>
      match layout.fieldIndex? name with
      | none => mistype (.structNoField layout.name name)
      | some index =>
        match fields[index]? with
        | some field => return field.boxed
        | none => malformed (.fieldMissing name)
  | other => mistype (.noField (other.typeName m) name)

/-! ## Tasks -/

def spawn (p : Linked) (function : Nat) (args : List Value) : Exec Unit := do
  let f ← functionCode p function
  match Frame.enter function f args [] 0 false with
  | .error e => fail (e.cause f)
  | .ok frame =>
    let id ← modifyGet fun s =>
      let (id, scheduler) := s.scheduler.spawn frame
      (id, { s with scheduler })
    push (.task id)

/-- Takes the outcome of a completed task, or waits for it. -/
def await (p : Linked) : Exec Flow := do
  match (← pop).unboxed with
  | .task id =>
    if id = (← get).task.id then malformed .awaitsItself
    match (← get).scheduler.get? id with
    | none => malformed (.noTask id)
    | some target =>
      if target.isCompleted then
        modify fun s =>
          { s with scheduler := s.scheduler.modifyTask id fun t => { t with observed := true } }
        match target.result with
        | some (.ok v) =>
          push v
          return .goOn
        | some (.error f) => throw (.fault f)
        | none => malformed (.noResult id)
      else
        modify fun s => { s with scheduler := s.scheduler.addWaiter s.task.id id }
        return .suspended
  | other => mistype (.notTask (other.typeName p.module))

/-! ## One instruction -/

/-- Goes on with the next instruction. -/
def goOn (x : Exec Unit) : Exec Flow := do
  x
  return .goOn

/-- Carries out one instruction of the function `f`, whose frame is the innermost. -/
def step (p : Linked) (f : FunctionCode) : Instr → Exec Flow
  | .const index => goOn do
    match f.constants[index]? with
    | some c => push c.toValue
    | none => malformed (.noConstant index)
  | .pop => goOn do
    let _ ← pop
  | .dup => goOn do
    match (← get).task.stack with
    | v :: _ => push v
    | [] => malformed .emptyDup
  | .arith op kind => goOn do
    let b ← pop
    let a ← pop
    push (← ofExcept (Operator.arith p.module op kind a b))
  | .neg kind => goOn do push (← ofExcept (Operator.negate p.module kind (← pop)))
  | .order op kind => goOn do
    let b ← pop
    let a ← pop
    push (.bool (← ofExcept (Operator.order p.module op kind a b)))
  | .eq => goOn do
    let b ← pop
    let a ← pop
    push (.bool (a.equals b))
  | .ne => goOn do
    let b ← pop
    let a ← pop
    push (.bool !(a.equals b))
  | .not => goOn do push (.bool !(← popBool))
  | .cast target => goOn do push (← ofExcept (Operator.convert p.module target (← pop)))
  | .format parts => goOn do
    push (.string (String.join ((← popMany parts).map (Value.text p.module))))
  | .jump target => goOn (jump target)
  | .jumpIfFalse target => goOn do
    if !(← popBool) then jump target
  | .jumpIfTrue target => goOn do
    if ← popBool then jump target
  | .enterScope => goOn (onBindings f BindingM.enterScope)
  | .exitScope => goOn do recordHere p .scopeExit (← onBindings f BindingM.exitScope)
  | .declare slot => goOn do onBindings f (BindingM.declare slot (← pop))
  | .load slot => goOn do push (← onBindings f (BindingM.load slot))
  | .move slot => goOn do
    let v ← onBindings f (BindingM.take slot)
    recordHere p .moved [slot]
    push v
  | .store slot => goOn do onBindings f (BindingM.store slot (← pop))
  | .storeField slot path => goOn do onBindings f (BindingM.storeField slot path (← pop))
  | .free slot => goOn do
    onBindings f (BindingM.free slot)
    recordHere p .explicit [slot]
  | .loadCapture index => goOn do
    match (← get).task.frames.head?.bind fun frame => frame.captures[index]? with
    | some v => push v
    | none => malformed (.captureRange index)
  | .makeStruct type fields => goOn do push (.struct type (← popMany fields))
  | .getField index => goOn do push (← getField p.module (← pop) index)
  | .getFieldDynamic name => goOn do push (← getFieldDynamic p.module (← pop) name)
  | .makeClosure function captures => goOn do
    match ← popMany captures with
    | [] => push (.function function)
    | values => push (.closure function values)
  | .loadNative id => goOn (push (.native id))
  | .call function args => goOn do enter p function (← popMany args) [] false
  | .callValue args => goOn do
    let args ← popMany args
    callValue p (← pop) args
  | .callDynamic args => goOn do
    let args ← popMany args
    callDynamic p (← pop) args
  | .callMethodDynamic method args => goOn do
    let args ← popMany args
    callMethod p (← pop) method args
  | .callNative id args => goOn do push (← callBuiltin p id (← popMany args))
  | .ret => leave p
  | .spawn function args => goOn do spawn p function (← popMany args)
  | .await => await p
  | .yieldNow => return .yielded
  | .box => goOn do push (← pop).boxed
  | .unbox tag => goOn do push (← ofMistype (unbox p.module tag (← pop)))

/-- Carries out the next instruction of the innermost frame. -/
def next (p : Linked) : Exec Flow := do
  match (← get).task.frames with
  | [] => malformed .noFrame
  | frame :: _ =>
    let f ← functionCode p frame.function
    let ip := frame.ip
    match f.code[ip]? with
    | none => malformed (.pastEnd ip f.name)
    | some i =>
      jump (ip + 1)
      EStateM.adaptExcept (fun t : Trap => t.located (f.spanAt ip) f.name) (step p f i)

end Exec

end ScopedScript
