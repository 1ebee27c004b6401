import ScopedScript.Machine.Exec

/-!
# Runs

A run starts a task for its entry function and lets the ready tasks take turns until none is left.
Runs of programs need not end, so a run is given the number of steps that it may take.
-/

namespace ScopedScript

/-- A machine between two steps: no task runs, or one does. -/
inductive MachineState
  | idle (m : Machine)
  | busy (s : Running)

/-- Why a machine takes no further step. -/
inductive Halt
  /-- No task is ready. -/
  | settled
  | lost (type : Nat)
deriving DecidableEq, Repr

/-- How a run ends. -/
inductive RunEnd
  | outcome (o : Outcome)
  | lost (type : Nat)
  | outOfSteps

namespace Running

/-- Puts the task back with this state. -/
def suspendAs (s : Running) (state : TaskState) : Machine :=
  { s.toMachine with scheduler := s.scheduler.putBack { s.task with state } }

/-- Puts the task back as completed. -/
def completeWith (s : Running) (outcome : Outcome) : Machine :=
  let (task, scheduler) := s.scheduler.complete s.task outcome
  { s.toMachine with scheduler := scheduler.putBack task }

/-- Releases what is live in the frames of the task, innermost first, and ends it. -/
def failWith (p : Linked) (s : Running) (f : Fault) : Machine :=
  let m := s.task.frames.foldl
    (fun m frame => m.record p frame.function .unwind frame.bindings.exitAll.2) s.toMachine
  { s with toMachine := m }.completeWith (.error f)

end Running

namespace MachineState

/-- Lets the next ready task run. -/
def takeTurn (p : Linked) (m : Machine) : Except (Halt × Machine) MachineState :=
  match m.scheduler.next? with
  | none => .error (.settled, m)
  | some (t, scheduler) =>
    let m := { m with scheduler }
    match t.resumeWith with
    | none => .ok (.busy { m with task := t })
    | some (.ok v) =>
      .ok (.busy { m with task := { t with stack := v :: t.stack, resumeWith := none } })
    | some (.error f) =>
      .ok (.idle (Running.failWith p { m with task := { t with resumeWith := none } } f))

/-- One step: a task begins its turn, or carries out an instruction. -/
def step (p : Linked) : MachineState → Except (Halt × Machine) MachineState
  | idle m => takeTurn p m
  | busy s =>
    match Exec.next p s with
    | .ok .goOn s => .ok (.busy s)
    | .ok (.finished v) s => .ok (.idle (s.completeWith (.ok v)))
    | .ok .yielded s => .ok (.idle (s.suspendAs .ready))
    | .ok .suspended s => .ok (.idle (s.suspendAs .suspended))
    | .error (.fault f) s => .ok (.idle (s.failWith p f))
    | .error (.lost type) s => .error (.lost type, s.toMachine)

/-- Takes steps until the machine halts; `none` when the steps run out. -/
def run (p : Linked) : (steps : Nat) → MachineState → Option (Halt × Machine)
  | 0, _ => none
  | steps + 1, s =>
    match step p s with
    | .ok s => run p steps s
    | .error halted => some halted

end MachineState

namespace Linked

/-- The entry function of a run, which takes no parameters. -/
def entry (p : Linked) (name : String) : Except Fault Frame :=
  match p.module.functionId? name with
  | none => .error (.of (.unknownEntry name))
  | some id =>
    match p.module.functions[id]? with
    | none => .error (.of (.unknownEntry name))
    | some f =>
      if f.arity ≠ 0 then .error (.of (.entryArity name f.arity))
      else
        match Frame.enter id f [] [] 0 false with
        | .ok frame => .ok frame
        | .error e => .error (.of (.malformed (.slot e)))

/-- Runs an entry function on a machine, which keeps its output and its log of releases but
starts with no tasks. -/
def run (p : Linked) (steps : Nat) (name : String) (m : Machine) : RunEnd × Machine :=
  match p.entry name with
  | .error f => (.outcome (.error f), m)
  | .ok frame =>
    let (task, scheduler) := Scheduler.empty.spawn frame
    match MachineState.run p steps (.idle { m with scheduler }) with
    | none => (.outOfSteps, m)
    | some (.lost type, m) => (.lost type, m)
    | some (.settled, m) =>
      match (m.scheduler.get? task).bind Task.result with
      | some outcome => (.outcome outcome, m)
      | none => (.outcome (.error (.of .deadlock)), m)

end Linked

end ScopedScript
