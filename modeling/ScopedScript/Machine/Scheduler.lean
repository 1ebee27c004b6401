import ScopedScript.Machine.Fault

/-!
# Tasks and their scheduler

Each task owns its frames and its operand stack. One task runs at a time: it is taken out of the
scheduler, runs until it completes, yields or waits for another task, and is put back. Ready tasks
take turns in the order in which they became ready.
-/

namespace ScopedScript

/-- One activation of a function; it owns its bindings. -/
structure Frame where
  function : Nat
  ip : Nat
  bindings : Bindings
  /-- The values that the lambda being run has captured. -/
  captures : List Value
  /-- The height of the operand stack when the frame was entered. -/
  stackBase : Nat
  /-- Whether the result goes to a caller that knows nothing of its type. -/
  boxResult : Bool
deriving Inhabited

inductive TaskState
  | ready
  | running
  | suspended
  | completed
deriving DecidableEq, Repr

/-- How a task ends. -/
abbrev Outcome := Except Fault Value

structure Task where
  id : Nat
  state : TaskState
  /-- Innermost frame first. -/
  frames : List Frame
  /-- Operands, the top first. -/
  stack : List Value
  result : Option Outcome
  /-- Tasks waiting for this one, in the order in which they began to. -/
  waiters : List Nat
  /-- Whether any task has asked for the result. -/
  observed : Bool
  /-- The outcome that the task was waiting for. -/
  resumeWith : Option Outcome

namespace Frame

/-- Opens the outermost scope of a function and binds its arguments. -/
def enter (function : Nat) (f : FunctionCode) (args captures : List Value) (stackBase : Nat)
    (boxResult : Bool) : Except SlotError Frame :=
  let bind : BindingM Unit := do
    BindingM.enterScope
    BindingM.declareArgs 0 args
  match bind (.new f.slotCount) with
  | .ok _ bindings => .ok ⟨function, 0, bindings, captures, stackBase, boxResult⟩
  | .error e _ => .error e

end Frame

namespace Task

/-- A task that has just entered a frame. -/
def start (id : Nat) (frame : Frame) : Task where
  id
  state := .ready
  frames := [frame]
  stack := []
  result := none
  waiters := []
  observed := false
  resumeWith := none

def isCompleted (t : Task) : Bool := t.state == .completed

/-- The fault of a failed task that no other task has asked about. -/
def unobservedFault? (t : Task) : Option Fault :=
  match t.observed, t.result with
  | false, some (.error f) => some f
  | _, _ => none

end Task

structure Scheduler where
  /-- The tasks by number; `none` while a task runs. -/
  tasks : Array (Option Task)
  /-- Tasks whose turn will come, the next one first. -/
  ready : List Nat

namespace Scheduler

def empty : Scheduler := ⟨#[], []⟩

def get? (s : Scheduler) (id : Nat) : Option Task := (s.tasks[id]?).join

/-- Makes a ready task of a frame, and gives its number. -/
def spawn (s : Scheduler) (frame : Frame) : Nat × Scheduler :=
  let id := s.tasks.size
  (id, ⟨s.tasks.push (some (.start id frame)), s.ready ++ [id]⟩)

/-- Takes out the first task of a queue that is there to be taken. -/
def takeFirst (tasks : Array (Option Task)) : List Nat → Option (Task × Scheduler)
  | [] => none
  | id :: rest =>
    match (tasks[id]?).join with
    | some t => some ({ t with state := .running }, ⟨tasks.setIfInBounds id none, rest⟩)
    | none => takeFirst tasks rest

/-- The next ready task, now running, and the scheduler without it. -/
def next? (s : Scheduler) : Option (Task × Scheduler) := takeFirst s.tasks s.ready

/-- Returns a task that stopped running; a ready one queues up again. -/
def putBack (s : Scheduler) (t : Task) : Scheduler where
  tasks := s.tasks.setIfInBounds t.id (some t)
  ready := if t.state = .ready then s.ready ++ [t.id] else s.ready

def modifyTask (s : Scheduler) (id : Nat) (f : Task → Task) : Scheduler :=
  { s with tasks := s.tasks.modify id (Option.map f) }

/-- Hands an outcome to a waiting task and queues it up. -/
def wake (outcome : Outcome) (s : Scheduler) (id : Nat) : Scheduler :=
  if (s.get? id).isNone then s
  else
    let woken := s.modifyTask id fun t => { t with resumeWith := some outcome, state := .ready }
    { woken with ready := woken.ready ++ [id] }

/-- Ends a running task and wakes the tasks that wait for it, in order. -/
def complete (s : Scheduler) (t : Task) (outcome : Outcome) : Task × Scheduler :=
  ({ t with
      state := .completed
      frames := []
      stack := []
      waiters := []
      observed := t.observed || !t.waiters.isEmpty
      result := some outcome },
    t.waiters.foldl (wake outcome) s)

/-- Adds a task to those that wait for another. -/
def addWaiter (s : Scheduler) (waiter : Nat) (awaited : Nat) : Scheduler :=
  s.modifyTask awaited fun t => { t with waiters := t.waiters ++ [waiter] }

/-- The faults that no task has asked about, by task. -/
def unobservedFaults (s : Scheduler) : List (Nat × Fault) :=
  s.tasks.toList.filterMap fun entry => do
    let t ← entry
    let f ← t.unobservedFault?
    return (t.id, f)

end Scheduler

end ScopedScript
