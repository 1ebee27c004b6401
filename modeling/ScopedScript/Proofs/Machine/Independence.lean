import ScopedScript.Proofs.Machine.Triple
import ScopedScript.Proofs.Machine.Runs

/-!
# Runs that depend on nothing but their entry

A machine that has been used before differs from a fresh one by the output and by the log that it
has already. Nothing that runs looks at either, so whatever a fresh machine does, the used one does
as well and puts it after what it has. The same holds of two machines of which one keeps no log.
-/

namespace ScopedScript

/-- The machine with output before its own, and with another log. -/
def Machine.behind (out : String) (keep : Array Release → Array Release) (m : Machine) : Machine :=
  { m with output := out ++ m.output, releases := keep m.releases }

def Running.behind (out : String) (keep : Array Release → Array Release) (s : Running) : Running :=
  { s with toMachine := s.toMachine.behind out keep }

@[simp]
theorem Running.task_behind (out : String) (keep : Array Release → Array Release) (s : Running) :
    (s.behind out keep).task = s.task := rfl

@[simp]
theorem Running.scheduler_behind (out : String) (keep : Array Release → Array Release)
    (s : Running) : (s.behind out keep).scheduler = s.scheduler := rfl

/-- The second program runs the code of the first, and a record of a release suits the other log. -/
structure Linked.Shadows (keep : Array Release → Array Release) (p q : Linked) : Prop where
  module : q.module = p.module
  builtins : q.builtins = p.builtins
  depth : q.config.maxCallDepth = p.config.maxCallDepth
  records : ∀ (m : Machine) out function kind slots,
    (m.behind out keep).record q function kind slots =
      (m.record p function kind slots).behind out keep

namespace Exec

variable {out : String} {keep : Array Release → Array Release} {p q : Linked}

/-- The end of a computation, with the state that it leaves changed. -/
def leaving (out : String) (keep : Array Release → Array Release) :
    EStateM.Result Trap Running α → EStateM.Result Trap Running α
  | .ok a s => .ok a (s.behind out keep)
  | .error t s => .error t (s.behind out keep)

/-- The second computation does behind the other output what the first one does. -/
def Shadows (out : String) (keep : Array Release → Array Release) (x y : Exec α) : Prop :=
  ∀ s : Running, y (s.behind out keep) = leaving out keep (x s)

section

variable {x y : Exec α}

theorem Shadows.bind {f g : α → Exec β} (h : Shadows out keep x y)
    (hf : ∀ a, Shadows out keep (f a) (g a)) : Shadows out keep (x >>= f) (y >>= g) := by
  intro s
  rw [bind_apply, bind_apply, h s]
  cases x s with
  | ok a s' => exact hf a s'
  | error t s' => rfl

theorem Shadows.pure (a : α) : Shadows out keep (Pure.pure a : Exec α) (Pure.pure a) := fun _ => rfl

theorem Shadows.throw (t : Trap) : Shadows out keep (throw t : Exec α) (throw t) := fun _ => rfl

/-- Nothing comes after a failure. -/
theorem Shadows.failed {α : Type} (cause : FaultCause) {f g : α → Exec β} :
    Shadows out keep (Exec.fail cause >>= f) (Exec.fail cause >>= g) := fun _ => rfl

theorem Shadows.fail (cause : FaultCause) : Shadows out keep (fail cause : Exec α) (fail cause) :=
  .throw _

theorem Shadows.get {f g : Running → Exec α}
    (h : ∀ s, Shadows out keep (f s) (g (s.behind out keep))) :
    Shadows out keep (get >>= f) (get >>= g) := fun s => h s s

theorem Shadows.modify {f g : Running → Running}
    (h : ∀ s, g (s.behind out keep) = (f s).behind out keep) :
    Shadows out keep (modify f : Exec Unit) (modify g) := fun s => congrArg _ (h s)

theorem Shadows.goOn {x y : Exec Unit} (h : Shadows out keep x y) :
    Shadows out keep (goOn x) (goOn y) := h.bind fun _ => .pure _

end

/-! ## Operands -/

theorem shadows_modifyTask (f : Task → Task) : Shadows out keep (modifyTask f) (modifyTask f) :=
  .modify fun _ => rfl

theorem shadows_push (v : Value) : Shadows out keep (push v) (push v) := shadows_modifyTask _

theorem Shadows.push {x y : Exec Value} (h : Shadows out keep x y) :
    Shadows out keep (x >>= Exec.push) (y >>= Exec.push) := h.bind shadows_push

theorem shadows_pop : Shadows out keep pop pop := by
  refine .get fun s => ?_
  rw [Running.task_behind]
  split
  · exact .fail _
  · exact (shadows_modifyTask _).bind fun _ => .pure _

theorem shadows_popMany (n : Nat) : Shadows out keep (popMany n) (popMany n) := by
  refine .get fun s => ?_
  rw [Running.task_behind]
  split
  · exact .fail _
  · exact (shadows_modifyTask _).bind fun _ => .pure _

theorem shadows_popBool : Shadows out keep popBool popBool := by
  refine shadows_pop.bind fun v => ?_
  split
  · exact .pure _
  · exact .fail _

theorem shadows_ofExcept (x : Except FaultCause α) :
    Shadows out keep (ofExcept x) (ofExcept x) := by
  cases x with
  | ok a => exact .pure a
  | error c => exact .fail c

theorem shadows_ofMistype (x : Except Mistype α) :
    Shadows out keep (ofMistype x) (ofMistype x) := by
  cases x with
  | ok a => exact .pure a
  | error c => exact .fail _

theorem shadows_getField (m : Module) (v : Value) (index : Nat) :
    Shadows out keep (getField m v index) (getField m v index) := by
  unfold getField
  split
  · split
    · exact .pure _
    · exact .fail _
  · exact .fail _

theorem shadows_getFieldDynamic (m : Module) (v : Value) (name : String) :
    Shadows out keep (getFieldDynamic m v name) (getFieldDynamic m v name) := by
  unfold getFieldDynamic
  split
  · split
    · exact .throw _
    · split
      · exact .fail _
      · split
        · exact .pure _
        · exact .fail _
  · exact .fail _

/-! ## Frames -/

theorem shadows_onBindings (f : FunctionCode) (act : BindingM α) :
    Shadows out keep (onBindings f act) (onBindings f act) := by
  rintro ⟨m, id, state, frames, stack, result, waiters, observed, resumeWith⟩
  cases frames with
  | nil => rfl
  | cons fr frames =>
    obtain ⟨function, ip, bindings, captures, base, box⟩ := fr
    simp only [onBindings, Running.behind]
    cases act bindings <;> rfl

theorem shadows_jump (target : Nat) : Shadows out keep (jump target) (jump target) :=
  shadows_modifyTask fun t =>
    { t with frames := t.frames.modifyHead fun frame => { frame with ip := target } }

variable (h : p.Shadows keep q)

include h

theorem shadows_functionCode (id : Nat) :
    Shadows out keep (functionCode p id) (functionCode q id) := by
  unfold functionCode
  rw [h.module]
  split
  · exact .pure _
  · exact .fail _

theorem shadows_record (function : Nat) (kind : ReleaseKind) (slots : List Nat) :
    Shadows out keep (record p function kind slots) (record q function kind slots) := by
  refine .modify fun s => ?_
  exact congrArg (fun m => { s with toMachine := m })
    (h.records s.toMachine out function kind slots)

theorem shadows_recordHere (kind : ReleaseKind) (slots : List Nat) :
    Shadows out keep (recordHere p kind slots) (recordHere q kind slots) := by
  refine .get fun s => ?_
  rw [Running.task_behind]
  split
  · exact shadows_record h _ _ _
  · exact .fail _

theorem shadows_enter (function : Nat) (args captures : List Value) (box : Bool) :
    Shadows out keep (enter p function args captures box) (enter q function args captures box) := by
  refine .get fun s => ?_
  rw [Running.task_behind, h.depth]
  by_cases hd : p.config.maxCallDepth ≤ s.task.frames.length
  · simp only [if_pos hd]
    exact .failed _
  simp only [if_neg hd]
  refine (shadows_functionCode h function).bind fun f => .get fun s => ?_
  rw [Running.task_behind]
  split
  · exact shadows_modifyTask _
  · exact .fail _

theorem shadows_leave : Shadows out keep (leave p) (leave q) := by
  refine shadows_pop.bind fun v => .get fun s => ?_
  rw [Running.task_behind]
  split
  · exact .fail _
  · refine (shadows_modifyTask _).bind fun _ => (shadows_record h _ _ _).bind fun _ => ?_
    dsimp only
    split
    · exact .pure _
    · exact (shadows_push _).bind fun _ => .pure _

/-! ## Calls -/

theorem shadows_callBuiltin (id : Nat) (args : List Value) :
    Shadows out keep (callBuiltin p id args) (callBuiltin q id args) := by
  unfold callBuiltin
  rw [h.builtins, h.module]
  split
  · exact .fail _
  · refine Shadows.bind (.modify fun s => ?_) fun _ => ?_
    · simp only [Running.behind, Machine.behind, String.append_assoc]
    · split
      · exact .pure _
      · exact .fail _

theorem shadows_callValue (callee : Value) (args : List Value) :
    Shadows out keep (callValue p callee args) (callValue q callee args) := by
  unfold callValue
  rw [h.module]
  split
  · exact shadows_enter h _ _ _ _
  · exact shadows_enter h _ _ _ _
  · exact (shadows_callBuiltin h _ _).push
  · exact .fail _

theorem shadows_enterDynamic (id : Nat) (args captures : List Value) :
    Shadows out keep (enterDynamic p id args captures) (enterDynamic q id args captures) := by
  unfold enterDynamic
  rw [h.module]
  exact (shadows_functionCode h id).bind fun f => (shadows_ofMistype _).bind fun args =>
    shadows_enter h _ _ _ _

theorem shadows_callDynamic (callee : Value) (args : List Value) :
    Shadows out keep (callDynamic p callee args) (callDynamic q callee args) := by
  unfold callDynamic
  rw [h.module, h.builtins]
  split
  · exact shadows_enterDynamic h _ _ _
  · exact shadows_enterDynamic h _ _ _
  · split
    · exact .fail _
    · exact (shadows_ofMistype _).bind fun _ => (shadows_callBuiltin h _ _).bind fun v =>
        shadows_push _
  · exact .fail _

theorem shadows_callMethod (receiver : Value) (method : String) (args : List Value) :
    Shadows out keep (callMethod p receiver method args) (callMethod q receiver method args) := by
  unfold callMethod
  rw [h.module]
  split
  · split
    · exact .fail _
    · split
      · exact .fail _
      · exact shadows_enterDynamic h _ _ _
  · exact .fail _

/-! ## Tasks -/

theorem shadows_spawn (function : Nat) (args : List Value) :
    Shadows out keep (spawn p function args) (spawn q function args) := by
  refine (shadows_functionCode h function).bind fun f => ?_
  split
  · exact .fail _
  · exact Shadows.bind (fun _ => rfl) fun id => shadows_push _

theorem shadows_await : Shadows out keep (await p) (await q) := by
  refine shadows_pop.bind fun v => ?_
  rw [h.module]
  split
  · refine .get fun s => ?_
    rw [Running.task_behind]
    split
    · exact .failed _
    refine .get fun s => ?_
    rw [Running.scheduler_behind]
    split
    · exact .fail _
    · split
      · refine Shadows.bind (.modify fun s => rfl) fun _ => ?_
        split
        · exact (shadows_push _).bind fun _ => .pure _
        · exact .throw _
        · exact .fail _
      · exact Shadows.bind (.modify fun s => rfl) fun _ => .pure _
  · exact .fail _

/-! ## Instructions -/

theorem shadows_step (f : FunctionCode) (i : Instr) :
    Shadows out keep (step p f i) (step q f i) := by
  cases i with
  | const index =>
    refine Shadows.goOn ?_
    split
    · exact shadows_push _
    · exact .fail _
  | pop => exact Shadows.goOn (shadows_pop.bind fun _ => .pure _)
  | dup =>
    refine Shadows.goOn (.get fun s => ?_)
    rw [Running.task_behind]
    split
    · exact shadows_push _
    · exact .fail _
  | arith op kind =>
    refine Shadows.goOn (shadows_pop.bind fun b => shadows_pop.bind fun a => ?_)
    rw [h.module]
    exact (shadows_ofExcept _).push
  | neg kind =>
    refine Shadows.goOn (shadows_pop.bind fun v => ?_)
    rw [h.module]
    exact (shadows_ofExcept _).push
  | order op kind =>
    refine Shadows.goOn (shadows_pop.bind fun b => shadows_pop.bind fun a => ?_)
    rw [h.module]
    exact (shadows_ofExcept _).bind fun r => shadows_push _
  | eq | ne =>
    exact Shadows.goOn (shadows_pop.bind fun b => shadows_pop.bind fun a => shadows_push _)
  | not => exact Shadows.goOn (shadows_popBool.bind fun b => shadows_push _)
  | cast target =>
    refine Shadows.goOn (shadows_pop.bind fun v => ?_)
    rw [h.module]
    exact (shadows_ofExcept _).push
  | format parts =>
    refine Shadows.goOn ((shadows_popMany parts).bind fun vs => ?_)
    rw [h.module]
    exact shadows_push _
  | jump target => exact Shadows.goOn (shadows_jump target)
  | jumpIfFalse target | jumpIfTrue target =>
    refine Shadows.goOn (shadows_popBool.bind fun b => ?_)
    cases b
    all_goals first | exact shadows_jump target | exact .pure _
  | enterScope => exact Shadows.goOn (shadows_onBindings f _)
  | exitScope =>
    exact Shadows.goOn ((shadows_onBindings f _).bind fun slots => shadows_recordHere h _ _)
  | declare slot | store slot | storeField slot path =>
    exact Shadows.goOn (shadows_pop.bind fun v => shadows_onBindings f _)
  | load slot => exact Shadows.goOn (shadows_onBindings f _).push
  | move slot =>
    exact Shadows.goOn ((shadows_onBindings f _).bind fun v =>
      (shadows_recordHere h _ _).bind fun _ => shadows_push v)
  | free slot =>
    exact Shadows.goOn ((shadows_onBindings f _).bind fun _ => shadows_recordHere h _ _)
  | loadCapture index =>
    refine Shadows.goOn (.get fun s => ?_)
    rw [Running.task_behind]
    split
    · exact shadows_push _
    · exact .fail _
  | makeStruct type fields =>
    exact Shadows.goOn ((shadows_popMany fields).bind fun vs => shadows_push _)
  | getField index =>
    refine Shadows.goOn (shadows_pop.bind fun v => ?_)
    rw [h.module]
    exact (shadows_getField _ _ _).push
  | getFieldDynamic name =>
    refine Shadows.goOn (shadows_pop.bind fun v => ?_)
    rw [h.module]
    exact (shadows_getFieldDynamic _ _ _).push
  | makeClosure function captures =>
    refine Shadows.goOn ((shadows_popMany captures).bind fun vs => ?_)
    split <;> exact shadows_push _
  | loadNative id => exact Shadows.goOn (shadows_push _)
  | call function args =>
    exact Shadows.goOn ((shadows_popMany args).bind fun vs => shadows_enter h _ _ _ _)
  | callValue args =>
    exact Shadows.goOn ((shadows_popMany args).bind fun vs => shadows_pop.bind fun c =>
      shadows_callValue h _ _)
  | callDynamic args =>
    exact Shadows.goOn ((shadows_popMany args).bind fun vs => shadows_pop.bind fun c =>
      shadows_callDynamic h _ _)
  | callMethodDynamic method args =>
    exact Shadows.goOn ((shadows_popMany args).bind fun vs => shadows_pop.bind fun c =>
      shadows_callMethod h _ _ _)
  | callNative id args =>
    exact Shadows.goOn ((shadows_popMany args).bind fun vs => (shadows_callBuiltin h _ _).push)
  | ret => exact shadows_leave h
  | spawn function args =>
    exact Shadows.goOn ((shadows_popMany args).bind fun vs => shadows_spawn h _ _)
  | await => exact shadows_await h
  | yieldNow => exact .pure _
  | box => exact Shadows.goOn (shadows_pop.bind fun v => shadows_push _)
  | unbox tag =>
    refine Shadows.goOn (shadows_pop.bind fun v => ?_)
    rw [h.module]
    exact (shadows_ofMistype _).push

theorem shadows_next : Shadows out keep (next p) (next q) := by
  refine .get fun s => ?_
  rw [Running.task_behind]
  split
  · exact .fail _
  refine (shadows_functionCode h _).bind fun f => ?_
  dsimp only
  split
  · exact .fail _
  · refine (shadows_jump _).bind fun _ s => ?_
    rw [EStateM.adaptExcept, EStateM.adaptExcept, shadows_step h]
    cases step p f _ s <;> rfl

end Exec

/-! ## Runs -/

section

variable {out : String} {keep : Array Release → Array Release} {p q : Linked}

namespace MachineState

def behind (out : String) (keep : Array Release → Array Release) : MachineState → MachineState
  | idle m => idle (m.behind out keep)
  | busy s => busy (s.behind out keep)

end MachineState

namespace Running

theorem failWith_behind (out : String) (h : p.Shadows keep q) (s : Running) (f : Fault) :
    (s.behind out keep).failWith q f = (s.failWith p f).behind out keep := by
  have hunwind (frames : List Frame) (m : Machine) :
      frames.foldl (fun m frame => m.record q frame.function .unwind frame.bindings.exitAll.2)
          (m.behind out keep) =
        (frames.foldl (fun m frame => m.record p frame.function .unwind frame.bindings.exitAll.2)
          m).behind out keep := by
    induction frames generalizing m with
    | nil => rfl
    | cons frame rest ih => rw [List.foldl_cons, List.foldl_cons, h.records, ih]
  rw [failWith, failWith]
  exact congrArg (fun m => Running.completeWith { s with toMachine := m } (.error f)) (hunwind _ _)

end Running

namespace MachineState

theorem step_behind (out : String) (h : p.Shadows keep q) (s : MachineState) :
    (s.behind out keep).step q = match s.step p with
      | .ok s' => .ok (s'.behind out keep)
      | .error (halt, m) => .error (halt, m.behind out keep) := by
  cases s with
  | idle m =>
    rw [behind, MachineState.step, MachineState.step, takeTurn, takeTurn,
      show (m.behind out keep).scheduler = m.scheduler from rfl]
    cases m.scheduler.next? with
    | none => rfl
    | some found =>
      obtain ⟨t, scheduler⟩ := found
      dsimp only
      rcases t.resumeWith with _ | f | v
      · rfl
      · have hfail := Running.failWith_behind out h
          { m with scheduler, task := { t with resumeWith := none } } f
        exact congrArg (fun m => Except.ok (idle m)) hfail
      · rfl
  | busy s =>
    rw [behind, MachineState.step, MachineState.step, Exec.shadows_next h s]
    rcases Exec.next p s with ⟨flow, s'⟩ | ⟨trap, s'⟩
    · cases flow <;> rfl
    · cases trap with
      | fault f => exact congrArg (fun m => Except.ok (idle m)) (Running.failWith_behind out h s' f)
      | lost type => rfl

theorem run_behind (out : String) (h : p.Shadows keep q) (n : Nat) (s : MachineState) :
    (s.behind out keep).run q n = (s.run p n).map fun e => (e.1, e.2.behind out keep) := by
  induction n generalizing s with
  | zero => rfl
  | succ n ih =>
    rw [run, run, step_behind out h]
    cases s.step p with
    | ok s' => exact ih s'
    | error e => rfl

end MachineState

namespace Linked

theorem entry_shadows (h : p.Shadows keep q) (name : String) : q.entry name = p.entry name := by
  rw [entry, entry, h.module]

/-- What a run that began with a machine makes of the way in which its steps came to an end. -/
def ending (m : Machine) : Option (Halt × Machine) → RunEnd × Machine
  | none => (.outOfSteps, m)
  | some (.lost type, m) => (.lost type, m)
  | some (.settled, m) =>
    (.outcome (((m.scheduler.get? 0).bind Task.result).getD (.error (.of .deadlock))), m)

theorem run_eq_ending {n : Nat} {name : String} {m : Machine} {frame : Frame}
    (he : p.entry name = .ok frame) : p.run n name m = ending m ((startState m frame).run p n) := by
  rw [run, he, startState]
  dsimp only
  rw [show (Scheduler.empty.spawn frame).1 = 0 from rfl]
  generalize MachineState.run p n _ = r
  rcases r with _ | ⟨_ | type, m'⟩
  · rfl
  · dsimp only [ending]
    cases (m'.scheduler.get? 0).bind Task.result <;> rfl
  · rfl

/-- A run on the other machine ends as on this one and does there what it does here. -/
theorem run_behind (out : String) (h : p.Shadows keep q) (n : Nat) (name : String) (m : Machine) :
    q.run n name (m.behind out keep) =
      ((p.run n name m).1, (p.run n name m).2.behind out keep) := by
  cases he : p.entry name with
  | error f =>
    have he' : q.entry name = .error f := (entry_shadows h name).trans he
    rw [run, run, he, he']
  | ok frame =>
    rw [run_eq_ending he, run_eq_ending ((entry_shadows h name).trans he)]
    have hrun := MachineState.run_behind out h n (startState m frame)
    change (startState (m.behind out keep) frame).run q n = _ at hrun
    rw [hrun]
    rcases (startState m frame).run p n with _ | ⟨_ | type, m'⟩ <;> rfl

/-- The same code on a machine that keeps a log of releases, or none. -/
def recording (p : Linked) (log : Bool) : Linked :=
  { p with config := { p.config with recordReleases := log } }

theorem foldl_push_append (f : Nat → Release) (slots : List Nat) (log releases : Array Release) :
    slots.foldl (fun log slot => log.push (f slot)) (log ++ releases) =
      log ++ slots.foldl (fun log slot => log.push (f slot)) releases := by
  induction slots generalizing releases with
  | nil => rfl
  | cons slot rest ih => rw [List.foldl_cons, List.foldl_cons, ← Array.append_push, ih]

/-- A log that is longer at the front. -/
theorem shadows_prepend (p : Linked) (log : Array Release) : p.Shadows (log ++ ·) p where
  module := rfl
  builtins := rfl
  depth := rfl
  records m out function kind slots := by
    unfold Machine.record
    split
    · simp only [Machine.behind, foldl_push_append]
    · rfl

/-- Without a log nothing is recorded. -/
theorem shadows_silent (p : Linked) (log : Bool) :
    (p.recording log).Shadows (fun _ => #[]) (p.recording false) where
  module := rfl
  builtins := rfl
  depth := rfl
  records m out function kind slots := by
    rw [Machine.record, Machine.record]
    split
    · cases ‹(p.recording false).config.recordReleases = true›
    · split <;> rfl

/-- The machine after runs of entries, each of which could take so many steps. -/
def after (p : Linked) (runs : List (Nat × String)) : Machine :=
  runs.foldl (fun m run => (p.run run.1 run.2 m).2) .empty

/-- A used machine does what a fresh one does, after what it has. -/
theorem run_fresh (p : Linked) (n : Nat) (name : String) (m : Machine) :
    (p.run n name m).1 = (p.run n name .empty).1 ∧
    (p.run n name m).2.output = m.output ++ (p.run n name .empty).2.output ∧
    (p.run n name m).2.releases = m.releases ++ (p.run n name .empty).2.releases := by
  have hbehind := run_behind m.output (shadows_prepend p m.releases) n name .empty
  -- the tasks that a machine has left over are dropped
  have hdropped : ∀ scheduler, (p.run n name { m with scheduler }).1 = (p.run n name m).1 ∧
      (p.run n name { m with scheduler }).2.output = (p.run n name m).2.output ∧
      (p.run n name { m with scheduler }).2.releases = (p.run n name m).2.releases := by
    intro scheduler
    cases he : p.entry name with
    | error f =>
      rw [run, run, he]
      exact ⟨rfl, rfl, rfl⟩
    | ok frame =>
      rw [run_eq_ending he, run_eq_ending he]
      change (ending _ ((startState m frame).run p n)).1 = _ ∧
        (ending _ ((startState m frame).run p n)).2.output = _ ∧
        (ending _ ((startState m frame).run p n)).2.releases = _
      rcases (startState m frame).run p n with _ | ⟨_ | type, m'⟩ <;> exact ⟨rfl, rfl, rfl⟩
  obtain ⟨hend, hout, hlog⟩ := hdropped .empty
  have hm : Machine.behind m.output (m.releases ++ ·) .empty = { m with scheduler := .empty } := by
    simp [Machine.behind, Machine.empty]
  rw [← hend, ← hout, ← hlog, ← hm, hbehind]
  exact ⟨rfl, rfl, rfl⟩

/-- A machine without a log ends and writes like one with a log. -/
theorem run_silent (p : Linked) (log : Bool) (n : Nat) (name : String) :
    (p.recording false).run n name .empty =
      (((p.recording log).run n name .empty).1,
        { ((p.recording log).run n name .empty).2 with releases := #[] }) := by
  have h := run_behind "" (shadows_silent p log) n name .empty
  simpa [Machine.behind, Machine.empty] using h

/-- Whatever has run before on a machine, and whether or not it keeps a log, an entry ends as on a
fresh machine, writes what it writes there, and logs what it logs there or nothing. -/
theorem run_independent (p : Linked) (log : Bool) (earlier : List (Nat × String)) (steps : Nat)
    (name : String) :
    let used := (p.recording log).after earlier
    let run := (p.recording log).run steps name used
    let fresh := (p.recording true).run steps name .empty
    run.1 = fresh.1 ∧ run.2.output = used.output ++ fresh.2.output ∧
      run.2.releases = used.releases ++ if log then fresh.2.releases else #[] := by
  intro used run fresh
  obtain ⟨hend, hout, hlog⟩ := run_fresh (p.recording log) steps name used
  cases log with
  | true => exact ⟨hend, hout, hlog⟩
  | false =>
    rw [run_silent p true] at hend hout hlog
    exact ⟨hend, hout, hlog⟩

end Linked

end

end ScopedScript
