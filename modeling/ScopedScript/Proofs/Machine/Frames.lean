import ScopedScript.Proofs.Machine.Runs
import ScopedScript.Proofs.Machine.Slots
import ScopedScript.Proofs.Machine.TaskTable
import ScopedScript.Proofs.Machine.Triple

/-!
# Frames through instructions

An instruction works on the innermost frame of its task: it goes to another instruction, operates
on the bindings, enters a function in a new frame or leaves the frame. Other frames stay as they
are. What happens to bindings is a list of events, and the log grows by the releases among them.
-/

namespace ScopedScript

/-- What happens to a frame or to a binding of it. -/
inductive BindingEvent
  | entered
  | declared (slot : Nat)
  | released (slot : Nat) (kind : ReleaseKind)
  | left
deriving DecidableEq, Repr

/-- How the log names the release of a slot of a function. -/
def FunctionCode.release (f : FunctionCode) (slot : Nat) (kind : ReleaseKind) : Release :=
  ⟨f.name, slot, (f.slotNames[slot]?).getD "?", kind⟩

def BindingEvent.release? (f : FunctionCode) : BindingEvent → Option Release
  | released slot kind => some (f.release slot kind)
  | _ => none

namespace Instr

/-- Where control may be after an instruction whose successor is `ip`. -/
def Goes : Instr → Nat → Nat → Prop
  | jump target, _, ip' => ip' = target
  | jumpIfFalse target, ip, ip' => ip' = target ∨ ip' = ip
  | jumpIfTrue target, ip, ip' => ip' = target ∨ ip' = ip
  | _, ip, ip' => ip' = ip

/-- Instructions that operate on bindings, or end their frame. -/
def rebinds : Instr → Bool
  | enterScope | exitScope | declare _ | move _ | store _ | storeField _ _ | free _ | ret => true
  | _ => false

/-- What an instruction makes of the bindings of its frame. -/
inductive Rebinds : Instr → Bindings → List BindingEvent → Bindings → Prop
  | same {i : Instr} (b : Bindings) (h : i.rebinds = false) : Rebinds i b [] b
  | enterScope (b : Bindings) : Rebinds .enterScope b [] { b with scopes := [] :: b.scopes }
  | exitScope {b : Bindings} (h : b.scopes ≠ []) :
    Rebinds .exitScope b
      ((Bindings.releaseAll b.slots (b.scopes.headD [])).2.map fun i => .released i .scopeExit)
      (BindingM.leftScope b)
  | declare {b : Bindings} {i : Nat} (v : Value) (hv : b.Vacant i) (hs : b.scopes ≠ []) :
    Rebinds (.declare i) b [.declared i] (BindingM.declared b i v)
  | move {b : Bindings} {i : Nat} (h : b.Live i) :
    Rebinds (.move i) b [.released i .moved] (b.withSlot i .moved)
  | free {b : Bindings} {i : Nat} (h : b.Live i) :
    Rebinds (.free i) b [.released i .explicit] (b.withSlot i .freed)
  | store {b : Bindings} {i : Nat} (v : Value) (h : b.Live i) :
    Rebinds (.store i) b [] (b.withSlot i (.live v))
  | storeField {b : Bindings} {i : Nat} (path : List Nat) (v : Value) (h : b.Live i) :
    Rebinds (.storeField i path) b [] (b.withSlot i (.live v))

/-- Instructions that may enter a function in a new frame of their task. -/
def isCall : Instr → Bool
  | call _ _ | callValue _ | callDynamic _ | callMethodDynamic _ _ => true
  | _ => false

end Instr

/-- The frame has just been entered, with some arguments bound. -/
def Frame.Entered (p : Linked) (fr : Frame) : Prop :=
  ∃ f args captures base box, p.module.functions[fr.function]? = some f ∧
    Frame.enter fr.function f args captures base box = .ok fr

theorem Frame.entered_of_enter {p : Linked} {id base : Nat} {f : FunctionCode}
    {args captures : List Value} {box : Bool} {fr : Frame}
    (hf : p.module.functions[id]? = some f) (h : Frame.enter id f args captures base box = .ok fr) :
    fr.Entered p := by
  have hid : fr.function = id := by
    unfold Frame.enter at h
    dsimp only at h
    split at h
    · cases h
      rfl
    · cases h
  subst hid
  exact ⟨f, args, captures, base, box, hf, h⟩

namespace Machine

variable {p : Linked} {m : Machine} {function : Nat}

/-- The log grows by the releases among the events of a frame of `f`. -/
def Logs (p : Linked) (f : FunctionCode) (es : List BindingEvent) (m m' : Machine) : Prop :=
  m'.releases.toList = m.releases.toList ++
    if p.config.recordReleases then es.filterMap (BindingEvent.release? f) else []

theorem logs_of_eq {f : FunctionCode} {es : List BindingEvent} {m' : Machine}
    (he : es.filterMap (BindingEvent.release? f) = []) (h : m'.releases = m.releases) :
    Logs p f es m m' := by
  rw [Logs, he, h]
  simp

theorem logs_record {f : FunctionCode} (hf : p.module.functions[function]? = some f)
    (m : Machine) (kind : ReleaseKind) (slots : List Nat) :
    Logs p f (slots.map fun i => .released i kind) m (m.record p function kind slots) := by
  rw [Logs, record, hf]
  cases p.config.recordReleases with
  | false => simp
  | true =>
    have hmap : (slots.map fun i => BindingEvent.released i kind).filterMap
        (BindingEvent.release? f) = slots.map fun i => f.release i kind := by
      rw [List.filterMap_map]
      exact congrFun List.filterMap_eq_map slots
    rw [if_pos rfl, hmap]
    simp [FunctionCode.release]

end Machine

namespace Scheduler

/-- What tells where a task stands. -/
def core (t : Task) : Nat × TaskState × List Frame := (t.id, t.state, t.frames)

/-- The tasks stand where they stood. -/
def SameTasks (s s' : Scheduler) : Prop :=
  s'.tasks.size = s.tasks.size ∧ ∀ i, (s'.get? i).map core = (s.get? i).map core

theorem SameTasks.refl (s : Scheduler) : s.SameTasks s := ⟨rfl, fun _ => rfl⟩

theorem sameTasks_modifyTask (s : Scheduler) (id : Nat) {g : Task → Task}
    (hg : ∀ t, core (g t) = core t) : s.SameTasks (s.modifyTask id g) := by
  refine ⟨size_modifyTask s id g, fun i => ?_⟩
  rw [get?_modifyTask]
  split
  · rw [Option.map_map]
    exact congrArg (Option.map · (s.get? i)) (funext hg)
  · rfl

end Scheduler

namespace Exec

/-! Computations that leave the frames alone. -/

/-- Only the operands and the output have changed. -/
structure Aside (s₀ s : Running) : Prop where
  scheduler : s.scheduler = s₀.scheduler
  releases : s.releases = s₀.releases
  task : s.task = { s₀.task with stack := s.task.stack }

theorem Aside.refl (s : Running) : Aside s s := ⟨rfl, rfl, rfl⟩

/-- The computation leaves the frames alone and answers with `P`. -/
def Aloof (x : Exec α) (P : α → Prop) : Prop :=
  ∀ s₀, Triple (Aside s₀) x (fun a s => P a ∧ Aside s₀ s) fun _ s => Aside s₀ s

variable {P : α → Prop}

theorem Aloof.bind {Q : β → Prop} {x : Exec α} {f : α → Exec β} (hx : Aloof x P)
    (hf : ∀ a, P a → Aloof (f a) Q) : Aloof (x >>= f) Q :=
  fun s₀ => (hx s₀).bind fun a s hs => hf a hs.1 s₀ s hs.2

theorem Aloof.pure {a : α} (h : P a) : Aloof (Pure.pure a : Exec α) P :=
  fun _ => Triple.pure fun _ hs => ⟨h, hs⟩

theorem Aloof.throw (t : Trap) : Aloof (throw t : Exec α) P :=
  fun _ => Triple.throw fun _ hs => hs

theorem Aloof.get {f : Running → Exec α} (h : ∀ s, Aloof (f s) P) : Aloof (get >>= f) P :=
  fun s₀ s hs => h s s₀ s hs

theorem Aloof.fail (cause : FaultCause) : Aloof (Exec.fail cause : Exec α) P := Aloof.throw _

theorem aloof_setStack (g : List Value → List Value) :
    Aloof (modifyTask fun t => { t with stack := g t.stack }) fun _ => True :=
  fun s₀ => Triple.modify fun s hs => ⟨trivial, hs.scheduler, hs.releases, by
    change { s.task with stack := g s.task.stack } = _
    rw [hs.task]⟩

theorem aloof_push (v : Value) : Aloof (push v) fun _ => True := aloof_setStack (v :: ·)

theorem aloof_pop : Aloof pop fun _ => True := by
  refine Aloof.get fun s => ?_
  split
  · exact Aloof.fail _
  · exact Aloof.bind (aloof_setStack fun _ => _) fun _ _ => Aloof.pure trivial

theorem aloof_popMany (n : Nat) : Aloof (popMany n) fun _ => True := by
  refine Aloof.get fun s => ?_
  split
  · exact Aloof.fail _
  · exact Aloof.bind (aloof_setStack fun _ => _) fun _ _ => Aloof.pure trivial

theorem aloof_popBool : Aloof popBool fun _ => True := by
  refine Aloof.bind aloof_pop fun v _ => ?_
  split
  · exact Aloof.pure trivial
  · exact Aloof.fail _

theorem aloof_ofExcept (x : Except FaultCause α) : Aloof (ofExcept x) fun a => x = .ok a := by
  cases x with
  | ok a => exact Aloof.pure rfl
  | error c => exact Aloof.fail c

theorem aloof_ofMistype (x : Except Mistype α) : Aloof (ofMistype x) fun a => x = .ok a := by
  cases x with
  | ok a => exact Aloof.pure rfl
  | error c => exact Aloof.fail _

theorem aloof_functionCode (p : Linked) (id : Nat) :
    Aloof (functionCode p id) fun f => p.module.functions[id]? = some f := by
  unfold functionCode
  split
  · rename_i f hf
    exact Aloof.pure hf
  · exact Aloof.fail _

theorem aloof_callBuiltin (p : Linked) (id : Nat) (args : List Value) :
    Aloof (callBuiltin p id args) fun _ => True := by
  unfold callBuiltin
  split
  · exact Aloof.fail _
  · refine Aloof.bind (P := fun _ => True)
      (fun s₀ => Triple.modify fun s hs => ⟨trivial, hs.scheduler, hs.releases, hs.task⟩)
      fun _ _ => ?_
    split
    · exact Aloof.pure trivial
    · exact Aloof.fail _

theorem aloof_getField (m : Module) (v : Value) (index : Nat) :
    Aloof (getField m v index) fun _ => True := by
  unfold getField
  split
  · split
    · exact Aloof.pure trivial
    · exact Aloof.fail _
  · exact Aloof.fail _

theorem aloof_getFieldDynamic (m : Module) (v : Value) (name : String) :
    Aloof (getFieldDynamic m v name) fun _ => True := by
  unfold getFieldDynamic
  split
  · split
    · exact Aloof.throw _
    · split
      · exact Aloof.fail _
      · split
        · exact Aloof.pure trivial
        · exact Aloof.fail _
  · exact Aloof.fail _

/-! Computations that work on the innermost frame. -/

/-- The frames of the running task are these now, after some events of a frame of `f`. -/
structure Leads (p : Linked) (f : FunctionCode) (es : List BindingEvent) (frames : List Frame)
    (s s' : Running) : Prop where
  scheduler : s.scheduler.SameTasks s'.scheduler
  releases : Machine.Logs p f es s.toMachine s'.toMachine
  task : s'.task = { s.task with frames, stack := s'.task.stack }

theorem Aside.leads {s s' : Running} (h : Aside s s') (p : Linked) (f : FunctionCode)
    {frames : List Frame} (hs : s.task.frames = frames) : Leads p f [] frames s s' :=
  ⟨h.scheduler ▸ .refl _, Machine.logs_of_eq rfl h.releases, by rw [← hs]; exact h.task⟩

theorem Flow.goOn_ne_finished (v : Value) : Flow.goOn ≠ .finished v := fun h => by cases h

/-- What an instruction of a frame of `f`, the innermost one, does to the frames. -/
inductive Treads (p : Linked) (f : FunctionCode) (i : Instr) (fr : Frame) (callers : List Frame)
    (s : Running) : EStateM.Result Trap Running Flow → Prop
  | fails {t : Trap} {s' : Running} (h : Leads p f [] (fr :: callers) s s') :
    Treads p f i fr callers s (.error t s')
  | goes {flow : Flow} {s' : Running} {es : List BindingEvent} {b : Bindings} {ip : Nat}
    (hflow : ∀ v, flow ≠ .finished v) (hb : i.Rebinds fr.bindings es b) (hip : i.Goes fr.ip ip)
    (h : Leads p f es ({ fr with bindings := b, ip } :: callers) s s') :
    Treads p f i fr callers s (.ok flow s')
  | enters {new : Frame} {s' : Running} (hi : i.isCall = true) (hn : new.Entered p)
    (h : Leads p f [] (new :: fr :: callers) s s') : Treads p f i fr callers s (.ok .goOn s')
  | leaves {flow : Flow} {s' : Running} (hi : i = .ret)
    (hflow : callers = [] ∧ (∃ v, flow = .finished v) ∨ callers ≠ [] ∧ flow = .goOn)
    (h : Leads p f (fr.bindings.exitAll.2.map fun i => .released i .scopeExit) callers s s') :
    Treads p f i fr callers s (.ok flow s')
  | spawns {function n : Nat} {new : Frame} {s' : Running} (hi : i = .spawn function n)
    (hn : new.Entered p)
    (h : Leads p f [] (fr :: callers) { s with scheduler := (s.scheduler.spawn new).2 } s') :
    Treads p f i fr callers s (.ok .goOn s')

section

variable {p : Linked} {f : FunctionCode} {i : Instr} {fr : Frame} {callers : List Frame}
  {s : Running}

theorem Treads.bind {x : Exec α} {y : α → Exec Flow} (hs : s.task.frames = fr :: callers)
    (hx : Aloof x P) (hy : ∀ a s', P a → Aside s s' → Treads p f i fr callers s (y a s')) :
    Treads p f i fr callers s ((x >>= y) s) := by
  have h := hx s s (.refl s)
  rw [bind_apply]
  cases hr : x s with
  | ok a s' =>
    rw [hr] at h
    exact hy a s' h.1 h.2
  | error t s' =>
    rw [hr] at h
    exact .fails (h.leads p f hs)

theorem Treads.of_aloof {P : Unit → Prop} {x : Exec Unit} (hs : s.task.frames = fr :: callers)
    (hx : Aloof x P) (hi : i.Goes fr.ip fr.ip)
    (hb : i.rebinds = false) : Treads p f i fr callers s (goOn x s) := by
  refine Treads.bind hs hx fun a s' _ h => ?_
  exact .goes Flow.goOn_ne_finished (.same _ hb) hi (h.leads p f hs)

theorem onBindings_apply {act : BindingM α} (hs : s.task.frames = fr :: callers) :
    onBindings f act s = match act fr.bindings with
      | .ok a b =>
        .ok a { s with task := { s.task with frames := { fr with bindings := b } :: callers } }
      | .error e b =>
        .error (.fault (.of (e.cause f)))
          { s with task := { s.task with frames := { fr with bindings := b } :: callers } } := by
  obtain ⟨m, ⟨id, state, frames, stack, result, waiters, observed, resumeWith⟩⟩ := s
  subst hs
  obtain ⟨function, ip, bindings, captures, base, box⟩ := fr
  cases h : act bindings <;> simp only [onBindings, h]

theorem jump_apply (target : Nat) (hs : s.task.frames = fr :: callers) :
    jump target s = .ok ()
      { s with task := { s.task with frames := { fr with ip := target } :: callers } } := by
  simp only [jump, modifyFrame, modifyTask, modify_apply, hs, List.modifyHead_cons]

/-- Work on the bindings of the frame, with what comes after it. -/
theorem Treads.onBindings {act : BindingM α} {y : α → Exec Flow} {s' : Running}
    (hs : s.task.frames = fr :: callers) (h : Aside s s')
    (hact : (∃ a b, act fr.bindings = .ok a b ∧ Treads p f i fr callers s
        (y a { s' with
          task := { s'.task with frames := { fr with bindings := b } :: callers } })) ∨
      ∃ e, act fr.bindings = .error e fr.bindings) :
    Treads p f i fr callers s ((Exec.onBindings f act >>= y) s') := by
  have hs' : s'.task.frames = fr :: callers := by rw [h.task]; exact hs
  rw [bind_apply, onBindings_apply hs']
  rcases hact with ⟨a, b, ha, hy⟩ | ⟨e, he⟩
  · rw [ha]
    exact hy
  · rw [he]
    refine .fails ?_
    have := h.leads p f hs
    exact ⟨this.scheduler, this.releases, by rw [← hs'] at *; exact this.task⟩

theorem Leads.rebound {s' : Running} {b : Bindings} (h : Aside s s') :
    Leads p f [] ({ fr with bindings := b } :: callers) s
      { s' with task := { s'.task with frames := { fr with bindings := b } :: callers } } := by
  refine ⟨h.scheduler ▸ .refl _, Machine.logs_of_eq rfl h.releases, ?_⟩
  dsimp only
  rw [h.task]

/-- The log of the releases is written after the bindings have changed. -/
theorem Leads.recorded {s' : Running} (h : Aside s s')
    (hf : p.module.functions[fr.function]? = some f) (callers : List Frame) (b : Bindings)
    (kind : ReleaseKind) (slots : List Nat) :
    ∃ r, recordHere p kind slots
        { s' with task := { s'.task with frames := { fr with bindings := b } :: callers } } =
          .ok () r ∧
      Leads p f (slots.map fun i => .released i kind)
        ({ fr with bindings := b } :: callers) s r := by
  refine ⟨_, rfl, ?_, ?_, ?_⟩
  · rw [Machine.scheduler_record, h.scheduler]
    exact .refl _
  · have hlog := Machine.logs_record hf s'.toMachine kind slots
    rw [Machine.Logs, h.releases] at hlog
    exact hlog
  · dsimp only
    rw [h.task]

end

/-! Calls. -/

/-- The computation leaves the frames alone or enters a function. -/
def Calls (p : Linked) (x : Exec Unit) : Prop :=
  ∀ s₀, Triple (Aside s₀) x
    (fun _ s => Aside s₀ s ∨ ∃ new : Frame, new.Entered p ∧
      ∀ f, Leads p f [] (new :: s₀.task.frames) s₀ s)
    fun _ s => Aside s₀ s

variable {p : Linked}

theorem Calls.of_aloof {P : Unit → Prop} {x : Exec Unit} (h : Aloof x P) : Calls p x :=
  fun s₀ => (h s₀).weaken (fun _ hs => hs) (fun _ _ hs => .inl hs.2) fun _ _ hs => hs

theorem Calls.fail (cause : FaultCause) : Calls p (Exec.fail cause) :=
  Calls.of_aloof (Aloof.fail (P := fun _ => True) cause)

theorem Calls.bind {x : Exec α} {y : α → Exec Unit} (hx : Aloof x P)
    (hy : ∀ a, P a → Calls p (y a)) : Calls p (x >>= y) :=
  fun s₀ => (hx s₀).bind fun a s hs => hy a hs.1 s₀ s hs.2

theorem Calls.get {y : Running → Exec Unit} (h : ∀ s, Calls p (y s)) : Calls p (get >>= y) :=
  fun s₀ s hs => h s s₀ s hs

theorem calls_enter (p : Linked) (function : Nat) (args captures : List Value) (box : Bool) :
    Calls p (enter p function args captures box) := by
  refine Calls.get fun s => ?_
  split
  · exact Calls.bind (P := fun _ => False) (Aloof.fail _) fun _ h => h.elim
  · refine Calls.bind (aloof_functionCode p function) fun f hf => Calls.get fun s' => ?_
    split
    · rename_i new hnew
      intro s₀
      refine Triple.modify fun r hr => .inr ⟨new, Frame.entered_of_enter hf hnew, fun g =>
        ⟨hr.scheduler ▸ .refl _, Machine.logs_of_eq rfl hr.releases, ?_⟩⟩
      dsimp only
      rw [hr.task]
    · exact Calls.fail _

theorem calls_callValue (p : Linked) (callee : Value) (args : List Value) :
    Calls p (callValue p callee args) := by
  unfold callValue
  split
  · exact calls_enter p _ _ _ _
  · exact calls_enter p _ _ _ _
  · exact Calls.of_aloof (Aloof.bind (aloof_callBuiltin p _ _) fun _ _ => aloof_push _)
  · exact Calls.fail _

theorem calls_enterDynamic (p : Linked) (id : Nat) (args captures : List Value) :
    Calls p (enterDynamic p id args captures) :=
  Calls.bind (aloof_functionCode p id) fun _ _ =>
    Calls.bind (aloof_ofMistype _) fun _ _ => calls_enter p _ _ _ _

theorem calls_callDynamic (p : Linked) (callee : Value) (args : List Value) :
    Calls p (callDynamic p callee args) := by
  unfold callDynamic
  split
  · exact calls_enterDynamic p _ _ _
  · exact calls_enterDynamic p _ _ _
  · split
    · exact Calls.fail _
    · exact Calls.bind (aloof_ofMistype _) fun _ _ => Calls.of_aloof <|
        Aloof.bind (aloof_callBuiltin p _ _) fun _ _ => aloof_push _
  · exact Calls.fail _

theorem calls_callMethod (p : Linked) (receiver : Value) (method : String) (args : List Value) :
    Calls p (callMethod p receiver method args) := by
  unfold callMethod
  split
  · split
    · exact Calls.fail _
    · split
      · exact Calls.fail _
      · exact calls_enterDynamic p _ _ _
  · exact Calls.fail _

section

variable {f : FunctionCode} {i : Instr} {fr : Frame} {callers : List Frame} {s : Running}

theorem Treads.of_calls {x : Exec Unit} (hs : s.task.frames = fr :: callers)
    (hi : i.isCall = true) (hx : Calls p x) : Treads p f i fr callers s (goOn x s) := by
  have hgoes : i.Goes fr.ip fr.ip := by cases i <;> first | rfl | cases hi
  have hb : i.rebinds = false := by cases i <;> first | rfl | cases hi
  have h := hx s s (.refl s)
  rw [goOn, bind_apply]
  cases hr : x s with
  | ok a s' =>
    rw [hr] at h
    rcases h with h | ⟨new, hn, h⟩
    · exact .goes Flow.goOn_ne_finished (.same _ hb) hgoes (h.leads p f hs)
    · exact .enters hi hn (hs ▸ h f)
  | error t s' =>
    rw [hr] at h
    exact .fails (h.leads p f hs)

/-! The other instructions that concern frames. -/

theorem treads_jump (hs : s.task.frames = fr :: callers) {s' : Running} (h : Aside s s')
    {target : Nat} (hi : i.Goes fr.ip target) (hb : i.rebinds = false) :
    Treads p f i fr callers s (goOn (jump target) s') := by
  have hs' : s'.task.frames = fr :: callers := by rw [h.task]; exact hs
  rw [goOn, bind_apply, jump_apply target hs']
  refine .goes Flow.goOn_ne_finished (.same _ hb) hi
    ⟨h.scheduler ▸ .refl _, Machine.logs_of_eq rfl h.releases, ?_⟩
  dsimp only
  rw [h.task]

theorem treads_leave (hf : p.module.functions[fr.function]? = some f)
    (hs : s.task.frames = fr :: callers) : Treads p f .ret fr callers s (leave p s) := by
  refine Treads.bind hs aloof_pop fun v s' _ h => ?_
  have hs' : s'.task.frames = fr :: callers := by rw [h.task]; exact hs
  have hlog := Machine.logs_record hf s'.toMachine .scopeExit fr.bindings.exitAll.2
  rw [Machine.Logs, h.releases] at hlog
  simp only [bind_apply, get_apply, hs', modifyTask, modify_apply, record]
  cases callers with
  | nil =>
    refine .leaves rfl (.inl ⟨rfl, _, rfl⟩) ⟨?_, hlog, ?_⟩
    · rw [Machine.scheduler_record, h.scheduler]
      exact .refl _
    · dsimp only
      rw [h.task]
  | cons caller rest =>
    refine .leaves rfl (.inr ⟨nofun, rfl⟩) ⟨?_, hlog, ?_⟩
    · rw [Machine.scheduler_record, h.scheduler]
      exact .refl _
    · dsimp only
      rw [h.task]

theorem treads_spawn (hs : s.task.frames = fr :: callers) (function n : Nat) :
    Treads p f (.spawn function n) fr callers s (goOn (popMany n >>= spawn p function) s) := by
  unfold goOn
  rw [bind_assoc]
  refine Treads.bind hs (aloof_popMany n) fun args s₁ _ h₁ => ?_
  unfold spawn
  rw [bind_assoc, bind_apply]
  have h₂ := aloof_functionCode p function s s₁ h₁
  cases hr : functionCode p function s₁ with
  | error t s₂ =>
    rw [hr] at h₂
    exact .fails (h₂.leads p f hs)
  | ok g s₂ =>
    rw [hr] at h₂
    obtain ⟨hg, h₂⟩ := h₂
    dsimp only
    cases he : Frame.enter function g args [] 0 false with
    | error e => exact .fails (h₂.leads p f hs)
    | ok new =>
      refine .spawns rfl (Frame.entered_of_enter hg he) ⟨?_, Machine.logs_of_eq rfl h₂.releases, ?_⟩
      · change (s.scheduler.spawn new).2.SameTasks (s₂.scheduler.spawn new).2
        rw [h₂.scheduler]
        exact .refl _
      · dsimp only
        rw [h₂.task, ← hs]

theorem treads_await (hs : s.task.frames = fr :: callers) :
    Treads p f .await fr callers s (await p s) := by
  refine Treads.bind hs aloof_pop fun v s' _ h => ?_
  have observe : ∀ id, s.scheduler.SameTasks
      (s'.scheduler.modifyTask id fun t => { t with observed := true }) := fun id =>
    h.scheduler ▸ Scheduler.sameTasks_modifyTask _ _ fun _ => rfl
  have hlog : Machine.Logs p f [] s.toMachine s'.toMachine := Machine.logs_of_eq rfl h.releases
  have htask : s'.task = { s.task with frames := fr :: callers, stack := s'.task.stack } := by
    rw [← hs]
    exact h.task
  cases hu : v.unboxed with
  | task id =>
    simp only [bind_apply, get_apply]
    by_cases hself : id = s'.task.id
    · rw [if_pos hself]
      exact .fails (h.leads p f hs)
    · rw [if_neg hself]
      simp only [bind_apply, get_apply]
      cases s'.scheduler.get? id with
      | none => exact .fails (h.leads p f hs)
      | some target =>
        cases hc : target.isCompleted with
        | true =>
          simp only [hc, if_true, bind_apply, modify_apply]
          rcases target.result with _ | _ | w
          · exact .fails ⟨observe id, hlog, htask⟩
          · exact .fails ⟨observe id, hlog, htask⟩
          · refine .goes Flow.goOn_ne_finished (.same _ rfl) rfl ⟨observe id, hlog, ?_⟩
            dsimp only
            rw [htask]
        | false =>
          simp only [hc, Bool.false_eq_true, if_false, bind_apply, modify_apply, pure_apply]
          refine .goes (fun _ h => by cases h) (.same _ rfl) rfl ⟨?_, hlog, htask⟩
          exact h.scheduler ▸ Scheduler.sameTasks_modifyTask _ _ fun _ => rfl
  | _ => exact .fails (h.leads p f hs)

theorem Leads.push {es : List BindingEvent} {frames : List Frame} {s' : Running}
    (h : Leads p f es frames s s') (v : Value) :
    Leads p f es frames s { s' with task := { s'.task with stack := v :: s'.task.stack } } := by
  refine ⟨h.scheduler, h.releases, ?_⟩
  dsimp only
  rw [h.task]

theorem Treads.goOn_bind {x : Exec α} {y : α → Exec Unit} (hs : s.task.frames = fr :: callers)
    (hx : Aloof x P) (hy : ∀ a s', P a → Aside s s' → Treads p f i fr callers s (goOn (y a) s')) :
    Treads p f i fr callers s (goOn (x >>= y) s) := by
  unfold goOn
  rw [bind_assoc]
  exact Treads.bind hs hx hy

theorem Treads.goOn_onBindings {act : BindingM α} {y : α → Exec Unit} {s' : Running}
    (hs : s.task.frames = fr :: callers) (h : Aside s s')
    (hact : (∃ a b, act fr.bindings = .ok a b ∧ Treads p f i fr callers s
        (goOn (y a) { s' with
          task := { s'.task with frames := { fr with bindings := b } :: callers } })) ∨
      ∃ e, act fr.bindings = .error e fr.bindings) :
    Treads p f i fr callers s (goOn (Exec.onBindings f act >>= y) s') := by
  unfold goOn
  rw [bind_assoc]
  exact Treads.onBindings hs h hact

/-- What an instruction does to frames. -/
theorem treads_step (hf : p.module.functions[fr.function]? = some f)
    (hs : s.task.frames = fr :: callers) (i : Instr) :
    Treads p f i fr callers s (step p f i s) := by
  -- work on the bindings that the log does not show
  have quiet : ∀ {i : Instr} {b : Bindings} {s' : Running}, Aside s s' →
      i.Rebinds fr.bindings [] b → i.Goes fr.ip fr.ip → Treads p f i fr callers s (.ok .goOn
        { s' with task := { s'.task with frames := { fr with bindings := b } :: callers } }) :=
    fun h hb hip => .goes Flow.goOn_ne_finished hb hip (Leads.rebound h)
  have here : Aside s s := .refl s
  cases i with
  | const index =>
    refine Treads.of_aloof (P := fun _ => True) hs ?_ rfl rfl
    split
    · exact aloof_push _
    · exact Aloof.fail _
  | pop =>
    exact Treads.of_aloof (P := fun _ => True) hs
      (Aloof.bind aloof_pop fun _ _ => Aloof.pure trivial) rfl rfl
  | dup =>
    refine Treads.of_aloof (P := fun _ => True) hs (Aloof.get fun s => ?_) rfl rfl
    split
    · exact aloof_push _
    · exact Aloof.fail _
  | arith op kind =>
    exact Treads.of_aloof hs (Aloof.bind aloof_pop fun _ _ => Aloof.bind aloof_pop fun _ _ =>
      Aloof.bind (aloof_ofExcept _) fun _ _ => aloof_push _) rfl rfl
  | neg kind =>
    exact Treads.of_aloof hs (Aloof.bind aloof_pop fun _ _ =>
      Aloof.bind (aloof_ofExcept _) fun _ _ => aloof_push _) rfl rfl
  | order op kind =>
    exact Treads.of_aloof hs (Aloof.bind aloof_pop fun _ _ => Aloof.bind aloof_pop fun _ _ =>
      Aloof.bind (aloof_ofExcept _) fun _ _ => aloof_push _) rfl rfl
  | eq =>
    exact Treads.of_aloof hs (Aloof.bind aloof_pop fun _ _ => Aloof.bind aloof_pop fun _ _ =>
      aloof_push _) rfl rfl
  | ne =>
    exact Treads.of_aloof hs (Aloof.bind aloof_pop fun _ _ => Aloof.bind aloof_pop fun _ _ =>
      aloof_push _) rfl rfl
  | not => exact Treads.of_aloof hs (Aloof.bind aloof_popBool fun _ _ => aloof_push _) rfl rfl
  | cast target =>
    exact Treads.of_aloof hs (Aloof.bind aloof_pop fun _ _ =>
      Aloof.bind (aloof_ofExcept _) fun _ _ => aloof_push _) rfl rfl
  | format parts =>
    exact Treads.of_aloof hs (Aloof.bind (aloof_popMany parts) fun _ _ => aloof_push _) rfl rfl
  | jump target => exact treads_jump hs here rfl rfl
  | jumpIfFalse target =>
    refine Treads.goOn_bind hs aloof_popBool fun b s' _ h => ?_
    cases b with
    | true => exact .goes Flow.goOn_ne_finished (.same _ rfl) (.inr rfl) (h.leads p f hs)
    | false => exact treads_jump hs h (.inl rfl) rfl
  | jumpIfTrue target =>
    refine Treads.goOn_bind hs aloof_popBool fun b s' _ h => ?_
    cases b with
    | true => exact treads_jump hs h (.inl rfl) rfl
    | false => exact .goes Flow.goOn_ne_finished (.same _ rfl) (.inr rfl) (h.leads p f hs)
  | enterScope =>
    unfold step goOn
    exact Treads.onBindings hs here (.inl ⟨(), _, rfl, quiet here (.enterScope _) rfl⟩)
  | exitScope =>
    refine Treads.goOn_onBindings hs here ?_
    rcases BindingM.exitScope_cases fr.bindings with ⟨hne, h⟩ | ⟨-, h⟩
    · obtain ⟨r, hr, hl⟩ := Leads.recorded here hf callers (BindingM.leftScope fr.bindings)
        .scopeExit (Bindings.releaseAll fr.bindings.slots (fr.bindings.scopes.headD [])).2
      refine .inl ⟨_, _, h, ?_⟩
      rw [goOn_apply, hr]
      exact .goes Flow.goOn_ne_finished (.exitScope hne) rfl hl
    · exact .inr ⟨_, h⟩
  | declare slot =>
    refine Treads.goOn_bind hs aloof_pop fun v s' _ h => Treads.onBindings hs h ?_
    rcases BindingM.declare_cases slot v fr.bindings with ⟨hv, hne, hd⟩ | ⟨-, e, hd, -⟩
    · refine .inl ⟨(), _, hd, .goes Flow.goOn_ne_finished (.declare v hv hne) rfl ?_⟩
      have hlead : Leads p f [] ({ fr with bindings := BindingM.declared fr.bindings slot v } ::
          callers) s _ := Leads.rebound h
      exact ⟨hlead.scheduler, hlead.releases, hlead.task⟩
    · exact .inr ⟨_, hd⟩
  | load slot =>
    refine Treads.goOn_onBindings hs here ?_
    rcases BindingM.load_cases slot fr.bindings with ⟨v, -, h⟩ | ⟨-, e, h, -⟩
    · exact .inl ⟨_, _, h, .goes Flow.goOn_ne_finished (.same _ rfl) rfl
        ((Leads.rebound here).push v)⟩
    · exact .inr ⟨_, h⟩
  | move slot =>
    refine Treads.goOn_onBindings hs here ?_
    rcases BindingM.take_cases slot fr.bindings with ⟨v, hv, h⟩ | ⟨-, e, h, -⟩
    · obtain ⟨r, hr, hl⟩ := Leads.recorded here hf callers (fr.bindings.withSlot slot .moved)
        .moved [slot]
      refine .inl ⟨_, _, h, ?_⟩
      rw [goOn_apply, bind_apply, hr]
      exact .goes Flow.goOn_ne_finished (.move ⟨v, hv⟩) rfl (hl.push v)
    · exact .inr ⟨_, h⟩
  | store slot =>
    refine Treads.goOn_bind hs aloof_pop fun v s' _ h => Treads.onBindings hs h ?_
    rcases BindingM.store_cases slot v fr.bindings with ⟨hl, hd⟩ | ⟨-, e, hd, -⟩
    · exact .inl ⟨(), _, hd, quiet h (.store v hl) rfl⟩
    · exact .inr ⟨_, hd⟩
  | storeField slot path =>
    refine Treads.goOn_bind hs aloof_pop fun v s' _ h => Treads.onBindings hs h ?_
    rcases BindingM.storeField_cases slot path v fr.bindings with
      ⟨w, whole, hw, -, hd⟩ | ⟨w, -, -, hd⟩ | ⟨-, e, hd, -⟩
    · exact .inl ⟨(), _, hd, quiet h (.storeField path whole ⟨w, hw⟩) rfl⟩
    · exact .inr ⟨_, hd⟩
    · exact .inr ⟨_, hd⟩
  | free slot =>
    refine Treads.goOn_onBindings hs here ?_
    rcases BindingM.free_cases slot fr.bindings with ⟨hl, h⟩ | ⟨-, e, h, -⟩
    · obtain ⟨r, hr, hlog⟩ := Leads.recorded here hf callers
        (fr.bindings.withSlot slot .freed) .explicit [slot]
      refine .inl ⟨_, _, h, ?_⟩
      rw [goOn_apply, hr]
      exact .goes Flow.goOn_ne_finished (.free hl) rfl hlog
    · exact .inr ⟨_, h⟩
  | loadCapture index =>
    refine Treads.of_aloof (P := fun _ => True) hs (Aloof.get fun s => ?_) rfl rfl
    split
    · exact aloof_push _
    · exact Aloof.fail _
  | makeStruct type fields =>
    exact Treads.of_aloof hs (Aloof.bind (aloof_popMany fields) fun _ _ => aloof_push _) rfl rfl
  | getField index =>
    exact Treads.of_aloof hs (Aloof.bind aloof_pop fun _ _ =>
      Aloof.bind (aloof_getField _ _ _) fun _ _ => aloof_push _) rfl rfl
  | getFieldDynamic name =>
    exact Treads.of_aloof hs (Aloof.bind aloof_pop fun _ _ =>
      Aloof.bind (aloof_getFieldDynamic _ _ _) fun _ _ => aloof_push _) rfl rfl
  | makeClosure function captures =>
    refine Treads.of_aloof (P := fun _ => True) hs
      (Aloof.bind (aloof_popMany captures) fun vs _ => ?_) rfl rfl
    split
    · exact aloof_push _
    · exact aloof_push _
  | loadNative id => exact Treads.of_aloof hs (aloof_push _) rfl rfl
  | call function args =>
    exact Treads.of_calls hs rfl (Calls.bind (aloof_popMany args) fun _ _ => calls_enter p _ _ _ _)
  | callValue args =>
    exact Treads.of_calls hs rfl (Calls.bind (aloof_popMany args) fun _ _ =>
      Calls.bind aloof_pop fun _ _ => calls_callValue p _ _)
  | callDynamic args =>
    exact Treads.of_calls hs rfl (Calls.bind (aloof_popMany args) fun _ _ =>
      Calls.bind aloof_pop fun _ _ => calls_callDynamic p _ _)
  | callMethodDynamic method args =>
    exact Treads.of_calls hs rfl (Calls.bind (aloof_popMany args) fun _ _ =>
      Calls.bind aloof_pop fun _ _ => calls_callMethod p _ _ _)
  | callNative id args =>
    exact Treads.of_aloof hs (Aloof.bind (aloof_popMany args) fun _ _ =>
      Aloof.bind (aloof_callBuiltin p _ _) fun _ _ => aloof_push _) rfl rfl
  | ret => exact treads_leave hf hs
  | spawn function args => exact treads_spawn hs function args
  | await => exact treads_await hs
  | yieldNow => exact .goes (fun _ h => by cases h) (.same _ rfl) rfl (here.leads p f hs)
  | box => exact Treads.of_aloof hs (Aloof.bind aloof_pop fun _ _ => aloof_push _) rfl rfl
  | unbox tag =>
    exact Treads.of_aloof hs (Aloof.bind aloof_pop fun _ _ =>
      Aloof.bind (aloof_ofMistype _) fun _ _ => aloof_push _) rfl rfl

theorem Treads.located {x : Exec Flow} {s' : Running} (h : Treads p f i fr callers s (x s'))
    (span : Option Span) (name : String) :
    Treads p f i fr callers s
      (EStateM.adaptExcept (fun t : Trap => t.located span name) x s') := by
  unfold EStateM.adaptExcept
  cases hx : x s' with
  | ok flow r =>
    rw [hx] at h
    exact h
  | error t r =>
    rw [hx] at h
    cases h with
    | fails h => exact .fails h

/-- The frames that the task had before do not matter. -/
theorem Treads.of_frames {frames : List Frame} {r : EStateM.Result Trap Running Flow}
    (h : Treads p f i fr callers { s with task := { s.task with frames } } r) :
    Treads p f i fr callers s r := by
  cases h with
  | fails h => exact .fails ⟨h.scheduler, h.releases, h.task⟩
  | goes hflow hb hip h => exact .goes hflow hb hip ⟨h.scheduler, h.releases, h.task⟩
  | enters hi hn h => exact .enters hi hn ⟨h.scheduler, h.releases, h.task⟩
  | leaves hi hflow h => exact .leaves hi hflow ⟨h.scheduler, h.releases, h.task⟩
  | spawns hi hn h => exact .spawns hi hn ⟨h.scheduler, h.releases, h.task⟩

/-- The next instruction of a task, if the innermost frame has one. -/
theorem treads_next (hs : s.task.frames = fr :: callers) :
    (∃ t, next p s = .error t s) ∨
    ∃ f i, p.module.functions[fr.function]? = some f ∧ f.code[fr.ip]? = some i ∧
      Treads p f i { fr with ip := fr.ip + 1 } callers s (next p s) := by
  unfold next
  simp only [bind_apply, get_apply, hs]
  cases hf : p.module.functions[fr.function]? with
  | none =>
    have hcode : functionCode p fr.function s =
        .error (.fault (.of (.malformed (.noFunction fr.function)))) s := by
      rw [functionCode, hf]
      rfl
    simp only [hcode]
    exact .inl ⟨_, rfl⟩
  | some f =>
    have hcode : functionCode p fr.function s = .ok f s := by
      rw [functionCode, hf]
      rfl
    simp only [hcode]
    cases hi : f.code[fr.ip]? with
    | none => exact .inl ⟨_, rfl⟩
    | some i =>
      refine .inr ⟨f, i, rfl, hi, ?_⟩
      simp only [bind_apply, jump_apply _ hs]
      have hf' : p.module.functions[({ fr with ip := fr.ip + 1 } : Frame).function]? = some f := hf
      exact ((treads_step hf' rfl i).located _ _).of_frames

end

end Exec

end ScopedScript
