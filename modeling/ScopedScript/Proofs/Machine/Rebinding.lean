import ScopedScript.Proofs.Machine.Frames
import ScopedScript.Proofs.Machine.Reactions

/-!
# Bindings, jumps and returns

What the instructions do that work on more than their operands: those that operate on the bindings
of their frame, go elsewhere in the code, leave the frame or concern tasks.
-/

namespace ScopedScript

/-- Instructions that operate on the bindings of their frame. -/
def Instr.binds : Instr → Bool
  | .enterScope | .exitScope | .declare _ | .load _ | .move _ | .store _ | .storeField _ _
  | .free _ => true
  | _ => false

/-- What an instruction does to the bindings of its frame, given the operands that it takes: it may
give a value, and it may release slots. `none` when it leaves bindings alone or has not as many
operands. -/
def Instr.rebind? : Instr → List Value →
    Option (BindingM (Option Value × Option (ReleaseKind × List Nat)))
  | .enterScope, [] => some do
    BindingM.enterScope
    return (none, none)
  | .exitScope, [] => some do
    return (none, some (.scopeExit, ← BindingM.exitScope))
  | .declare slot, [v] => some do
    BindingM.declare slot v
    return (none, none)
  | .load slot, [] => some do
    return (some (← BindingM.load slot), none)
  | .move slot, [] => some do
    return (some (← BindingM.take slot), some (.moved, [slot]))
  | .store slot, [v] => some do
    BindingM.store slot v
    return (none, none)
  | .storeField slot path, [v] => some do
    BindingM.storeField slot path v
    return (none, none)
  | .free slot, [] => some do
    BindingM.free slot
    return (none, some (.explicit, [slot]))
  | _, _ => none

theorem Instr.exists_rebind {i : Instr} {ops : List Value} (hi : i.binds = true)
    (hn : ops.length = i.pops) : ∃ act, i.rebind? ops = some act := by
  cases i with
  | enterScope | exitScope | load _ | move _ | free _ =>
    obtain rfl := List.length_eq_zero_iff.1 hn
    exact ⟨_, rfl⟩
  | declare _ | store _ | storeField _ _ =>
    obtain ⟨a, rfl⟩ := List.length_eq_one_iff.1 hn
    exact ⟨_, rfl⟩
  | _ => cases hi

namespace Running

/-- With other frames. -/
def withFrames (s : Running) (frames : List Frame) : Running :=
  { s with task := { s.task with frames } }

/-- With releases logged. -/
def releasing (p : Linked) (function : Nat) (s : Running) :
    Option (ReleaseKind × List Nat) → Running
  | none => s
  | some (kind, slots) => { s with toMachine := s.toMachine.record p function kind slots }

variable {s : Running} {p : Linked} {function : Nat}

@[simp]
theorem scheduler_withStack (s : Running) (stack : List Value) :
    (s.withStack stack).scheduler = s.scheduler := rfl

@[simp]
theorem frames_withFrames (s : Running) (frames : List Frame) :
    (s.withFrames frames).task.frames = frames := rfl

@[simp]
theorem stack_withFrames (s : Running) (frames : List Frame) :
    (s.withFrames frames).task.stack = s.task.stack := rfl

@[simp]
theorem task_releasing (s : Running) (released : Option (ReleaseKind × List Nat)) :
    (s.releasing p function released).task = s.task := by
  cases released <;> rfl

@[simp]
theorem scheduler_releasing (s : Running) (released : Option (ReleaseKind × List Nat)) :
    (s.releasing p function released).scheduler = s.scheduler := by
  rcases released with - | ⟨kind, slots⟩
  · rfl
  · exact Machine.scheduler_record

@[simp]
theorem output_releasing (s : Running) (released : Option (ReleaseKind × List Nat)) :
    (s.releasing p function released).output = s.output := by
  rcases released with - | ⟨kind, slots⟩
  · rfl
  · exact Machine.output_record

end Running

namespace Exec

variable {p : Linked} {f : FunctionCode} {s : Running} {rest : List Value} {fr : Frame}
  {callers : List Frame}

/-- An instruction that operates on the bindings of its frame. -/
theorem step_rebind {i : Instr} {ops : List Value}
    {act : BindingM (Option Value × Option (ReleaseKind × List Nat))}
    (hs : s.task.frames = fr :: callers) (hr : i.rebind? ops = some act)
    (hstack : s.task.stack = ops.reverse ++ rest) :
    step p f i s = match act fr.bindings with
      | .ok (v, released) b => .ok .goOn
          (((s.withStack (v.toList ++ rest)).withFrames
            ({ fr with bindings := b } :: callers)).releasing p fr.function released)
      | .error e b => .error (.fault (.of (e.cause f)))
          ((s.withStack rest).withFrames ({ fr with bindings := b } :: callers)) := by
  -- an operation without operands
  have none_eq (h : ops = []) : rest = s.task.stack := by
    subst h
    exact hstack.symm
  -- an operation that takes the topmost operand
  have one_eq {v : Value} {act' : Value → BindingM Unit} (h : ops = [v])
      (ha : act = do act' v; return (none, none)) :
      goOn (pop >>= fun v => onBindings f (act' v)) s = match act fr.bindings with
        | .ok (v, released) b => .ok .goOn
            (((s.withStack (v.toList ++ rest)).withFrames
              ({ fr with bindings := b } :: callers)).releasing p fr.function released)
        | .error e b => .error (.fault (.of (e.cause f)))
            ((s.withStack rest).withFrames ({ fr with bindings := b } :: callers)) := by
    subst h ha
    have hpop : s.task.stack = v :: rest := hstack
    have hs' : (s.withStack rest).task.frames = fr :: callers := hs
    rw [goOn_pop hpop]
    simp only [goOn_apply, onBindings_apply hs', BindingM.bind_apply]
    cases act' v fr.bindings <;> rfl
  cases i with
  | enterScope =>
    cases ops <;> cases hr
    obtain rfl := none_eq rfl
    simp only [step, goOn_apply, onBindings_apply hs, BindingM.bind_apply]
    rfl
  | exitScope =>
    cases ops <;> cases hr
    obtain rfl := none_eq rfl
    simp only [step, goOn_apply, bind_apply, onBindings_apply hs, BindingM.bind_apply]
    cases BindingM.exitScope fr.bindings <;> rfl
  | declare slot =>
    rcases ops with - | ⟨v, - | ⟨w, ops⟩⟩ <;> cases hr
    exact one_eq rfl rfl
  | load slot =>
    cases ops <;> cases hr
    obtain rfl := none_eq rfl
    simp only [step, goOn_apply, bind_apply, onBindings_apply hs, BindingM.bind_apply]
    cases BindingM.load slot fr.bindings <;> rfl
  | move slot =>
    cases ops <;> cases hr
    obtain rfl := none_eq rfl
    simp only [step, goOn_apply, bind_apply, onBindings_apply hs, BindingM.bind_apply]
    cases BindingM.take slot fr.bindings <;> rfl
  | store slot =>
    rcases ops with - | ⟨v, - | ⟨w, ops⟩⟩ <;> cases hr
    exact one_eq rfl rfl
  | storeField slot path =>
    rcases ops with - | ⟨v, - | ⟨w, ops⟩⟩ <;> cases hr
    exact one_eq rfl rfl
  | free slot =>
    cases ops <;> cases hr
    obtain rfl := none_eq rfl
    simp only [step, goOn_apply, bind_apply, onBindings_apply hs, BindingM.bind_apply]
    cases BindingM.free slot fr.bindings <;> rfl
  | _ => cases hr

/-! Other code of the function. -/

theorem step_pop {v : Value} (hs : s.task.stack = v :: rest) :
    step p f .pop s = .ok .goOn (s.withStack rest) := by
  rw [step, goOn_pop hs]
  rfl

theorem step_dup {v : Value} (hs : s.task.stack = v :: rest) :
    step p f .dup s = .ok .goOn (s.withStack (v :: v :: rest)) := by
  simp only [step, goOn_apply, bind_apply, get_apply, hs, push_apply]

theorem step_jump (target : Nat) (hs : s.task.frames = fr :: callers) :
    step p f (.jump target) s = .ok .goOn (s.withFrames ({ fr with ip := target } :: callers)) := by
  rw [step, goOn_apply, jump_apply target hs]
  rfl

/-- Both conditional jumps take the condition, and go elsewhere when it is what they want. -/
theorem step_jumpIf {i : Instr} {target : Nat} {wanted : Bool} {v : Value}
    (hi : i = .jumpIfFalse target ∧ wanted = false ∨ i = .jumpIfTrue target ∧ wanted = true)
    (hs : s.task.frames = fr :: callers) (hstack : s.task.stack = v :: rest) :
    step p f i s = match v.unboxed with
      | .bool b => .ok .goOn (if b = wanted then
          (s.withStack rest).withFrames ({ fr with ip := target } :: callers) else s.withStack rest)
      | _ => fail (.malformed .condition) (s.withStack rest) := by
  obtain ⟨m, ⟨id, state, frames, stack, result, waiters, observed, resumeWith⟩⟩ := s
  obtain rfl : frames = fr :: callers := hs
  obtain rfl : stack = v :: rest := hstack
  rcases hi with ⟨rfl, rfl⟩ | ⟨rfl, rfl⟩
  all_goals
    rw [step, goOn_apply, bind_apply, popBool_apply rfl]
    cases v.unboxed with
    | bool b => cases b <;> rfl
    | _ => rfl

/-! Frames and tasks. -/

theorem enter_apply (function : Nat) (args captures : List Value) (box : Bool) (s : Running) :
    enter p function args captures box s =
      if p.config.maxCallDepth ≤ s.task.frames.length then
        fail (.callDepth p.config.maxCallDepth) s
      else match p.module.functions[function]? with
        | none => fail (.malformed (.noFunction function)) s
        | some g =>
          match Frame.enter function g args captures s.task.stack.length box with
          | .ok new => .ok () (s.withFrames (new :: s.task.frames))
          | .error e => fail (e.cause g) s := by
  simp only [enter, bind_apply, get_apply]
  split
  · rfl
  · rw [bind_apply, functionCode_apply]
    cases p.module.functions[function]? with
    | none => rfl
    | some g =>
      simp only [bind_apply, get_apply]
      cases Frame.enter function g args captures s.task.stack.length box <;> rfl

/-- Leaving a frame drops what is left of its operands, and hands its result to the caller if there
is one. -/
theorem step_ret {v : Value} (hs : s.task.frames = fr :: callers)
    (hstack : s.task.stack = v :: rest) : step p f .ret s =
      let v := if fr.boxResult then v.boxed else v
      let below := rest.drop (rest.length - fr.stackBase)
      let released := some (.scopeExit, fr.bindings.exitAll.2)
      if callers = [] then .ok (.finished v)
        (((s.withStack below).withFrames callers).releasing p fr.function released)
      else .ok .goOn
        (((s.withStack (v :: below)).withFrames callers).releasing p fr.function released) := by
  have hs' : (s.withStack rest).task.frames = fr :: callers := hs
  simp only [step, leave, bind_apply, pop_apply hstack, get_apply, hs']
  cases callers with
  | nil => rfl
  | cons caller outer => rfl

theorem step_spawn (function : Nat) (args : List Value)
    (hstack : s.task.stack = args.reverse ++ rest) :
    step p f (.spawn function args.length) s = match p.module.functions[function]? with
      | none => fail (.malformed (.noFunction function)) (s.withStack rest)
      | some g =>
        match Frame.enter function g args [] 0 false with
        | .error e => fail (e.cause g) (s.withStack rest)
        | .ok new => .ok .goOn { s.withStack (.task s.scheduler.tasks.size :: rest) with
            scheduler := (s.scheduler.spawn new).2 } := by
  rw [step, goOn_popMany rfl hstack, goOn_apply, spawn, bind_apply, functionCode_apply]
  cases p.module.functions[function]? with
  | none => rfl
  | some g =>
    dsimp only
    cases Frame.enter function g args [] 0 false <;> rfl

theorem step_await {v : Value} (hstack : s.task.stack = v :: rest) :
    step p f .await s = match v.unboxed with
      | .task id =>
        if id = s.task.id then fail (.malformed .awaitsItself) (s.withStack rest)
        else match s.scheduler.get? id with
          | none => fail (.malformed (.noTask id)) (s.withStack rest)
          | some target =>
            let observed := s.scheduler.modifyTask id fun t => { t with observed := true }
            if target.isCompleted then match target.result with
              | some (.ok w) => .ok .goOn { s.withStack (w :: rest) with scheduler := observed }
              | some (.error g) =>
                .error (.fault g) { s.withStack rest with scheduler := observed }
              | none =>
                fail (.malformed (.noResult id)) { s.withStack rest with scheduler := observed }
            else .ok .suspended
              { s.withStack rest with scheduler := s.scheduler.addWaiter s.task.id id }
      | other => fail (.mistype (.notTask (other.typeName p.module))) (s.withStack rest) := by
  rw [step, await, bind_apply, pop_apply hstack]
  dsimp only
  cases v.unboxed with
  | task id =>
    simp only [bind_apply, get_apply]
    by_cases hself : id = s.task.id
    · rw [if_pos hself, if_pos (show id = (s.withStack rest).task.id from hself)]
      rfl
    · rw [if_neg hself, if_neg (show ¬ id = (s.withStack rest).task.id from hself)]
      simp only [bind_apply, get_apply, Running.scheduler_withStack]
      cases s.scheduler.get? id with
      | none => rfl
      | some target =>
        dsimp only
        cases target.isCompleted with
        | false => rfl
        | true =>
          simp only [if_true, bind_apply, modify_apply]
          rcases target.result with - | g | w <;> rfl
  | _ => rfl

/-- The next instruction of a task is carried out with the frame past it already, and is blamed for
its faults. -/
theorem next_apply {i : Instr} (hs : s.task.frames = fr :: callers)
    (hf : p.module.functions[fr.function]? = some f) (hi : f.code[fr.ip]? = some i) :
    next p s = EStateM.adaptExcept (fun t : Trap => t.located (f.spanAt fr.ip) f.name) (step p f i)
      (s.withFrames ({ fr with ip := fr.ip + 1 } :: callers)) := by
  unfold next
  simp only [bind_apply, get_apply, hs, functionCode_apply, hf, hi, jump_apply _ hs]
  rfl

end Exec

end ScopedScript
