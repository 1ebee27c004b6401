import ScopedScript.Proofs.Compile.BareMachine
import ScopedScript.Proofs.Compile.Levels
import ScopedScript.Proofs.Machine.Rebinding

/-!
# Instructions of bare code

Two computations are alike when they end in the same way from states of which the second keeps what
the first has, and leave such states. What an instruction does apart from slots and jumps is alike
in the machine of a module and in that of its bare form.
-/

namespace ScopedScript

namespace Exec

variable {m : Module}

/-- Two computations have ended in the same way. -/
inductive Ends (m : Module) (R : α → β → Prop) :
    EStateM.Result Trap Running α → EStateM.Result Trap Running β → Prop
  | ok {a : α} {b : β} {s s' : Running} (h : R a b) (hs : s.Kept m s') :
    Ends m R (.ok a s) (.ok b s')
  | error (t : Trap) {s s' : Running} (hs : s.Kept m s') : Ends m R (.error t s) (.error t s')

/-- From a state and one that keeps it, the computations end in the same way. -/
def Alike (m : Module) (R : α → β → Prop) (x : Exec α) (x' : Exec β) : Prop :=
  ∀ s s' : Running, s.Kept m s' → Ends m R (x s) (x' s')

section

variable {R : α → α' → Prop} {S : β → β' → Prop} {x : Exec α} {x' : Exec α'} {s s' : Running}

theorem Ends.bind {y : α → Exec β} {y' : α' → Exec β'} (hx : Ends m R (x s) (x' s'))
    (hy : ∀ a a', R a a' → Alike m S (y a) (y' a')) : Ends m S ((x >>= y) s) ((x' >>= y') s') := by
  rw [bind_apply, bind_apply]
  generalize x s = r, x' s' = r' at hx
  cases hx with
  | ok h hs => exact hy _ _ h _ _ hs
  | error t hs => exact .error t hs

theorem Alike.bind {y : α → Exec β} {y' : α' → Exec β'} (hx : Alike m R x x')
    (hy : ∀ a a', R a a' → Alike m S (y a) (y' a')) : Alike m S (x >>= y) (x' >>= y') :=
  fun s s' h => (hx s s' h).bind hy

theorem Alike.pure {a : α} {b : α'} (h : R a b) :
    Alike m R (Pure.pure a : Exec α) (Pure.pure b : Exec α') := fun _ _ hs => .ok h hs

theorem Alike.throw (t : Trap) : Alike m R (throw t : Exec α) (throw t : Exec α') :=
  fun _ _ hs => .error t hs

theorem Alike.fail (cause : FaultCause) : Alike m R (fail cause : Exec α) (fail cause : Exec α') :=
  .throw _

/-- Nothing comes after a failure. -/
theorem Alike.failed {α : Type} (cause : FaultCause) {y : α → Exec β} {y' : α → Exec β'} :
    Alike m S (Exec.fail cause >>= y) (Exec.fail cause >>= y') := fun _ _ hs => .error _ hs

theorem Alike.get {y : Running → Exec α} {y' : Running → Exec α'}
    (h : ∀ s s', s.Kept m s' → Alike m R (y s) (y' s')) : Alike m R (get >>= y) (get >>= y') :=
  fun s s' hs => h s s' hs s s' hs

theorem Alike.modify {g g' : Running → Running} (h : ∀ s s', s.Kept m s' → (g s).Kept m (g' s')) :
    Alike m (fun _ _ => True) (modify g : Exec Unit) (modify g' : Exec Unit) :=
  fun s s' hs => .ok trivial (h s s' hs)

theorem Alike.goOn {x x' : Exec Unit} (h : Alike m (fun _ _ => True) x x') :
    Alike m Eq (goOn x) (goOn x') := h.bind fun _ _ _ => .pure rfl

end

/-! ## Operands -/

theorem alike_modifyTask {g : Task → Task} (hid : ∀ t, (g t).id = t.id)
    (hf : ∀ t, (g t).frames = t.frames)
    (hg : ∀ t frames, g { t with frames } = { g t with frames }) :
    Alike m (fun _ _ => True) (modifyTask g) (modifyTask g) :=
  .modify fun _ _ h => ⟨h.machine, h.task.map hid hf hg⟩

theorem alike_push (v : Value) : Alike m (fun _ _ => True) (push v) (push v) :=
  alike_modifyTask (fun _ => rfl) (fun _ => rfl) fun _ _ => rfl

theorem alike_setStack (stack : List Value) :
    Alike m (fun _ _ => True) (modifyTask fun t => { t with stack })
      (modifyTask fun t => { t with stack }) :=
  alike_modifyTask (fun _ => rfl) (fun _ => rfl) fun _ _ => rfl

theorem alike_pop : Alike m Eq pop pop := by
  refine .get fun s s' h => ?_
  rw [h.task.stack_eq]
  split
  · exact .fail _
  · exact (alike_setStack _).bind fun _ _ _ => .pure rfl

theorem alike_popMany (n : Nat) : Alike m Eq (popMany n) (popMany n) := by
  refine .get fun s s' h => ?_
  rw [h.task.stack_eq]
  split
  · exact .fail _
  · exact (alike_setStack _).bind fun _ _ _ => .pure rfl

theorem alike_popBool : Alike m Eq popBool popBool := by
  refine alike_pop.bind fun v _ hv => ?_
  subst hv
  split
  · exact .pure rfl
  · exact .fail _

theorem alike_ofExcept (x : Except FaultCause α) : Alike m Eq (ofExcept x) (ofExcept x) := by
  cases x with
  | ok a => exact .pure rfl
  | error c => exact .fail c

theorem alike_ofMistype (x : Except Mistype α) : Alike m Eq (ofMistype x) (ofMistype x) := by
  cases x with
  | ok a => exact .pure rfl
  | error c => exact .fail _

/-- An answer that is pushed. -/
theorem Alike.push {x x' : Exec Value} (h : Alike m Eq x x') :
    Alike m (fun _ _ => True) (x >>= Exec.push) (x' >>= Exec.push) :=
  h.bind fun v _ hv => hv ▸ alike_push v

theorem alike_getField (v : Value) (index : Nat) :
    Alike m Eq (getField m v index) (getField m v index) := by
  unfold getField
  split
  · split
    · exact .pure rfl
    · exact .fail _
  · exact .fail _

theorem alike_getFieldDynamic (v : Value) (name : String) :
    Alike m Eq (getFieldDynamic m v name) (getFieldDynamic m v name) := by
  unfold getFieldDynamic
  split
  · split
    · exact .throw _
    · split
      · exact .fail _
      · split
        · exact .pure rfl
        · exact .fail _
  · exact .fail _

/-! ## Frames -/

theorem enter_bare (function : Nat) (f : FunctionCode) (args captures : List Value) (base : Nat)
    (box : Bool) : Frame.enter function f.bare args captures base box =
      Frame.enter function f args captures base box := rfl

theorem cause_bare (f : FunctionCode) (e : SlotError) : e.cause f.bare = e.cause f := by
  cases e <;> rfl

theorem kept_enter {function base : Nat} {f : FunctionCode} {args captures : List Value}
    {box : Bool} {fr : Frame}
    (h : Frame.enter function f args captures base box = .ok fr) : fr.Kept m fr := by
  refine ⟨.refl _, fun g _ => ?_, rfl⟩
  rw [(Frame.enter_place h).2]
  rfl

section

variable {p : Linked}

theorem alike_functionCode (id : Nat) :
    Alike p.module (fun f f' => f' = f.bare) (functionCode p id) (functionCode p.bare id) := by
  unfold functionCode
  rw [Linked.bare, Module.functions_bare]
  cases p.module.functions[id]? with
  | none => exact .fail _
  | some f => exact .pure rfl

theorem alike_record (function : Nat) (kind : ReleaseKind) (slots slots' : List Nat) :
    Alike p.module (fun _ _ => True) (record p function kind slots)
      (record p.bare function kind slots') := by
  refine .modify fun s s' h => ⟨⟨?_, ?_⟩, h.task⟩
  · rw [Machine.scheduler_record, Machine.scheduler_record]
    exact h.machine.scheduler
  · rw [Machine.output_record, Machine.output_record]
    exact h.machine.output

theorem alike_enter (function : Nat) (args captures : List Value) (box : Bool) :
    Alike p.module (fun _ _ => True) (enter p function args captures box)
      (enter p.bare function args captures box) := by
  refine .get fun s s' h => ?_
  rw [← h.task.frames.length_eq]
  by_cases hd : p.config.maxCallDepth ≤ s.task.frames.length
  · have hd' : p.bare.config.maxCallDepth ≤ s.task.frames.length := hd
    simp only [if_pos hd, if_pos hd']
    exact .failed _
  have hd' : ¬ p.bare.config.maxCallDepth ≤ s.task.frames.length := hd
  simp only [if_neg hd, if_neg hd']
  refine (alike_functionCode function).bind fun f f' hf => .get fun s s' h => ?_
  rw [hf, enter_bare, h.task.stack_eq]
  split
  · rename_i fr hfr
    exact .modify fun _ _ h => ⟨h.machine, h.task.withFrames (.cons (kept_enter hfr) h.task.frames)⟩
  · rename_i e _
    rw [cause_bare]
    exact .fail _

/-- The innermost frame is left for its caller, or its task ends. -/
theorem alike_leave : Alike p.module Eq (leave p) (leave p.bare) := by
  refine alike_pop.bind fun v _ hv => .get fun s s' h => ?_
  subst hv
  have hframes := h.task.frames
  generalize s.task.frames = frames, s'.task.frames = frames' at hframes
  cases hframes with
  | nil => exact .fail _
  | @cons fr fr' callers callers' hfr hcallers =>
    have hfunction : fr'.function = fr.function := by rw [hfr.rest]
    have hbase : fr'.stackBase = fr.stackBase := by rw [hfr.rest]
    have hbox : fr'.boxResult = fr.boxResult := by rw [hfr.rest]
    have hempty : callers'.isEmpty = callers.isEmpty := by
      cases hcallers <;> rfl
    dsimp only
    rw [hfunction, hbase, hbox, hempty]
    refine Alike.bind (R := fun _ _ => True) (.modify fun t t' h => ⟨h.machine, ?_⟩) fun _ _ _ =>
      (alike_record fr.function .scopeExit _ _).bind fun _ _ _ => ?_
    · exact ⟨hcallers, by rw [h.task.rest]⟩
    · split
      · exact .pure rfl
      · exact (alike_push _).bind fun _ _ _ => .pure rfl

theorem alike_recordHere (kind : ReleaseKind) (slots slots' : List Nat) :
    Alike p.module (fun _ _ => True) (recordHere p kind slots) (recordHere p.bare kind slots') := by
  refine .get fun s s' h => ?_
  have hframes := h.task.frames
  generalize s.task.frames = frames, s'.task.frames = frames' at hframes
  cases hframes with
  | nil => exact .fail _
  | @cons fr fr' _ _ hfr _ =>
    have hfunction : fr'.function = fr.function := by rw [hfr.rest]
    dsimp only
    rw [hfunction]
    exact alike_record _ _ _ _

/-! ## Calls -/

section

variable (hp : ∀ b ∈ p.builtins, b.IgnoresCode)

include hp

theorem alike_callBuiltin (id : Nat) (args : List Value) :
    Alike p.module Eq (callBuiltin p id args) (callBuiltin p.bare id args) := by
  unfold callBuiltin
  cases hb : p.builtins[id]? with
  | none =>
    have hb' : p.bare.builtins[id]? = none := hb
    rw [hb']
    exact .fail _
  | some b =>
    have hb' : p.bare.builtins[id]? = some b := hb
    have hcall : b.call p.bare.module args = b.call p.module args :=
      hp b (Array.mem_of_getElem? hb) p.module args
    rw [hb']
    dsimp only
    rw [hcall]
    refine Alike.bind (R := fun _ _ => True)
      (.modify fun s s' h => ⟨⟨h.machine.scheduler, ?_⟩, h.task⟩) fun _ _ _ => ?_
    · dsimp only
      rw [h.machine.output]
    · split
      · exact .pure rfl
      · exact .fail _

theorem alike_callValue (callee : Value) (args : List Value) :
    Alike p.module (fun _ _ => True) (callValue p callee args) (callValue p.bare callee args) := by
  unfold callValue
  split
  · exact alike_enter _ _ _ _
  · exact alike_enter _ _ _ _
  · exact (alike_callBuiltin hp _ _).push
  · rw [Linked.bare, Value.typeName_bare]
    exact .fail _

omit hp in
theorem alike_enterDynamic (id : Nat) (args captures : List Value) :
    Alike p.module (fun _ _ => True) (enterDynamic p id args captures)
      (enterDynamic p.bare id args captures) := by
  refine (alike_functionCode id).bind fun f f' hf => ?_
  subst hf
  have hargs : dynamicArgs p.bare.module f.bare args = dynamicArgs p.module f args :=
    dynamicArgs_bare ..
  rw [hargs]
  refine (alike_ofMistype _).bind fun args _ h => ?_
  subst h
  exact alike_enter _ _ _ _

theorem alike_callDynamic (callee : Value) (args : List Value) :
    Alike p.module (fun _ _ => True) (callDynamic p callee args)
      (callDynamic p.bare callee args) := by
  unfold callDynamic
  split
  · exact alike_enterDynamic _ _ _
  · exact alike_enterDynamic _ _ _
  · rename_i id _
    have hb' : p.bare.builtins[id]? = p.builtins[id]? := rfl
    rw [hb']
    split
    · exact .fail _
    · rename_i b _
      have hargs : checkBuiltinArgs p.bare.module b args = checkBuiltinArgs p.module b args :=
        checkBuiltinArgs_bare ..
      rw [hargs]
      refine (alike_ofMistype _).bind fun _ _ _ => (alike_callBuiltin hp _ _).bind fun v _ hv => ?_
      subst hv
      exact alike_push _
  · rw [Linked.bare, Value.typeName_bare]
    exact .fail _

omit hp in
theorem alike_callMethod (receiver : Value) (method : String) (args : List Value) :
    Alike p.module (fun _ _ => True) (callMethod p receiver method args)
      (callMethod p.bare receiver method args) := by
  unfold callMethod
  split
  · rename_i type fields _
    have hs : p.bare.module.structs[type]? = p.module.structs[type]? := rfl
    rw [hs]
    split
    · exact .fail _
    · split
      · exact .fail _
      · exact alike_enterDynamic _ _ _
  · rw [Linked.bare, Value.typeName_bare]
    exact .fail _

end

/-! ## Tasks -/

theorem alike_spawn (function : Nat) (args : List Value) :
    Alike p.module (fun _ _ => True) (spawn p function args) (spawn p.bare function args) := by
  refine (alike_functionCode function).bind fun f f' hf => ?_
  subst hf
  rw [enter_bare]
  split
  · rw [cause_bare]
    exact .fail _
  · rename_i fr hfr
    have hspawn : Alike p.module Eq (modifyGet fun s : Running =>
          ((s.scheduler.spawn fr).1, { s with scheduler := (s.scheduler.spawn fr).2 }) : Exec Nat)
        (modifyGet fun s : Running =>
          ((s.scheduler.spawn fr).1, { s with scheduler := (s.scheduler.spawn fr).2 })) := by
      intro s s' h
      obtain ⟨hid, hs⟩ := h.machine.scheduler.spawn (kept_enter (m := p.module) hfr)
      exact .ok hid.symm ⟨⟨hs, h.machine.output⟩, h.task⟩
    refine hspawn.bind fun id _ hid => ?_
    subst hid
    exact alike_push _

theorem alike_await : Alike p.module Eq (await p) (await p.bare) := by
  refine alike_pop.bind fun v _ hv => ?_
  subst hv
  split
  · rename_i id _
    refine .get fun s s' h => ?_
    rw [h.task.id_eq]
    split
    · exact .failed _
    refine .get fun s s' h => ?_
    cases hs : s.scheduler.get? id with
    | none =>
      rw [h.machine.scheduler.get?_eq_none hs]
      exact .fail _
    | some target =>
      obtain ⟨target', hs', ht⟩ := h.machine.scheduler.get?_eq_some hs
      rw [hs']
      dsimp only
      rw [Task.isCompleted, Task.isCompleted, ht.state_eq, ht.result_eq]
      split
      · refine Alike.bind (R := fun _ _ => True)
          (.modify fun s s' h => ⟨⟨?_, h.machine.output⟩, h.task⟩) fun _ _ _ => ?_
        · exact h.machine.scheduler.modifyTask id (fun _ => rfl) (fun _ => rfl) fun _ _ => rfl
        · split
          · exact (alike_push _).bind fun _ _ _ => .pure rfl
          · exact .throw _
          · exact .fail _
      · refine Alike.bind (R := fun _ _ => True)
          (.modify fun s s' h => ⟨⟨?_, h.machine.output⟩, h.task⟩) fun _ _ _ => .pure rfl
        dsimp only
        rw [h.task.id_eq]
        exact h.machine.scheduler.modifyTask id (fun _ => rfl) (fun _ => rfl) fun _ _ => rfl
  · rw [Linked.bare, Value.typeName_bare]
    exact .fail _

/-! ## Instructions -/

/-- The instructions that neither work on slots nor name an address. -/
theorem alike_step (hp : ∀ b ∈ p.builtins, b.IgnoresCode) (f : FunctionCode) {i : Instr}
    (hi : i.binds = false) (ht : i.target? = none) :
    Alike p.module Eq (step p f i) (step p.bare f.bare i) := by
  cases i with
  | const index =>
    have hc : f.bare.constants[index]? = f.constants[index]? := rfl
    refine Alike.goOn ?_
    rw [hc]
    split
    · exact alike_push _
    · exact .fail _
  | pop => exact Alike.goOn (alike_pop.bind fun _ _ _ => .pure trivial)
  | dup =>
    refine Alike.goOn (.get fun s s' h => ?_)
    rw [h.task.stack_eq]
    split
    · exact alike_push _
    · exact .fail _
  | arith op kind =>
    refine Alike.goOn (alike_pop.bind fun b _ hb => alike_pop.bind fun a _ ha => ?_)
    subst hb ha
    rw [Linked.module_bare, Operator.arith_bare]
    exact (alike_ofExcept _).push
  | neg kind =>
    refine Alike.goOn (alike_pop.bind fun v _ hv => ?_)
    subst hv
    rw [Linked.module_bare, Operator.negate_bare]
    exact (alike_ofExcept _).push
  | order op kind =>
    refine Alike.goOn (alike_pop.bind fun b _ hb => alike_pop.bind fun a _ ha => ?_)
    subst hb ha
    rw [Linked.module_bare, Operator.order_bare]
    refine (alike_ofExcept _).bind fun r _ hr => ?_
    subst hr
    exact alike_push _
  | eq | ne =>
    refine Alike.goOn (alike_pop.bind fun b _ hb => alike_pop.bind fun a _ ha => ?_)
    subst hb ha
    exact alike_push _
  | not =>
    refine Alike.goOn (alike_popBool.bind fun b _ hb => ?_)
    subst hb
    exact alike_push _
  | cast target =>
    refine Alike.goOn (alike_pop.bind fun v _ hv => ?_)
    subst hv
    rw [Linked.module_bare, Operator.convert_bare]
    exact (alike_ofExcept _).push
  | format parts =>
    refine Alike.goOn ((alike_popMany parts).bind fun vs _ hvs => ?_)
    subst hvs
    have htext : Value.text p.bare.module = Value.text p.module := funext (Value.text_bare p.module)
    rw [htext]
    exact alike_push _
  | jump target | jumpIfFalse target | jumpIfTrue target => cases ht
  | loadCapture index =>
    refine Alike.goOn (.get fun s s' h => ?_)
    have hframes := h.task.frames
    have hcaptures : (s'.task.frames.head?.bind fun fr => fr.captures[index]?) =
        s.task.frames.head?.bind fun fr => fr.captures[index]? := by
      generalize s.task.frames = frames, s'.task.frames = frames' at hframes
      cases hframes with
      | nil => rfl
      | cons hfr _ =>
        rw [hfr.rest]
        rfl
    rw [hcaptures]
    split
    · exact alike_push _
    · exact .fail _
  | makeStruct type fields =>
    refine Alike.goOn ((alike_popMany fields).bind fun vs _ hvs => ?_)
    subst hvs
    exact alike_push _
  | getField index =>
    refine Alike.goOn (alike_pop.bind fun v _ hv => ?_)
    subst hv
    rw [Linked.module_bare, getField_bare]
    exact (alike_getField _ _).push
  | getFieldDynamic name =>
    refine Alike.goOn (alike_pop.bind fun v _ hv => ?_)
    subst hv
    rw [Linked.module_bare, getFieldDynamic_bare]
    exact (alike_getFieldDynamic _ _).push
  | makeClosure function captures =>
    refine Alike.goOn ((alike_popMany captures).bind fun vs _ hvs => ?_)
    subst hvs
    split <;> exact alike_push _
  | loadNative id => exact Alike.goOn (alike_push _)
  | call function args =>
    refine Alike.goOn ((alike_popMany args).bind fun vs _ hvs => ?_)
    subst hvs
    exact alike_enter _ _ _ _
  | callValue args =>
    refine Alike.goOn ((alike_popMany args).bind fun vs _ hvs => alike_pop.bind fun c _ hc => ?_)
    subst hvs hc
    exact alike_callValue hp _ _
  | callDynamic args =>
    refine Alike.goOn ((alike_popMany args).bind fun vs _ hvs => alike_pop.bind fun c _ hc => ?_)
    subst hvs hc
    exact alike_callDynamic hp _ _
  | callMethodDynamic method args =>
    refine Alike.goOn ((alike_popMany args).bind fun vs _ hvs => alike_pop.bind fun c _ hc => ?_)
    subst hvs hc
    exact alike_callMethod _ _ _
  | callNative id args =>
    refine Alike.goOn ((alike_popMany args).bind fun vs _ hvs => ?_)
    subst hvs
    exact (alike_callBuiltin hp _ _).push
  | ret => exact alike_leave
  | spawn function args =>
    refine Alike.goOn ((alike_popMany args).bind fun vs _ hvs => ?_)
    subst hvs
    exact alike_spawn _ _
  | await => exact alike_await
  | yieldNow => exact .pure rfl
  | box =>
    refine Alike.goOn (alike_pop.bind fun v _ hv => ?_)
    subst hv
    exact alike_push _
  | unbox tag =>
    refine Alike.goOn (alike_pop.bind fun v _ hv => ?_)
    subst hv
    rw [Linked.module_bare, unbox_bare]
    exact (alike_ofMistype _).push
  | _ => cases hi

end

end Exec

end ScopedScript
