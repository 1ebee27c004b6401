import ScopedScript.Proofs.Compile.Unobserved
import ScopedScript.Proofs.Evaluation.Correspondence

/-!
# Evaluations that a machine carries out

A machine carries an evaluation out when the task that runs comes, by instructions of its own, to a
state that has the value, or to the same fault with the same text written. While an evaluation runs
out of fuel the machine goes on, for as many instructions as there was fuel.
-/

namespace ScopedScript

theorem Eval.bind_apply (x : Eval α) (f : α → Eval β) (written : String) :
    (x >>= f) written = match x written with
      | .ok a written => f a written
      | .error stop written => .error stop written := by
  change EStateM.bind x f written = _
  unfold EStateM.bind
  cases x written <;> rfl

namespace Running

variable {p : Linked} {o s s' s'' : Running} {n k : Nat}

/-- The task that runs carries out so many instructions and goes on. -/
inductive Goes (p : Linked) : Nat → Running → Running → Prop
  | refl (s : Running) : Goes p 0 s s
  | step {n : Nat} {s s' s'' : Running} (h : Exec.next p s = .ok .goOn s') (h' : Goes p n s' s'') :
    Goes p (n + 1) s s''

theorem Goes.trans (h : Goes p n s s') (h' : Goes p k s' s'') : Goes p (n + k) s s'' := by
  induction h with
  | refl => rwa [Nat.zero_add]
  | @step n s s₁ s₂ hs _ ih =>
    rw [show n + 1 + k = n + k + 1 by omega]
    exact .step hs (ih h')

theorem step_of_next (h : Exec.next p s = .ok .goOn s') :
    (MachineState.busy s).Steps p (.busy s') := by
  rw [MachineState.Steps, MachineState.step, h]

theorem Goes.reaches (h : Goes p n s s') : (MachineState.busy s).Reaches p (.busy s') := by
  induction h with
  | refl s => exact .refl _
  | step hs _ ih => exact Relation.ReflTransGen.head (step_of_next hs) ih

theorem Goes.run (h : Goes p n s s') (k : Nat) :
    MachineState.run p (n + k) (.busy s) = MachineState.run p k (.busy s') := by
  induction h with
  | refl s => rw [Nat.zero_add]
  | @step n s s₁ s₂ hs _ ih =>
    rw [show n + 1 + k = n + k + 1 by omega, MachineState.run_succ_of_steps (step_of_next hs)]
    exact ih

/-- So many steps are not the whole run. -/
theorem Goes.run_none (h : Goes p n s s') (hk : k ≤ n) : MachineState.run p k (.busy s) = none := by
  induction h generalizing k with
  | refl s =>
    obtain rfl : k = 0 := Nat.eq_zero_of_le_zero hk
    rfl
  | step hs _ ih =>
    cases k with
    | zero => rfl
    | succ k =>
      rw [MachineState.run_succ_of_steps (step_of_next hs)]
      exact ih (Nat.le_of_succ_le_succ hk)

/-- The running task `o`, with these frames and operands, when this text has been written. -/
structure Shows (o : Running) (frames : List Frame) (stack : List Value) (written : String)
    (s : Running) : Prop where
  task : s.task = { o.task with frames, stack }
  scheduler : s.scheduler = o.scheduler
  output : s.output = written

variable {frames frames' : List Frame} {stack stack' : List Value} {written : String}

theorem Shows.frames_eq (h : o.Shows frames stack written s) :
    s.task.frames = frames := by rw [h.task]

theorem Shows.stack_eq (h : o.Shows frames stack written s) : s.task.stack = stack := by rw [h.task]

theorem Shows.withStack (h : o.Shows frames stack written s) (stack' : List Value) :
    o.Shows frames stack' written (s.withStack stack') :=
  ⟨by rw [Running.withStack, h.task], h.scheduler, h.output⟩

theorem Shows.withFrames (h : o.Shows frames stack written s) (frames' : List Frame) :
    o.Shows frames' stack written (s.withFrames frames') :=
  ⟨by rw [Running.withFrames, h.task], h.scheduler, h.output⟩

theorem Shows.writing (h : o.Shows frames stack written s) (text : String) :
    o.Shows frames stack (written ++ text) (s.writing text) :=
  ⟨h.task, h.scheduler, by rw [Running.writing, h.output]⟩

theorem Shows.releasing (h : o.Shows frames stack written s) (function : Nat)
    (released : Option (ReleaseKind × List Nat)) :
    o.Shows frames stack written (s.releasing p function released) :=
  ⟨by rw [task_releasing, h.task], by rw [scheduler_releasing, h.scheduler],
    by rw [output_releasing, h.output]⟩

/-- The next instruction enters a function with another number of arguments than it has parameters,
or is an internal fault. -/
inductive Misfits (p : Linked) (s o : Running) : Prop
  | enters {s' : Running} (h : Exec.next p s = .ok .goOn s')
    (hs : ¬ MachineState.EntersExactly p (.busy s) (.busy s'))
  | fails {s' : Running} {f : Fault} {m : Malformed} {frames : List Frame} {stack : List Value}
    {written : String} (h : Exec.next p s = .error (.fault f) s') (hf : f.cause = .malformed m)
    (hs : o.Shows frames stack written s')

end Running

/-- From this state on, the task that runs carries the evaluation out. The states that it may come
to with a value are given; without one, it has carried out `n` instructions or is trapped. -/
inductive Realizes (p : Linked) (o : Running) (n : Nat) (s : Running) {α : Type}
    (Q : α → String → Running → Prop) : EStateM.Result Stop String α → Prop
  | value {k : Nat} {s' : Running} {a : α} {written : String} (h : s.Goes p k s')
    (hQ : Q a written s') : Realizes p o n s Q (.ok a written)
  | trap {k : Nat} {s' s'' : Running} {t : Trap} {written : String} {frames : List Frame}
    {stack : List Value} (h : s.Goes p k s') (ht : Exec.next p s' = .error t s'')
    (hs : o.Shows frames stack written s'') : Realizes p o n s Q (.error (.trap t) written)
  | fuel {k : Nat} {s' : Running} {written : String} (h : s.Goes p k s') (hk : n ≤ k) :
    Realizes p o n s Q (.error .outOfFuel written)
  | misfit {k : Nat} {s' : Running} {written : String} (h : s.Goes p k s') (hm : s'.Misfits p o) :
    Realizes p o n s Q (.error .misfit written)

namespace Realizes

variable {p : Linked} {o s s' : Running} {n k : Nat} {Q Q' : α → String → Running → Prop}
  {R : β → String → Running → Prop} {r : EStateM.Result Stop String α} {written : String}

theorem weaken (h : Realizes p o n s Q r) (hQ : ∀ a written s, Q a written s → Q' a written s) :
    Realizes p o n s Q' r := by
  cases h with
  | value h hq => exact .value h (hQ _ _ _ hq)
  | trap h ht hs => exact .trap h ht hs
  | fuel h hk => exact .fuel h hk
  | misfit h hm => exact .misfit h hm

theorem mono (h : Realizes p o n s Q r) (hk : k ≤ n) : Realizes p o k s Q r := by
  cases h with
  | value h hq => exact .value h hq
  | trap h ht hs => exact .trap h ht hs
  | fuel h hn => exact .fuel h (hk.trans hn)
  | misfit h hm => exact .misfit h hm

/-- Some instructions first. -/
theorem goes (hs : s.Goes p k s') (h : Realizes p o n s' Q r) : Realizes p o (k + n) s Q r := by
  cases h with
  | value h hq => exact .value (hs.trans h) hq
  | trap h ht hs' => exact .trap (hs.trans h) ht hs'
  | fuel h hn => exact .fuel (hs.trans h) (Nat.add_le_add_left hn k)
  | misfit h hm => exact .misfit (hs.trans h) hm

/-- One instruction first. -/
theorem step (hs : Exec.next p s = .ok .goOn s') (h : Realizes p o n s' Q r) :
    Realizes p o (n + 1) s Q r :=
  (h.goes (.step hs (.refl s'))).mono (Nat.add_comm n 1).le

/-- Instructions that the evaluation does not count. -/
theorem after (hs : s.Goes p k s') (h : Realizes p o n s' Q r) : Realizes p o n s Q r :=
  (h.goes hs).mono (Nat.le_add_left n k)

theorem pure {a : α} (h : Q a written s) : Realizes p o n s Q ((Pure.pure a : Eval α) written) :=
  .value (.refl s) h

/-- A value that is known is come to. -/
theorem exists_goes {a : α} (h : Realizes p o n s Q (.ok a written)) :
    ∃ k s', s.Goes p k s' ∧ Q a written s' := by
  cases h with
  | value h hq => exact ⟨_, _, h, hq⟩

theorem bind {x : Eval α} {f : α → Eval β} (hx : Realizes p o n s Q (x written))
    (hf : ∀ a written s, Q a written s → Realizes p o n s R (f a written)) :
    Realizes p o n s R ((x >>= f) written) := by
  rw [Eval.bind_apply]
  generalize x written = r at hx
  cases hx with
  | value h hq => exact (hf _ _ _ hq).after h
  | trap h ht hs => exact .trap h ht hs
  | fuel h hk => exact .fuel h hk
  | misfit h hm => exact .misfit h hm

end Realizes

/-- The frame of a call that a machine carries out, apart from where it stands and what its slots
hold. -/
structure Seat where
  function : Nat
  code : FunctionCode
  captured : List Value
  base : Nat
  box : Bool
  callers : List Frame

namespace Seat

variable (c : Seat)

def frame (ip : Nat) (b : Bindings) : Frame := ⟨c.function, ip, b, c.captured, c.base, c.box⟩

def frames (ip : Nat) (b : Bindings) : List Frame := c.frame ip b :: c.callers

/-- The call that is evaluated meanwhile. -/
def activation : Activation := ⟨c.code.name, c.code.captures, c.captured, c.callers.length + 1⟩

/-- The frame stands at an instruction, with these bindings and operands. -/
def Stands (o : Running) (ip : Nat) (b : Bindings) (stack : List Value) : String → Running → Prop :=
  o.Shows (c.frames ip b) stack

/-- The frame is about to return the value. -/
def Returns (o : Running) (stack : List Value) (v : Value) (written : String)
    (s : Running) : Prop :=
  ∃ ip b span, c.Stands o ip b (v :: stack) written s ∧ c.code.Has ip .ret span

end Seat

/-! ## One instruction -/

section

variable {p : Linked} {c : Seat} {o s : Running} {ip : Nat} {b : Bindings}
  {stack rest ops : List Value} {written : String} {i : Instr} {span : Option Span}

/-- What the next instruction does, in the frame past it. -/
theorem Seat.Stands.next (hs : c.Stands o ip b stack written s)
    (hc : p.module.functions[c.function]? = some c.code) (hi : c.code.Has ip i span) :
    ∃ s', c.Stands o (ip + 1) b stack written s' ∧ Exec.next p s =
      EStateM.adaptExcept (fun t : Trap => t.located span c.code.name)
        (Exec.step p c.code i) s' := by
  refine ⟨_, hs.withFrames (c.frames (ip + 1) b), ?_⟩
  rw [Exec.next_apply hs.frames_eq hc hi.1]
  have hspan : c.code.spanAt ip = span := by rw [FunctionCode.spanAt, hi.2, Option.join_some]
  rw [show (c.frame ip b).ip = ip from rfl, hspan]
  rfl

theorem adaptExcept_ok {f : Trap → Trap} {x : Exec Flow} {s' : Running} {flow : Flow}
    (h : x s = .ok flow s') : EStateM.adaptExcept f x s = .ok flow s' := by
  unfold EStateM.adaptExcept
  rw [h]

theorem adaptExcept_error {f : Trap → Trap} {x : Exec Flow} {s' : Running} {t : Trap}
    (h : x s = .error t s') : EStateM.adaptExcept f x s = .error (f t) s' := by
  unfold EStateM.adaptExcept
  rw [h]

/-- An instruction that works on bindings, where the operation has an answer. -/
theorem Seat.Stands.rebind (ops : List Value) (v : Option Value)
    (released : Option (ReleaseKind × List Nat))
    (hs : c.Stands o ip b (ops.reverse ++ rest) written s)
    (hc : p.module.functions[c.function]? = some c.code) (hi : c.code.Has ip i span)
    {act : BindingM (Option Value × Option (ReleaseKind × List Nat))}
    (hr : i.rebind? ops = some act) {b' : Bindings} (ha : act b = .ok (v, released) b') :
    ∃ s', Exec.next p s = .ok .goOn s' ∧ c.Stands o (ip + 1) b' (v.toList ++ rest) written s' := by
  obtain ⟨s₁, hs₁, hnext⟩ := hs.next hc hi
  have hstep := Exec.step_rebind (p := p) (f := c.code) hs₁.frames_eq hr hs₁.stack_eq
  rw [show (c.frame (ip + 1) b).bindings = b from rfl, ha] at hstep
  refine ⟨_, hnext.trans (adaptExcept_ok hstep), ?_⟩
  exact ((hs₁.withStack _).withFrames _).releasing _ _

/-- A jump. -/
theorem Seat.Stands.jump (hs : c.Stands o ip b stack written s)
    (hc : p.module.functions[c.function]? = some c.code) {target : Nat}
    (hi : c.code.Has ip (.jump target) span) :
    ∃ s', Exec.next p s = .ok .goOn s' ∧ c.Stands o target b stack written s' := by
  obtain ⟨s₁, hs₁, hnext⟩ := hs.next hc hi
  exact ⟨_, hnext.trans (adaptExcept_ok (Exec.step_jump target hs₁.frames_eq)), hs₁.withFrames _⟩

theorem Seat.Stands.pop {v : Value} (hs : c.Stands o ip b (v :: rest) written s)
    (hc : p.module.functions[c.function]? = some c.code) (hi : c.code.Has ip .pop span) :
    ∃ s', Exec.next p s = .ok .goOn s' ∧ c.Stands o (ip + 1) b rest written s' := by
  obtain ⟨s₁, hs₁, hnext⟩ := hs.next hc hi
  exact ⟨_, hnext.trans (adaptExcept_ok (Exec.step_pop hs₁.stack_eq)), hs₁.withStack _⟩

theorem Seat.Stands.dup {v : Value} (hs : c.Stands o ip b (v :: rest) written s)
    (hc : p.module.functions[c.function]? = some c.code) (hi : c.code.Has ip .dup span) :
    ∃ s', Exec.next p s = .ok .goOn s' ∧ c.Stands o (ip + 1) b (v :: v :: rest) written s' := by
  obtain ⟨s₁, hs₁, hnext⟩ := hs.next hc hi
  exact ⟨_, hnext.trans (adaptExcept_ok (Exec.step_dup hs₁.stack_eq)), hs₁.withStack _⟩

/-- A fault at a place of the tree, and where its code fails. -/
theorem Realizes.fault {n : Nat} {Q : α → String → Running → Prop} {cause : FaultCause}
    {s₁ : Running} (hnext : Exec.next p s = .error (.fault ⟨cause, span, some c.code.name⟩) s₁)
    (hs : c.Stands o ip b stack written s₁) :
    Realizes p o n s Q (Evaluator.fault c.activation span cause written) :=
  .trap (.refl s) hnext hs

/-- A conditional jump goes on one way or the other, where the condition is one. -/
theorem Seat.Stands.branch {v : Value} (hs : c.Stands o ip b (v :: rest) written s)
    (hc : p.module.functions[c.function]? = some c.code) {target : Nat} {wanted : Bool}
    (hwanted : i = .jumpIfFalse target ∧ wanted = false ∨ i = .jumpIfTrue target ∧ wanted = true)
    (hi : c.code.Has ip i span) {n : Nat} {f : Bool → Eval α} {R : α → String → Running → Prop}
    (hf : ∀ held s, c.Stands o (if held = wanted then target else ip + 1) b rest written s →
      Realizes p o n s R (f held written)) :
    Realizes p o (n + 1) s R ((Evaluator.holds c.activation span v >>= f) written) := by
  obtain ⟨s₁, hs₁, hnext⟩ := hs.next hc hi
  have hstep := Exec.step_jumpIf (p := p) (f := c.code) hwanted hs₁.frames_eq hs₁.stack_eq
  unfold Evaluator.holds
  cases hv : v.unboxed with
  | bool held =>
    rw [hv] at hstep
    refine .step (hnext.trans (adaptExcept_ok hstep)) (hf held _ ?_)
    split
    · exact (hs₁.withStack rest).withFrames _
    · exact hs₁.withStack rest
  | _ =>
    rw [hv] at hstep
    exact .trap (.refl s) (hnext.trans (adaptExcept_error hstep)) (hs₁.withStack rest)

/-- A frame that returns hands its value to its caller. -/
theorem Seat.Returns.step {v : Value} (h : c.Returns o stack v written s)
    (hc : p.module.functions[c.function]? = some c.code) (hbase : c.base = stack.length)
    (hcallers : c.callers ≠ []) : ∃ s', Exec.next p s = .ok .goOn s' ∧
      o.Shows c.callers ((if c.box then v.boxed else v) :: stack) written s' := by
  obtain ⟨ip, b, span, hs, hi⟩ := h
  obtain ⟨s₁, hs₁, hnext⟩ := hs.next hc hi
  have hstep := Exec.step_ret (p := p) (f := c.code) hs₁.frames_eq hs₁.stack_eq
  have hdrop : stack.drop (stack.length - c.base) = stack := by
    rw [hbase, Nat.sub_self, List.drop_zero]
  dsimp only at hstep
  rw [if_neg hcallers, show (c.frame (ip + 1) b).stackBase = c.base from rfl, hdrop] at hstep
  refine ⟨_, hnext.trans (adaptExcept_ok hstep), ?_⟩
  exact ((hs₁.withStack _).withFrames _).releasing _ _

/-- A frame without a caller ends its task with the value. -/
theorem Seat.Returns.finish {v : Value} (h : c.Returns o stack v written s)
    (hc : p.module.functions[c.function]? = some c.code) (hcallers : c.callers = []) :
    ∃ s', Exec.next p s = .ok (.finished (if c.box then v.boxed else v)) s' ∧
      o.Shows [] (stack.drop (stack.length - c.base)) written s' := by
  obtain ⟨ip, b, span, hs, hi⟩ := h
  obtain ⟨s₁, hs₁, hnext⟩ := hs.next hc hi
  have hstep := Exec.step_ret (p := p) (f := c.code) hs₁.frames_eq hs₁.stack_eq
  dsimp only at hstep
  rw [if_pos hcallers, hcallers] at hstep
  exact ⟨_, hnext.trans (adaptExcept_ok hstep), ((hs₁.withStack _).withFrames _).releasing _ _⟩

/-- A frame that got another number of arguments was not entered as it should be. -/
theorem not_entersExactly {id n base : Nat} {g : FunctionCode} {fr : Frame}
    {args captured : List Value} {box : Bool} {s' : Running} {stack' : List Value}
    {written' : String} (hg : p.module.functions[id]? = some g) (hargs : args.length ≠ g.arity)
    (henter : Frame.enter id g args captured base box = .ok fr)
    (hs : c.Stands o ip b stack written s) (hs' : o.Shows (fr :: c.frames n b) stack' written' s') :
    ¬ MachineState.EntersExactly p (.busy s) (.busy s') := by
  intro hexact
  have hid : s'.task.id = s.task.id := by rw [hs.task, hs'.task]
  have hbefore : (MachineState.busy s).frameAt s.task.id (c.frames n b).length = none := by
    rw [MachineState.frameAt, MachineState.framesOf, if_pos rfl, hs.frames_eq,
      List.getElem?_eq_none_iff, List.length_reverse]
    exact le_rfl
  have hafter : (MachineState.busy s').frameAt s.task.id (c.frames n b).length = some fr := by
    rw [← hid]
    exact MachineState.frameAt_innermost hs'.frames_eq
  obtain ⟨g', args', captured', base', box', hg', hargs', henter'⟩ := hexact _ _ _ hbefore hafter
  have hfunction := (Frame.enter_place henter).1
  rw [hfunction, hg] at hg'
  cases hg'
  have hscopes := (Frame.fresh_enter henter).2.2
  rw [(Frame.fresh_enter henter').2.2] at hscopes
  have hlength := congrArg List.length (List.cons.inj hscopes).1
  simp only [List.length_reverse, List.length_range] at hlength
  exact hargs (hlength.symm.trans hargs')

end

end ScopedScript
