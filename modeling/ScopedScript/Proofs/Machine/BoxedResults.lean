import ScopedScript.Proofs.Machine.Reframed
import ScopedScript.Proofs.Machine.Scheduling

/-!
# Frames that box their results

A frame that is entered by a call through `any` boxes its result and is otherwise the frame that a
call of known type enters. Two machines that differ in this only take the same steps, whatever other
tasks do in between, until the frame is left: then the one hands the result to the caller and the
other hands it the box of the result.
-/

namespace ScopedScript

/-- The second frames are the first ones, but the first frame above `callers` boxes its result. -/
inductive Frame.Boxing (callers : List Frame) : List Frame → List Frame → Prop
  | here (fr : Frame) : Boxing callers (fr :: callers) ({ fr with boxResult := true } :: callers)
  | above (fr : Frame) {l l' : List Frame} (h : Boxing callers l l') :
    Boxing callers (fr :: l) (fr :: l')

/-- In the frames of the task `k` one frame boxes its result; the frames of other tasks are the
same. -/
def Frame.BoxingIn (k : Nat) (callers : List Frame) : FrameRelation := fun id l l' =>
  id = k ∧ Boxing callers l l' ∨ id ≠ k ∧ l' = l

namespace Frame.BoxingIn

variable {k id : Nat} {callers l l' : List Frame} {fr : Frame}

theorem other (hid : id ≠ k) (l : List Frame) : BoxingIn k callers id l l := .inr ⟨hid, rfl⟩

theorem push (h : BoxingIn k callers id l l') (fr : Frame) :
    BoxingIn k callers id (fr :: l) (fr :: l') := by
  rcases h with ⟨hid, h⟩ | ⟨hid, rfl⟩
  · exact .inl ⟨hid, .above fr h⟩
  · exact .other hid _

theorem length_eq (h : BoxingIn k callers id l l') : l'.length = l.length := by
  rcases h with ⟨-, h⟩ | ⟨-, rfl⟩
  · induction h with
    | here fr => rfl
    | above fr _ ih => exact congrArg (· + 1) ih
  · rfl

/-- The innermost frames are the same but for the box. Either they leave frames of which this is
true again, or it is the frame that boxes its result. -/
theorem innermost (h : BoxingIn k callers id (fr :: l) l') : ∃ box below,
    l' = { fr with boxResult := box } :: below ∧
      (∀ ip bindings, BoxingIn k callers id ({ fr with ip, bindings } :: l)
        ({ fr with ip, bindings, boxResult := box } :: below)) ∧
      (box = fr.boxResult ∧ BoxingIn k callers id l below ∨
        box = true ∧ id = k ∧ l = callers ∧ below = callers) := by
  rcases h with ⟨hid, h⟩ | ⟨hid, rfl⟩
  · cases h with
    | here => exact ⟨true, callers, rfl, fun _ _ => .inl ⟨hid, .here _⟩, .inr ⟨rfl, hid, rfl, rfl⟩⟩
    | above _ h =>
      exact ⟨fr.boxResult, _, rfl, fun _ _ => .inl ⟨hid, .above _ h⟩, .inl ⟨rfl, .inl ⟨hid, h⟩⟩⟩
  · exact ⟨fr.boxResult, l, rfl, fun _ _ => .other hid _, .inl ⟨rfl, .other hid _⟩⟩

end Frame.BoxingIn

/-! ## Machines -/

/-- The second machine has the tasks of the first with other frames. -/
structure Machine.Reframed (F : FrameRelation) (m m' : Machine) : Prop where
  scheduler : m.scheduler.Reframed F m'.scheduler
  output : m'.output = m.output
  releases : m'.releases = m.releases

structure Running.Reframed (F : FrameRelation) (s s' : Running) : Prop where
  machine : s.toMachine.Reframed F s'.toMachine
  task : s.task.Reframed F s'.task

variable {F : FrameRelation}

theorem Machine.Reframed.record {m m' : Machine} (h : m.Reframed F m') (p : Linked) (function : Nat)
    (kind : ReleaseKind) (slots : List Nat) :
    (m.record p function kind slots).Reframed F (m'.record p function kind slots) where
  scheduler := by
    rw [scheduler_record, scheduler_record]
    exact h.scheduler
  output := by
    rw [output_record, output_record]
    exact h.output
  releases := by
    unfold Machine.record
    split
    · dsimp only
      rw [h.releases]
    · exact h.releases

namespace Running.Reframed

variable {s s' : Running}

theorem withStack (h : s.Reframed F s') (stack : List Value) :
    (s.withStack stack).Reframed F (s'.withStack stack) where
  machine := h.machine
  task := ⟨h.task.frames, by
    conv_lhs => rw [Running.withStack, h.task.rest]
    rfl⟩

theorem withFrames (h : s.Reframed F s') {l l' : List Frame} (hl : F s.task.id l l') :
    (s.withFrames l).Reframed F (s'.withFrames l') := ⟨h.machine, h.task.withFrames hl⟩

theorem writing (h : s.Reframed F s') (text : String) :
    (s.writing text).Reframed F (s'.writing text) :=
  ⟨⟨h.machine.scheduler, congrArg (· ++ text) h.machine.output, h.machine.releases⟩, h.task⟩

theorem withScheduler (h : s.Reframed F s') {sch sch' : Scheduler} (hs : sch.Reframed F sch') :
    Running.Reframed F { s with scheduler := sch } { s' with scheduler := sch' } :=
  ⟨⟨hs, h.machine.output, h.machine.releases⟩, h.task⟩

theorem releasing (h : s.Reframed F s') (p : Linked) (function : Nat)
    (released : Option (ReleaseKind × List Nat)) :
    (s.releasing p function released).Reframed F (s'.releasing p function released) := by
  rcases released with - | ⟨kind, slots⟩
  · exact h
  · exact ⟨h.machine.record p function kind slots, h.task⟩

end Running.Reframed

/-! ## Instructions that lack operands -/

namespace Exec

variable {p : Linked} {f : FunctionCode} {s : Running}

theorem splitTop_eq_none {n : Nat} {stack : List Value} (taken : List Value)
    (h : stack.length < n) : splitTop taken n stack = none := by
  induction n generalizing taken stack with
  | zero => cases h
  | succ n ih =>
    cases stack with
    | nil => rfl
    | cons v rest => exact ih (v :: taken) (Nat.lt_of_succ_lt_succ h)

theorem pop_empty (hs : s.task.stack = []) :
    pop s = .error (.fault (.of (.malformed .underflow))) s := by
  rw [pop, bind_apply, get_apply]
  simp only [hs]
  rfl

theorem popMany_short {n : Nat} (hs : s.task.stack.length < n) :
    popMany n s = .error (.fault (.of (.malformed .underflow))) s := by
  rw [popMany, bind_apply, get_apply]
  simp only [splitTop_eq_none [] hs]
  rfl

/-- An instruction that has not as many operands as it takes drops some of them and fails. -/
theorem step_short {i : Instr} (h : s.task.stack.length < i.pops) :
    ∃ t l, ∀ s' : Running, s'.task.stack = s.task.stack →
    step p f i s' = .error t (s'.withStack l) := by
  have one (h : s.task.stack.length < 1) (s' : Running) (hs : s'.task.stack = s.task.stack) :
      pop s' = .error (.fault (.of (.malformed .underflow))) (s'.withStack []) := by
    have hnil : s'.task.stack = [] := List.length_eq_zero_iff.1 (by rw [hs]; omega)
    rw [pop_empty hnil, ← hnil]
    rfl
  have two (y : Value → Value → Exec Unit) (h : s.task.stack.length < 2) (s' : Running)
      (hs : s'.task.stack = s.task.stack) :
      goOn (do let b ← pop; let a ← pop; y b a) s' =
        .error (.fault (.of (.malformed .underflow))) (s'.withStack []) := by
    match hl : s'.task.stack with
    | [] =>
      rw [goOn_apply, bind_apply, pop_empty hl, ← hl]
      rfl
    | [v] =>
      rw [goOn_pop hl, goOn_apply, bind_apply, pop_empty rfl]
    | _ :: _ :: _ =>
      rw [← hs, hl] at h
      simp at h
  have many (n : Nat) (h : s.task.stack.length < n) (s' : Running)
      (hs : s'.task.stack = s.task.stack) :
      popMany n s' = .error (.fault (.of (.malformed .underflow))) (s'.withStack s.task.stack) := by
    rw [popMany_short (hs ▸ h), ← hs]
    rfl
  -- there may be as many arguments, but no callee below them
  have callee (n : Nat) (y : List Value → Value → Exec Unit) (h : s.task.stack.length < n + 1) :
      ∃ l, ∀ s' : Running, s'.task.stack = s.task.stack →
        goOn (do let args ← popMany n; let c ← pop; y args c) s' =
          .error (.fault (.of (.malformed .underflow))) (s'.withStack l) := by
    by_cases hn : s.task.stack.length < n
    · refine ⟨s.task.stack, fun s' hs => ?_⟩
      rw [goOn_apply, bind_apply, many n hn s' hs]
    · refine ⟨[], fun s' hs => ?_⟩
      have hlen : s.task.stack.reverse.length = n := by rw [List.length_reverse]; omega
      have hsplit : s'.task.stack = s.task.stack.reverse.reverse ++ [] := by simp [hs]
      rw [goOn_popMany hlen hsplit, goOn_apply, bind_apply, pop_empty rfl]
  cases i with
  | arith _ _ | order _ _ | eq | ne => exact ⟨_, _, two _ h⟩
  | callValue n | callDynamic n | callMethodDynamic _ n => exact ⟨_, callee n _ h⟩
  | format n | makeStruct _ n | makeClosure _ n | call _ n | callNative _ n | spawn _ n =>
    refine ⟨.fault (.of (.malformed .underflow)), s.task.stack, fun s' hs => ?_⟩
    rw [step, goOn_apply, bind_apply, many n h s' hs]
  | pop | neg _ | cast _ | declare _ | store _ | storeField _ _ | getField _
  | getFieldDynamic _ | box | unbox _ =>
    refine ⟨.fault (.of (.malformed .underflow)), [], fun s' hs => ?_⟩
    rw [step, goOn_apply, bind_apply, one h s' hs]
  | not | jumpIfFalse _ | jumpIfTrue _ =>
    refine ⟨.fault (.of (.malformed .underflow)), [], fun s' hs => ?_⟩
    rw [step, goOn_apply, bind_apply, popBool, bind_apply, one h s' hs]
  | ret =>
    refine ⟨.fault (.of (.malformed .underflow)), [], fun s' hs => ?_⟩
    rw [step, leave, bind_apply, one h s' hs]
  | await =>
    refine ⟨.fault (.of (.malformed .underflow)), [], fun s' hs => ?_⟩
    rw [step, await, bind_apply, one h s' hs]
  | dup =>
    refine ⟨.fault (.of (.malformed .emptyDup)), [], fun s' hs => ?_⟩
    have hnil : s'.task.stack = [] :=
      List.length_eq_zero_iff.1 (by rw [hs]; exact Nat.lt_one_iff.1 h)
    rw [step, goOn_apply, bind_apply, get_apply]
    simp only [hnil]
    conv_rhs => rw [← hnil]
    rfl
  | _ => exact absurd h (Nat.not_lt_zero _)

end Exec

/-! ## Steps of the running task -/

namespace Exec

/-- How an instruction ends without and with the box. The machines differ in the box again, unless
the frame has been left and its result handed to the caller. -/
inductive Agrees (k : Nat) (callers : List Frame) :
    EStateM.Result Trap Running Flow → EStateM.Result Trap Running Flow → Prop
  | goesOn {s s' : Running} (h : s.Reframed (Frame.BoxingIn k callers) s') :
    Agrees k callers (.ok .goOn s) (.ok .goOn s')
  | stops {flow : Flow} (hflow : flow = .yielded ∨ flow = .suspended) {s s' : Running}
    (h : s.Reframed (Frame.BoxingIn k callers) s') : Agrees k callers (.ok flow s) (.ok flow s')
  | finished (v : Value) {s s' : Running} (hid : s.task.id ≠ k)
    (h : s.Reframed (Frame.BoxingIn k callers) s') :
    Agrees k callers (.ok (.finished v) s) (.ok (.finished v) s')
  | error (t : Trap) {s s' : Running} (h : s.Reframed (Frame.BoxingIn k callers) s') :
    Agrees k callers (.error t s) (.error t s')
  | returned (v : Value) (l : List Value) {s s' : Running} (hid : s.task.id = k)
    (hs : s.task.frames = callers) (htask : s'.task = s.task)
    (h : s.toMachine.Reframed (Frame.BoxingIn k callers) s'.toMachine) :
    Agrees k callers (.ok .goOn (s.withStack (v :: l))) (.ok .goOn (s'.withStack (v.boxed :: l)))

variable {p : Linked} {f : FunctionCode} {i : Instr} {s s' : Running} {k : Nat}
  {callers l l' : List Frame} {fr : Frame} {box : Bool} {ops rest : List Value}

theorem agrees_perform (r : Reaction) (h : s.Reframed (Frame.BoxingIn k callers) s') :
    Agrees k callers (perform p r s) (perform p r s') := by
  cases r with
  | value v =>
    have hpush := h.withStack (v :: s.task.stack)
    rw [perform, goOn_apply, goOn_apply, push_apply, push_apply, h.task.stack_eq]
    exact .goesOn hpush
  | fails cause => exact .error _ h
  | lost type => exact .error _ h
  | enter function args captures box =>
    rw [perform, goOn_apply, goOn_apply, enter_apply, enter_apply, h.task.frames.length_eq,
      h.task.stack_eq]
    by_cases hdepth : p.config.maxCallDepth ≤ s.task.frames.length
    · rw [if_pos hdepth, if_pos hdepth]
      exact .error _ h
    · rw [if_neg hdepth, if_neg hdepth]
      cases p.module.functions[function]? with
      | none => exact .error _ h
      | some g =>
        dsimp only
        cases Frame.enter function g args captures s.task.stack.length box with
        | error e => exact .error _ h
        | ok new => exact .goesOn (h.withFrames (h.task.frames.push new))

/-- Two innermost frames that are the same but for the box. -/
structure SideBySide (k : Nat) (callers : List Frame) (fr : Frame) (l : List Frame) (box : Bool)
    (l' : List Frame) (s s' : Running) : Prop where
  reframed : s.Reframed (Frame.BoxingIn k callers) s'
  frames : s.task.frames = fr :: l
  frames' : s'.task.frames = { fr with boxResult := box } :: l'
  moved : ∀ ip bindings, Frame.BoxingIn k callers s.task.id ({ fr with ip, bindings } :: l)
    ({ fr with ip, bindings, boxResult := box } :: l')
  left : box = fr.boxResult ∧ Frame.BoxingIn k callers s.task.id l l' ∨
    box = true ∧ s.task.id = k ∧ l = callers ∧ l' = callers

theorem sideBySide (h : s.Reframed (Frame.BoxingIn k callers) s') (hs : s.task.frames = fr :: l) :
    ∃ box l', SideBySide k callers fr l box l' s s' := by
  obtain ⟨box, l', hs', hmoved, hleft⟩ := (hs ▸ h.task.frames).innermost
  exact ⟨box, l', h, hs, hs', hmoved, hleft⟩

namespace SideBySide

variable (h : SideBySide k callers fr l box l' s s')

include h

theorem stack_eq : s'.task.stack = s.task.stack := h.reframed.task.stack_eq

theorem agrees_rebind {act : BindingM (Option Value × Option (ReleaseKind × List Nat))}
    (hr : i.rebind? ops = some act) (hstack : s.task.stack = ops.reverse ++ rest) :
    Agrees k callers (step p f i s) (step p f i s') := by
  rw [step_rebind h.frames hr hstack, step_rebind h.frames' hr (h.stack_eq.trans hstack)]
  dsimp only
  cases act fr.bindings with
  | error e b => exact .error _ ((h.reframed.withStack rest).withFrames (h.moved fr.ip b))
  | ok r b =>
    obtain ⟨v, released⟩ := r
    exact .goesOn
      (((h.reframed.withStack (v.toList ++ rest)).withFrames (h.moved fr.ip b)).releasing p
      fr.function released)

theorem agrees_jumpIf {target : Nat} {wanted : Bool} {v : Value}
    (hi : i = .jumpIfFalse target ∧ wanted = false ∨ i = .jumpIfTrue target ∧ wanted = true)
    (hstack : s.task.stack = v :: rest) : Agrees k callers (step p f i s) (step p f i s') := by
  rw [step_jumpIf hi h.frames hstack, step_jumpIf hi h.frames' (h.stack_eq.trans hstack)]
  cases v.unboxed with
  | bool b =>
    dsimp only
    split
    · exact .goesOn ((h.reframed.withStack rest).withFrames (h.moved target fr.bindings))
    · exact .goesOn (h.reframed.withStack rest)
  | _ => exact .error _ (h.reframed.withStack rest)

/-- The frame hands over its result, or the box of it. -/
theorem agrees_ret (hc : callers ≠ []) {v : Value} (hstack : s.task.stack = v :: rest) :
    Agrees k callers (step p f .ret s) (step p f .ret s') := by
  rw [step_ret h.frames hstack, step_ret h.frames' (h.stack_eq.trans hstack)]
  dsimp only
  have below (stack : List Value) (hl : Frame.BoxingIn k callers s.task.id l l') :=
    ((h.reframed.withStack stack).withFrames hl).releasing p fr.function
      (some (.scopeExit, fr.bindings.exitAll.2))
  rcases h.left with ⟨rfl, hl⟩ | ⟨rfl, hid, rfl, rfl⟩
  · have hnil : l' = [] ↔ l = [] := by
      rw [← List.length_eq_zero_iff, ← List.length_eq_zero_iff, hl.length_eq]
    by_cases hempty : l = []
    · rw [if_pos hempty, if_pos (hnil.2 hempty)]
      -- a frame that has callers is left before its task ends
      have hid : s.task.id ≠ k := by
        rintro hid
        rcases hl with ⟨-, hl⟩ | ⟨hne, -⟩
        · rw [hempty] at hl
          cases hl
        · exact hne hid
      exact .finished _ (by rwa [Running.task_releasing]) (below _ hl)
    · rw [if_neg hempty, if_neg (mt hnil.1 hempty)]
      exact .goesOn (below _ hl)
  · rw [if_neg hc, if_neg hc, if_pos rfl]
    have hboxed : v.boxed = (if fr.boxResult then v.boxed else v).boxed := by split <;> simp
    generalize hw : (if fr.boxResult then v.boxed else v) = w at hboxed ⊢
    rw [hboxed]
    let left (r : Running) : Running :=
      ((r.withStack rest).withFrames l').releasing p fr.function
        (some (.scopeExit, fr.bindings.exitAll.2))
    have htask : (left s').task = (left s).task := by
      have hrest : s'.task = { s.task with frames := s'.task.frames } := h.reframed.task.rest
      change { s'.task with frames := l', stack := rest } =
        { s.task with frames := l', stack := rest }
      rw [hrest]
    have hmachine : (left s).toMachine.Reframed (Frame.BoxingIn k l') (left s').toMachine :=
      h.reframed.machine.record p fr.function .scopeExit fr.bindings.exitAll.2
    have hreturned (l : List Value) : Agrees k l' (.ok .goOn ((left s).withStack (w :: l)))
        (.ok .goOn ((left s').withStack (w.boxed :: l))) := .returned w l hid rfl htask hmachine
    exact hreturned _

theorem agrees_await {v : Value} (hstack : s.task.stack = v :: rest) :
    Agrees k callers (step p f .await s) (step p f .await s') := by
  have hrest := h.reframed.withStack rest
  have hobserved (id : Nat) := h.reframed.machine.scheduler.modifyTask id
    (g := fun t => { t with observed := true }) (fun _ => rfl) (fun _ => rfl) fun _ _ => rfl
  rw [step_await hstack, step_await (h.stack_eq.trans hstack), h.reframed.task.id_eq]
  cases v.unboxed with
  | task id =>
    dsimp only
    split
    · exact .error _ hrest
    · cases ht : s.scheduler.get? id with
      | none =>
        rw [h.reframed.machine.scheduler.get?_eq_none ht]
        exact .error _ hrest
      | some target =>
        obtain ⟨target', ht', htarget⟩ := h.reframed.machine.scheduler.get?_eq_some ht
        rw [ht']
        dsimp only
        rw [Task.isCompleted, Task.isCompleted, htarget.state_eq, htarget.result_eq]
        split
        · rcases target.result with - | g | w
          · exact .error _ (hrest.withScheduler (hobserved id))
          · exact .error _ (hrest.withScheduler (hobserved id))
          · exact .goesOn ((h.reframed.withStack (w :: rest)).withScheduler (hobserved id))
        · refine .stops (.inr rfl) (hrest.withScheduler ?_)
          exact h.reframed.machine.scheduler.modifyTask id
            (g := fun t => { t with waiters := t.waiters ++ [s.task.id] })
            (fun _ => rfl) (fun _ => rfl) fun _ _ => rfl
  | _ => exact .error _ hrest

theorem agrees_spawn (hk : k < s.scheduler.tasks.size) (function : Nat)
    (hstack : s.task.stack = ops.reverse ++ rest) :
    Agrees k callers (step p f (.spawn function ops.length) s)
      (step p f (.spawn function ops.length) s') := by
  have hrest := h.reframed.withStack rest
  rw [step_spawn function ops hstack, step_spawn function ops (h.stack_eq.trans hstack),
    h.reframed.machine.scheduler.size]
  cases p.module.functions[function]? with
  | none => exact .error _ hrest
  | some g =>
    dsimp only
    cases Frame.enter function g ops [] 0 false with
    | error e => exact .error _ hrest
    | ok new =>
      exact .goesOn ((h.reframed.withStack (.task s.scheduler.tasks.size :: rest)).withScheduler
        (h.reframed.machine.scheduler.spawn (.other hk.ne' [new])))

/-- An instruction does not look at the box unless it leaves the frame. -/
theorem agrees_step (hc : callers ≠ []) (hk : k < s.scheduler.tasks.size) :
    Agrees k callers (step p f i s) (step p f i s') := by
  by_cases hshort : s.task.stack.length < i.pops
  · obtain ⟨t, stack, hfail⟩ := step_short (p := p) (f := f) hshort
    rw [hfail s rfl, hfail s' h.stack_eq]
    exact .error _ (h.reframed.withStack stack)
  obtain ⟨ops, rest, hn, hstack⟩ : ∃ ops rest : List Value,
      ops.length = i.pops ∧ s.task.stack = ops.reverse ++ rest := by
    refine ⟨(s.task.stack.take i.pops).reverse, s.task.stack.drop i.pops, ?_, ?_⟩
    · rw [List.length_reverse, List.length_take]
      omega
    · rw [List.reverse_reverse, List.take_append_drop]
  have hstack' := h.stack_eq.trans hstack
  have one_eq (h : ops.length = 1) : ∃ v, s.task.stack = v :: rest := by
    obtain ⟨v, rfl⟩ := List.length_eq_one_iff.1 h
    exact ⟨v, hstack⟩
  by_cases hreact : i.reacts = true
  · obtain ⟨w, r, hr⟩ : ∃ w r, i.react? p f fr.captures ops = some (w, r) :=
      Instr.exists_react hreact hn
    rw [step_react h.frames hr hn hstack, step_react h.frames' hr hn hstack']
    exact agrees_perform r ((h.reframed.withStack rest).writing w)
  by_cases hbind : i.binds = true
  · obtain ⟨act, hr⟩ := Instr.exists_rebind hbind hn
    exact h.agrees_rebind hr hstack
  cases i with
  | pop =>
    obtain ⟨v, hv⟩ := one_eq hn
    rw [step_pop hv, step_pop (h.stack_eq.trans hv)]
    exact .goesOn (h.reframed.withStack rest)
  | dup =>
    obtain ⟨v, hv⟩ := one_eq hn
    rw [step_dup hv, step_dup (h.stack_eq.trans hv)]
    exact .goesOn (h.reframed.withStack (v :: v :: rest))
  | jump target =>
    rw [step_jump target h.frames, step_jump target h.frames']
    exact .goesOn (h.reframed.withFrames (h.moved target fr.bindings))
  | jumpIfFalse target =>
    obtain ⟨v, hv⟩ := one_eq hn
    exact h.agrees_jumpIf (.inl ⟨rfl, rfl⟩) hv
  | jumpIfTrue target =>
    obtain ⟨v, hv⟩ := one_eq hn
    exact h.agrees_jumpIf (.inr ⟨rfl, rfl⟩) hv
  | ret =>
    obtain ⟨v, hv⟩ := one_eq hn
    exact h.agrees_ret hc hv
  | spawn function n =>
    obtain rfl : ops.length = n := hn
    exact h.agrees_spawn hk function hstack
  | await =>
    obtain ⟨v, hv⟩ := one_eq hn
    exact h.agrees_await hv
  | yieldNow => exact .stops (.inl rfl) h.reframed
  | _ => first | exact absurd rfl hreact | exact absurd rfl hbind

end SideBySide

theorem Agrees.located {x x' : Exec Flow} (h : Agrees k callers (x s) (x' s')) (span : Option Span)
    (name : String) :
    Agrees k callers (EStateM.adaptExcept (fun t : Trap => t.located span name) x s)
      (EStateM.adaptExcept (fun t : Trap => t.located span name) x' s') := by
  unfold EStateM.adaptExcept
  generalize x s = r, x' s' = r' at h
  cases h with
  | goesOn h => exact .goesOn h
  | stops hflow h => exact .stops hflow h
  | finished v hid h => exact .finished v hid h
  | error t h => exact .error _ h
  | returned v l hid hs htask h => exact .returned v l hid hs htask h

theorem agrees_next (p : Linked) (h : s.Reframed (Frame.BoxingIn k callers) s') (hc : callers ≠ [])
    (hk : k < s.scheduler.tasks.size) : Agrees k callers (next p s) (next p s') := by
  cases hs : s.task.frames with
  | nil =>
    have hs' : s'.task.frames = [] := by
      rw [← List.length_eq_zero_iff, h.task.frames.length_eq, hs, List.length_nil]
    unfold next
    simp only [bind_apply, get_apply, hs, hs']
    exact .error _ h
  | cons fr l =>
    obtain ⟨box, l', hside⟩ := sideBySide h hs
    cases hf : p.module.functions[fr.function]? with
    | none =>
      unfold next
      simp only [bind_apply, get_apply, hs, hside.frames', functionCode_apply, hf]
      exact .error _ h
    | some f =>
      cases hi : f.code[fr.ip]? with
      | none =>
        unfold next
        simp only [bind_apply, get_apply, hs, hside.frames', functionCode_apply, hf, hi]
        exact .error _ h
      | some i =>
        rw [next_apply hs hf hi, next_apply hside.frames' hf hi]
        obtain ⟨box, l', hside⟩ :=
          sideBySide (h.withFrames (hside.moved (fr.ip + 1) fr.bindings)) rfl
        exact (hside.agrees_step hc hk).located _ _

end Exec

end ScopedScript
