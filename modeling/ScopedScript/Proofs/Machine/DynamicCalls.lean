import ScopedScript.Proofs.Machine.BoxedRuns

/-!
# Calls through `any`

A call through `any` checks its arguments against the parameters of the function and takes each out
of `any` as the parameter holds it. Then it enters the frame that a call of known type enters with
these arguments, but for the box around the result. Arguments that the function does not take are
refused before any frame is entered.
-/

namespace ScopedScript

/-- The function that a value stands for, and what it has captured. -/
def Value.target? (v : Value) : Option (Nat × List Value) :=
  match v.unboxed with
  | .function id => some (id, [])
  | .closure id captures => some (id, captures)
  | _ => none

theorem Value.unboxed_unboxed : (v : Value) → v.unboxed.unboxed = v.unboxed
  | any inner => unboxed_unboxed inner
  | int _ | float _ | bool _ | string _ | null | struct _ _ | function _ | closure _ _ | native _
  | task _ => rfl

@[simp]
theorem Value.target?_unboxed (v : Value) : v.unboxed.target? = v.target? := by
  rw [target?, target?, unboxed_unboxed]

/-- The value inside its boxes as something of this shape holds it: one of any shape stays in a box.
-/
def Value.coerced (tag : TypeTag) (v : Value) : Value := if tag = .any then v.boxed else v.unboxed

/-- There are as many values as tags, each of the shape of its tag. -/
def Value.HaveShapes (tags : List TypeTag) (args : List Value) : Prop :=
  List.Forall₂ (fun tag v => v.hasShape tag = true) tags args

/-- The arguments as parameters of these shapes hold them. -/
def Value.coercedAll (tags : List TypeTag) (args : List Value) : List Value :=
  List.zipWith coerced tags args

variable {tags : List TypeTag} {args : List Value}

namespace Exec

variable {m : Module} {tag : TypeTag} {v : Value}

theorem unbox_of_hasShape (h : v.hasShape tag = true) : unbox m tag v = .ok (v.coerced tag) := by
  rw [unbox, Value.coerced]
  by_cases htag : tag = .any
  · rw [if_pos htag, if_pos htag]
  · rw [if_neg htag, if_neg htag, if_pos h]

theorem unbox_of_not_hasShape (h : v.hasShape tag ≠ true) :
    unbox m tag v = .error (.shape (tag.text m) (v.typeName m)) := by
  have hany : tag ≠ .any := by
    rintro rfl
    exact h (by rw [Value.hasShape, Value.hasTag])
  rw [unbox, if_neg hany, if_neg h]

theorem unboxArgs_of_haveShapes (h : Value.HaveShapes tags args) (name : String) (number : Nat) :
    unboxArgs m name number args tags = .ok (Value.coercedAll tags args) := by
  induction h generalizing number with
  | nil => rfl
  | cons hv _ ih =>
    rw [unboxArgs, unbox_of_hasShape hv]
    simp only [ih]
    rfl

theorem unboxArgs_of_not_haveShapes (hlen : args.length = tags.length)
    (h : ¬ Value.HaveShapes tags args) (name : String)
    (number : Nat) : ∃ cause, unboxArgs m name number args tags = .error cause := by
  induction args generalizing number tags with
  | nil =>
    obtain rfl := List.length_eq_zero_iff.1 hlen.symm
    exact absurd .nil h
  | cons v rest ih =>
    obtain ⟨tag, tags, rfl⟩ := List.exists_cons_of_length_eq_add_one hlen.symm
    by_cases hv : v.hasShape tag = true
    · obtain ⟨cause, hcause⟩ :=
        ih (Nat.succ.inj hlen) (fun hrest => h (.cons hv hrest)) (number + 1)
      refine ⟨cause, ?_⟩
      rw [unboxArgs, unbox_of_hasShape hv]
      simp only [hcause]
      rfl
    · refine ⟨.argument number name (.shape (tag.text m) (v.typeName m)), ?_⟩
      rw [unboxArgs, unbox_of_not_hasShape hv]

variable {g : FunctionCode}

theorem dynamicArgs_of_haveShapes (hasync : g.isAsync = false)
    (hcount : g.paramTags.length = g.arity) (h : Value.HaveShapes g.paramTags args) :
    dynamicArgs m g args = .ok (Value.coercedAll g.paramTags args) := by
  have hlen : args.length = g.arity := (List.Forall₂.length_eq h).symm.trans hcount
  rw [dynamicArgs, if_neg (by simp [hasync]), if_neg (by simp [hlen]), unboxArgs_of_haveShapes h]

theorem dynamicArgs_of_not_haveShapes (hasync : g.isAsync = false)
    (hcount : g.paramTags.length = g.arity)
    (h : ¬ Value.HaveShapes g.paramTags args) : ∃ cause, dynamicArgs m g args = .error cause := by
  rw [dynamicArgs, if_neg (by simp [hasync])]
  by_cases hlen : args.length = g.arity
  · rw [if_neg (by simp [hlen])]
    exact unboxArgs_of_not_haveShapes (hlen.trans hcount.symm) h _ _
  · exact ⟨_, if_pos hlen⟩

end Exec

/-! ## Entering the function -/

namespace Exec

variable {p : Linked} {s : Running} {id : Nat} {g : FunctionCode} {captures rest : List Value}

/-- Two calls by the task that runs do the same: they fail alike, or enter frames that are the same
but for the box, and whatever the machine does then, the second hands back the box of what the first
does. -/
inductive CallsAlike (p : Linked) (s : Running) :
    EStateM.Result Trap Running Flow → EStateM.Result Trap Running Flow → Prop
  | fails (cause : FaultCause) : CallsAlike p s (fail cause s) (fail cause s)
  | enters (fr : Frame) (h : ∀ n, MachineState.HandsBack p s.task.id s.task.frames n
    (.busy (s.withFrames (fr :: s.task.frames)))
    (.busy (s.withFrames ({ fr with boxResult := true } :: s.task.frames)))) :
    CallsAlike p s (.ok .goOn (s.withFrames (fr :: s.task.frames)))
      (.ok .goOn (s.withFrames ({ fr with boxResult := true } :: s.task.frames)))

/-- Tables whose tasks are all but one the same. -/
theorem reframed_self {sch : Scheduler} {t : Task} {callers : List Frame}
    (hc : sch.Consistent (some t)) : sch.Reframed (Frame.BoxingIn t.id callers) sch where
  size := rfl
  ready := rfl
  tasks i := by
    cases hu : sch.get? i with
    | none => exact .none
    | some u => exact .some ⟨.other (hc.ne_running hu) _, rfl⟩

/-- A machine that has entered a frame differs in the box from one that has entered it with the box.
-/
theorem handsBack_entered (hsch : (MachineState.busy s).Scheduled) (hs : s.task.frames ≠ [])
    (fr : Frame) (n : Nat) : MachineState.HandsBack p s.task.id s.task.frames n
      (.busy (s.withFrames (fr :: s.task.frames)))
      (.busy (s.withFrames ({ fr with boxResult := true } :: s.task.frames))) := by
  have hcons : s.scheduler.Consistent (some s.task) := hsch.consistent
  have hbox : (MachineState.busy (s.withFrames (fr :: s.task.frames))).Boxing s.task.id
      s.task.frames (.busy (s.withFrames ({ fr with boxResult := true } :: s.task.frames))) :=
    .busy ⟨⟨reframed_self hcons, rfl, rfl⟩, .inl ⟨rfl, .here fr⟩, rfl⟩
  refine MachineState.handsBack hbox ⟨?_, hsch.spent⟩ hs (hcons.runs rfl).1 n
  exact Scheduler.TableStep.consistent_changed hcons .same rfl

theorem enter_box (function : Nat) (f : FunctionCode) (args captures : List Value) (base : Nat) :
    Frame.enter function f args captures base true =
      (Frame.enter function f args captures base false).map fun fr =>
        { fr with boxResult := true } := by
  simp only [Frame.enter]
  split <;> rfl

theorem callsAlike_enter (hsch : (MachineState.busy s).Scheduled)
    (hs : s.task.frames ≠ []) (id : Nat) (args captures : List Value) :
    CallsAlike p s (perform p (.enter id args captures false) s)
      (perform p (.enter id args captures true) s) := by
  rw [perform, perform, goOn_apply, goOn_apply, enter_apply, enter_apply]
  by_cases hdepth : p.config.maxCallDepth ≤ s.task.frames.length
  · rw [if_pos hdepth, if_pos hdepth]
    exact .fails _
  · rw [if_neg hdepth, if_neg hdepth]
    cases p.module.functions[id]? with
    | none => exact .fails _
    | some g =>
      simp only [enter_box]
      cases Frame.enter id g args captures s.task.stack.length false with
      | error e => exact .fails _
      | ok fr => exact .enters fr (handsBack_entered hsch hs fr)

/-! ## Calls -/

variable {f f' : FunctionCode} {callee receiver : Value}

theorem step_call (args : List Value) :
    step p f (.call id args.length) (s.withStack (args.reverse ++ rest)) =
      perform p (.enter id args [] false) (s.withStack rest) := by
  rw [step, goOn_popMany rfl (Running.stack_withStack ..)]
  rfl

theorem step_callValue (h : callee.target? = some (id, captures)) (args : List Value) :
    step p f (.callValue args.length) (s.withStack (args.reverse ++ callee :: rest)) =
      perform p (.enter id args captures false) (s.withStack rest) := by
  rw [step, goOn_popMany rfl (Running.stack_withStack ..), goOn_pop (Running.stack_withStack ..),
    callValue_apply, Reaction.ofCallee]
  unfold Value.target? at h
  split at h <;> rename_i hv <;> cases h
  · rw [hv, Running.writing_empty]
    rfl
  · rw [hv, Running.writing_empty]
    rfl

theorem step_callDynamic (h : callee.target? = some (id, captures)) (args : List Value) :
    step p f (.callDynamic args.length) (s.withStack (args.reverse ++ callee :: rest)) =
      perform p (.ofDynamic p id args captures) (s.withStack rest) := by
  rw [step, goOn_popMany rfl (Running.stack_withStack ..), goOn_pop (Running.stack_withStack ..),
    callDynamic_apply, Reaction.ofCalleeDynamic]
  unfold Value.target? at h
  split at h <;> rename_i hv <;> cases h
  · rw [hv, Running.writing_empty]
    rfl
  · rw [hv, Running.writing_empty]
    rfl

theorem step_callMethodDynamic {type : Nat} {fields : List Value} {layout : StructLayout}
    {method : String} (hv : receiver.unboxed = .struct type fields)
    (hlayout : p.module.structs[type]? = some layout) (hm : layout.method? method = some id)
    (args : List Value) :
    step p f (.callMethodDynamic method args.length)
      (s.withStack (args.reverse ++ receiver :: rest)) =
      perform p (.ofDynamic p id (.struct type fields :: args) []) (s.withStack rest) := by
  rw [step, goOn_popMany rfl (Running.stack_withStack ..), goOn_pop (Running.stack_withStack ..),
    callMethod_apply, Reaction.ofMethod, hv]
  simp only [hlayout, hm]
  rfl

theorem ofDynamic_of_haveShapes (hg : p.module.functions[id]? = some g) (hasync : g.isAsync = false)
    (hcount : g.paramTags.length = g.arity) (h : Value.HaveShapes g.paramTags args) :
    Reaction.ofDynamic p id args captures = .enter id
      (Value.coercedAll g.paramTags args) captures true := by
  simp only [Reaction.ofDynamic, hg, dynamicArgs_of_haveShapes hasync hcount h]

theorem ofDynamic_of_not_haveShapes (hg : p.module.functions[id]? = some g)
    (hasync : g.isAsync = false) (hcount : g.paramTags.length = g.arity)
    (h : ¬ Value.HaveShapes g.paramTags args) (captures : List Value) :
    ∃ cause, Reaction.ofDynamic p id args captures = .fails (.mistype cause) := by
  obtain ⟨cause, hcause⟩ := dynamicArgs_of_not_haveShapes (m := p.module) hasync hcount h
  exact ⟨cause, by simp only [Reaction.ofDynamic, hg, hcause]⟩

end Exec

end ScopedScript
