import ScopedScript.Proofs.Compile.BareCode
import ScopedScript.Proofs.Machine.Frames
import ScopedScript.Proofs.Machine.Reframed
import ScopedScript.Proofs.Machine.StandardAnswers

/-!
# The machine on bare code

A machine that runs the bare form of a module keeps all that the machine that runs the module itself
has: its frames are at the same instructions and hold the same values, and more of their slots may
be live. What an instruction does without working on slots or going elsewhere is the same in both.
-/

namespace ScopedScript

def Linked.bare (p : Linked) : Linked := { p with module := p.module.bare }

theorem Linked.module_bare (p : Linked) : p.bare.module = p.module.bare := rfl

/-! ## Texts -/

section

variable (m : Module)

theorem Module.functions_bare (id : Nat) :
    m.bare.functions[id]? = (m.functions[id]?).map FunctionCode.bare := Array.getElem?_map ..

theorem Module.functionId?_bare (name : String) : m.bare.functionId? name = m.functionId? name := by
  rw [functionId?, functionId?, bare, Array.findIdx?_map]
  rfl

@[simp]
theorem Value.typeName_bare : (v : Value) → v.typeName m.bare = v.typeName m
  | any inner => typeName_bare inner
  | int _ | float _ | bool _ | string _ | null | struct _ _ | function _ | closure _ _ | native _
  | task _ => rfl

theorem Value.functionText_bare (id : Nat) :
    text.functionText m.bare id = text.functionText m id := by
  rw [text.functionText, text.functionText, Module.functions_bare]
  cases m.functions[id]? <;> rfl

mutual

@[simp]
theorem Value.text_bare : (v : Value) → v.text m.bare = v.text m
  | int _ | float _ | bool _ | string _ | null | native _ | task _ => rfl
  | any inner => text_bare inner
  | function id => functionText_bare m id
  | closure id _ => functionText_bare m id
  | struct type fields => by
    rw [text, text, fieldTexts_bare]
    rfl

theorem Value.fieldTexts_bare (names : List String) : (fields : List Value) →
    fieldTexts m.bare names fields = fieldTexts m names fields
  | [] => rfl
  | [v] => by rw [fieldTexts, fieldTexts, text_bare v]
  | v :: w :: rest => by
      rw [fieldTexts, fieldTexts, text_bare v, fieldTexts_bare names.tail (w :: rest)]

end

@[simp]
theorem TypeTag.text_bare : (tag : TypeTag) → tag.text m.bare = tag.text m
  | nullable inner => congrArg (· ++ "?") (text_bare inner)
  | int | float | bool | string | null | struct _ | function | task | any => rfl

theorem Builtin.accepts_bare : (t : TypeExpr) → (v : Value) → accepts m.bare t v = accepts m t v
  | .nullable inner, v => by
    cases v <;> simp only [accepts, accepts_bare inner]
  | .any, _ => rfl
  | .int, v | .float, v | .bool, v | .string, v | .void, v | .task _, v | .function _ _, v
  | .named _, v => by
    cases v <;> rfl

/-- The built-in does not look at code. -/
def Builtin.IgnoresCode (b : Builtin) : Prop := ∀ m args, b.call m.bare args = b.call m args

theorem Builtin.ignoresCode_writer (name ending : String) : (writer name ending).IgnoresCode := by
  intro m args
  simp only [writer, Value.text_bare]

/-- The standard built-ins have texts and names of types at most. -/
theorem Registry.ignoresCode_standard : ∀ b ∈ standard.entries, b.IgnoresCode := by
  rw [entries_standard]
  intro b hb
  simp only [Builtin.standard, List.mem_cons, List.not_mem_nil, or_false] at hb
  rcases hb with rfl | rfl | rfl | rfl | rfl | rfl | rfl | rfl | rfl | rfl
  · exact Builtin.ignoresCode_writer "print" ""
  · exact Builtin.ignoresCode_writer "println" "\n"
  · exact fun m args => by simp only [Builtin.typeOf, Value.typeName_bare]
  · exact fun m args => by simp only [Builtin.toText, Value.text_bare]
  all_goals exact fun _ _ => rfl

/-! ## Answers that name types -/

theorem Operator.arith_bare (op : ArithOp) (kind : OperandKind) (a b : Value) :
    arith m.bare op kind a b = arith m op kind a b := by
  cases kind <;> simp only [arith, Value.typeName_bare]

theorem Operator.negate_bare (kind : OperandKind) (v : Value) :
    negate m.bare kind v = negate m kind v := by
  simp only [negate, Value.typeName_bare]

theorem Operator.order_bare (op : OrderOp) (kind : OperandKind) (a b : Value) :
    order m.bare op kind a b = order m op kind a b := by
  simp only [order, Value.typeName_bare]

theorem Operator.convert_bare (target : CastTarget) (v : Value) :
    convert m.bare target v = convert m target v := by
  simp only [convert, Value.text_bare, Value.typeName_bare]

namespace Exec

theorem unbox_bare (tag : TypeTag) (v : Value) : unbox m.bare tag v = unbox m tag v := by
  simp only [unbox, TypeTag.text_bare, Value.typeName_bare]

theorem unboxArgs_bare (function : String) (number : Nat) (args : List Value)
    (tags : List TypeTag) :
    unboxArgs m.bare function number args tags = unboxArgs m function number args tags := by
  induction args generalizing number tags with
  | nil => rfl
  | cons v args ih =>
    cases tags with
    | nil => rfl
    | cons tag tags => simp only [unboxArgs, unbox_bare, ih]

theorem dynamicArgs_bare (f : FunctionCode) (args : List Value) :
    dynamicArgs m.bare f.bare args = dynamicArgs m f args := by
  simp only [dynamicArgs, FunctionCode.bare, unboxArgs_bare]

theorem refusedArg?_bare (number : Nat) (params : List TypeExpr) (args : List Value) :
    refusedArg? m.bare number params args = refusedArg? m number params args := by
  induction params generalizing number args with
  | nil => rfl
  | cons t params ih =>
    cases args with
    | nil => rfl
    | cons v args => simp only [refusedArg?, Builtin.accepts_bare, ih]

theorem checkBuiltinArgs_bare (b : Builtin) (args : List Value) :
    checkBuiltinArgs m.bare b args = checkBuiltinArgs m b args := by
  simp only [checkBuiltinArgs, refusedArg?_bare, Value.typeName_bare]

theorem getField_bare (v : Value) (index : Nat) : getField m.bare v index = getField m v index := by
  simp only [getField, Value.typeName_bare]

theorem getFieldDynamic_bare (v : Value) (name : String) :
    getFieldDynamic m.bare v name = getFieldDynamic m v name := by
  simp only [getFieldDynamic, Value.typeName_bare]
  rfl

end Exec

end

/-! ## States that keep what others have -/

/-- The second bindings have the same scopes and hold all that the first ones hold. -/
structure Bindings.Kept (b b' : Bindings) : Prop where
  size : b'.slots.size = b.slots.size
  scopes : b'.scopes = b.scopes
  holds : ∀ i v, b.Holds i v → b'.Holds i v

/-- A frame of bare code that is at the same instruction. -/
structure Frame.Kept (m : Module) (fr fr' : Frame) : Prop where
  bindings : fr.bindings.Kept fr'.bindings
  address : ∀ f, m.functions[fr.function]? = some f → fr'.ip = f.bareAddress fr.ip
  rest : fr' = { fr with ip := fr'.ip, bindings := fr'.bindings }

structure Task.Kept (m : Module) (t t' : Task) : Prop where
  frames : List.Forall₂ (Frame.Kept m) t.frames t'.frames
  rest : t' = { t with frames := t'.frames }

structure Scheduler.Kept (m : Module) (s s' : Scheduler) : Prop where
  size : s'.tasks.size = s.tasks.size
  ready : s'.ready = s.ready
  tasks : ∀ i, Option.Rel (Task.Kept m) (s.get? i) (s'.get? i)

/-- Logs of releases may differ. -/
structure Machine.Kept (m : Module) (a a' : Machine) : Prop where
  scheduler : a.scheduler.Kept m a'.scheduler
  output : a'.output = a.output

structure Running.Kept (m : Module) (s s' : Running) : Prop where
  machine : s.toMachine.Kept m s'.toMachine
  task : s.task.Kept m s'.task

section

variable {m : Module}

theorem Bindings.Kept.refl (b : Bindings) : b.Kept b := ⟨rfl, rfl, fun _ _ h => h⟩

/-- The frames of a task and those of one that runs bare code, all at the same instructions. -/
abbrev Frame.keptAll (m : Module) : FrameRelation := fun _ => List.Forall₂ (Frame.Kept m)

namespace Task

variable {t t' : Task}

theorem kept_eq : Kept m = Reframed (Frame.keptAll m) := by
  funext t t'
  exact propext ⟨fun h => ⟨h.frames, h.rest⟩, fun h => ⟨h.frames, h.rest⟩⟩

theorem Kept.reframed (h : t.Kept m t') : t.Reframed (Frame.keptAll m) t' := ⟨h.frames, h.rest⟩

theorem Kept.id_eq (h : t.Kept m t') : t'.id = t.id := h.reframed.id_eq

theorem Kept.state_eq (h : t.Kept m t') : t'.state = t.state := h.reframed.state_eq

theorem Kept.stack_eq (h : t.Kept m t') : t'.stack = t.stack := h.reframed.stack_eq

theorem Kept.result_eq (h : t.Kept m t') : t'.result = t.result := h.reframed.result_eq

theorem Kept.resumeWith_eq (h : t.Kept m t') : t'.resumeWith = t.resumeWith :=
  h.reframed.resumeWith_eq

/-- A change of the task that has nothing to do with its frames. -/
theorem Kept.map (h : t.Kept m t') {g : Task → Task} (hid : ∀ t, (g t).id = t.id)
    (hf : ∀ t, (g t).frames = t.frames)
    (hg : ∀ t frames, g { t with frames } = { g t with frames }) : (g t).Kept m (g t') := by
  rw [kept_eq] at h ⊢
  exact h.map hid hf hg

theorem Kept.withFrames (h : t.Kept m t') {frames frames' : List Frame}
    (hf : List.Forall₂ (Frame.Kept m) frames frames') :
    Kept m { t with frames } { t' with frames := frames' } := ⟨hf, by rw [h.rest]⟩

end Task

/-! ## The table of tasks -/

namespace Scheduler

variable {s s' : Scheduler} {t t' : Task}

theorem kept_eq : Kept m = Reframed (Frame.keptAll m) := by
  funext s s'
  refine propext ⟨fun h => ⟨h.size, h.ready, ?_⟩, fun h => ⟨h.size, h.ready, ?_⟩⟩
  · rw [← Task.kept_eq]
    exact h.tasks
  · rw [Task.kept_eq]
    exact h.tasks

theorem Kept.spawn (h : s.Kept m s') {fr fr' : Frame} (hf : fr.Kept m fr') :
    (s'.spawn fr').1 = (s.spawn fr).1 ∧ (s.spawn fr).2.Kept m (s'.spawn fr').2 := by
  rw [kept_eq] at h ⊢
  exact ⟨h.size, h.spawn (.cons hf .nil)⟩

theorem Kept.putBack (h : s.Kept m s') (ht : t.Kept m t') :
    (s.putBack t).Kept m (s'.putBack t') := by
  rw [kept_eq] at h ⊢
  exact h.putBack ht.reframed

theorem Kept.modifyTask (h : s.Kept m s') (id : Nat) {g : Task → Task} (hid : ∀ t, (g t).id = t.id)
    (hf : ∀ t, (g t).frames = t.frames)
    (hg : ∀ t frames, g { t with frames } = { g t with frames }) :
    (s.modifyTask id g).Kept m (s'.modifyTask id g) := by
  rw [kept_eq] at h ⊢
  exact h.modifyTask id hid hf hg

theorem Kept.get?_eq_some (h : s.Kept m s') {i : Nat} (hi : s.get? i = some t) :
    ∃ t', s'.get? i = some t' ∧ t.Kept m t' := by
  rw [kept_eq] at h
  rw [Task.kept_eq]
  exact h.get?_eq_some hi

theorem Kept.get?_eq_none (h : s.Kept m s') {i : Nat} (hi : s.get? i = none) :
    s'.get? i = none := by
  rw [kept_eq] at h
  exact h.get?_eq_none hi

theorem Kept.complete (h : s.Kept m s') (ht : t.Kept m t') (outcome : Outcome) :
    (s.complete t outcome).1.Kept m (s'.complete t' outcome).1 ∧
      (s.complete t outcome).2.Kept m (s'.complete t' outcome).2 := by
  rw [kept_eq] at h ⊢
  rw [Task.kept_eq]
  exact h.complete ht.reframed .nil outcome

theorem Kept.next? (h : s.Kept m s') :
    Option.Rel (fun a a' : Task × Scheduler => a.1.Kept m a'.1 ∧ a.2.Kept m a'.2) s.next?
      s'.next? := by
  rw [kept_eq] at h ⊢
  rw [Task.kept_eq]
  exact h.next?

end Scheduler

end

end ScopedScript
