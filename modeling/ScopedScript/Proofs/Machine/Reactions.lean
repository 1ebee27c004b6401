import ScopedScript.Proofs.Machine.Triple

/-!
# Operands and reactions

How many operands each instruction takes from the stack, and what it makes of them. Most
instructions only work on their operands: they answer with a value, enter a function or fail, and
what they do depends on nothing else but the linked module, the constants of the function and what
the frame has captured.
-/

namespace ScopedScript

namespace Instr

/-- How many operands an instruction takes. -/
def pops : Instr → Nat
  | const _ | jump _ | enterScope | exitScope | load _ | move _ | free _ | loadCapture _
  | loadNative _ | yieldNow => 0
  | pop | dup | neg _ | not | cast _ | jumpIfFalse _ | jumpIfTrue _ | declare _ | store _
  | storeField _ _ | getField _ | getFieldDynamic _ | ret | await | box | unbox _ => 1
  | arith _ _ | order _ _ | eq | ne => 2
  | format n | makeStruct _ n | makeClosure _ n | call _ n | callNative _ n | spawn _ n => n
  | callValue n | callDynamic n | callMethodDynamic _ n => n + 1

/-- How many operands are there in their place when control comes to the next instruction; after a
call, that is when the function has returned. -/
def pushes : Instr → Nat
  | pop | jump _ | jumpIfFalse _ | jumpIfTrue _ | enterScope | exitScope | declare _ | store _
  | storeField _ _ | free _ | yieldNow | ret => 0
  | dup => 2
  | _ => 1

/-- Instructions that only work on their operands. -/
def reacts : Instr → Bool
  | pop | dup | jump _ | jumpIfFalse _ | jumpIfTrue _ | enterScope | exitScope | declare _ | load _
  | move _ | store _ | storeField _ _ | free _ | ret | spawn _ _ | await | yieldNow => false
  | _ => true

end Instr

/-- What an instruction comes to. -/
inductive Reaction
  | value (v : Value)
  | enter (function : Nat) (args captures : List Value) (boxResult : Bool)
  | fails (cause : FaultCause)
  | lost (type : Nat)
deriving Repr

namespace Reaction

def ofExcept : Except FaultCause Value → Reaction
  | .ok v => value v
  | .error cause => fails cause

def ofMistype : Except Mistype Value → Reaction
  | .ok v => value v
  | .error cause => fails (.mistype cause)

/-- A function is entered with arguments that are checked first. -/
def ofDynamic (p : Linked) (function : Nat) (args captures : List Value) : Reaction :=
  match p.module.functions[function]? with
  | none => fails (.malformed (.noFunction function))
  | some f =>
    match Exec.dynamicArgs p.module f args with
    | .ok args => enter function args captures true
    | .error cause => fails (.mistype cause)

/-- What a built-in writes, and what it answers. -/
def ofBuiltin (p : Linked) (id : Nat) (args : List Value) : String × Except FaultCause Value :=
  match p.builtins[id]? with
  | none => ("", .error (.malformed (.unlinked id)))
  | some b =>
    ((b.call p.module args).written, (b.call p.module args).answer.mapError
      (.builtin ((p.module.natives[id]?).getD "")))

def ofField (m : Module) (v : Value) (index : Nat) : Reaction :=
  match v.unboxed with
  | .struct _ fields =>
    match fields[index]? with
    | some field => value field
    | none => fails (.malformed (.fieldRange index))
  | other => fails (.malformed (.fieldAccess (other.typeName m)))

def ofFieldDynamic (m : Module) (v : Value) (name : String) : Reaction :=
  match v.unboxed with
  | .struct type fields =>
    match m.structs[type]? with
    | none => lost type
    | some layout =>
      match layout.fieldIndex? name with
      | none => fails (.mistype (.structNoField layout.name name))
      | some index =>
        match fields[index]? with
        | some field => value field.boxed
        | none => fails (.malformed (.fieldMissing name))
  | other => fails (.mistype (.noField (other.typeName m) name))

/-- A call of a value of known function type. -/
def ofCallee (p : Linked) (callee : Value) (args : List Value) : String × Reaction :=
  match callee.unboxed with
  | .function id => ("", enter id args [] false)
  | .closure id captures => ("", enter id args captures false)
  | .native id => ((ofBuiltin p id args).1, ofExcept (ofBuiltin p id args).2)
  | other => ("", fails (.malformed (.notCallable (other.typeName p.module))))

/-- A call of a value of type `any`. -/
def ofCalleeDynamic (p : Linked) (callee : Value) (args : List Value) : String × Reaction :=
  match callee.unboxed with
  | .function id => ("", ofDynamic p id args [])
  | .closure id captures => ("", ofDynamic p id args captures)
  | .native id =>
    match p.builtins[id]? with
    | none => ("", fails (.malformed (.unlinked id)))
    | some b =>
      match Exec.checkBuiltinArgs p.module b args with
      | .ok () => ((ofBuiltin p id args).1, ofExcept ((ofBuiltin p id args).2.map Value.boxed))
      | .error cause => ("", fails (.mistype cause))
  | other => ("", fails (.mistype (.notCallable (other.typeName p.module))))

def ofMethod (p : Linked) (receiver : Value) (method : String) (args : List Value) : Reaction :=
  match receiver.unboxed with
  | .struct type fields =>
    match p.module.structs[type]? with
    | none => fails (.malformed (.noStruct type))
    | some layout =>
      match layout.method? method with
      | none => fails (.mistype (.structNoMethod layout.name method))
      | some id => ofDynamic p id (.struct type fields :: args) []
  | other => fails (.mistype (.noMethod (other.typeName p.module) method))

end Reaction

/-- What an instruction writes and comes to, given the operands that it takes, the lowest first;
`none` when it works on more than operands or has not as many of them. -/
def Instr.react? (p : Linked) (f : FunctionCode) (captures : List Value) :
    Instr → List Value → Option (String × Reaction)
  | .const index, [] =>
    some ("", match f.constants[index]? with
      | some c => .value c.toValue
      | none => .fails (.malformed (.noConstant index)))
  | .arith op kind, [a, b] => some ("", .ofExcept (Operator.arith p.module op kind a b))
  | .neg kind, [a] => some ("", .ofExcept (Operator.negate p.module kind a))
  | .order op kind, [a, b] =>
    some ("", .ofExcept ((Operator.order p.module op kind a b).map .bool))
  | .eq, [a, b] => some ("", .value (.bool (a.equals b)))
  | .ne, [a, b] => some ("", .value (.bool !(a.equals b)))
  | .not, [a] =>
    some ("", match a.unboxed with
      | .bool b => .value (.bool !b)
      | _ => .fails (.malformed .condition))
  | .cast target, [a] => some ("", .ofExcept (Operator.convert p.module target a))
  | .format _, parts => some ("", .value (.string (String.join (parts.map (Value.text p.module)))))
  | .loadCapture index, [] =>
    some ("", match captures[index]? with
      | some v => .value v
      | none => .fails (.malformed (.captureRange index)))
  | .makeStruct type _, fields => some ("", .value (.struct type fields))
  | .getField index, [v] => some ("", .ofField p.module v index)
  | .getFieldDynamic name, [v] => some ("", .ofFieldDynamic p.module v name)
  | .makeClosure function _, [] => some ("", .value (.function function))
  | .makeClosure function _, values => some ("", .value (.closure function values))
  | .loadNative id, [] => some ("", .value (.native id))
  | .call function _, args => some ("", .enter function args [] false)
  | .callValue _, callee :: args => some (Reaction.ofCallee p callee args)
  | .callDynamic _, callee :: args => some (Reaction.ofCalleeDynamic p callee args)
  | .callMethodDynamic method _, receiver :: args => some ("", .ofMethod p receiver method args)
  | .callNative id _, args =>
    some ((Reaction.ofBuiltin p id args).1, .ofExcept (Reaction.ofBuiltin p id args).2)
  | .box, [v] => some ("", .value v.boxed)
  | .unbox tag, [v] => some ("", .ofMistype (Exec.unbox p.module tag v))
  | _, _ => none

theorem Instr.exists_react {p : Linked} {f : FunctionCode} {captures ops : List Value} {i : Instr}
    (hi : i.reacts = true) (hn : ops.length = i.pops) :
    ∃ w r, i.react? p f captures ops = some (w, r) := by
  cases i with
  | const _ | loadCapture _ | loadNative _ =>
    obtain rfl := List.length_eq_zero_iff.1 hn
    exact ⟨_, _, rfl⟩
  | arith _ _ | order _ _ | eq | ne =>
    obtain ⟨a, b, rfl⟩ := List.length_eq_two.1 hn
    exact ⟨_, _, rfl⟩
  | neg _ | not | cast _ | getField _ | getFieldDynamic _ | box | unbox _ =>
    obtain ⟨a, rfl⟩ := List.length_eq_one_iff.1 hn
    exact ⟨_, _, rfl⟩
  | format _ | makeStruct _ _ | call _ _ | callNative _ _ => exact ⟨_, _, rfl⟩
  | makeClosure _ _ => cases ops <;> exact ⟨_, _, rfl⟩
  | callValue _ | callDynamic _ | callMethodDynamic _ _ =>
    obtain ⟨a, args, rfl⟩ := List.exists_cons_of_length_eq_add_one hn
    exact ⟨_, _, rfl⟩
  | _ => cases hi

namespace Exec

/-- Carries a reaction out. -/
def perform (p : Linked) : Reaction → Exec Flow
  | .value v => goOn (push v)
  | .enter function args captures box => goOn (enter p function args captures box)
  | .fails cause => fail cause
  | .lost type => throw (.lost type)

end Exec

namespace Running

/-- With other operands. -/
def withStack (s : Running) (stack : List Value) : Running :=
  { s with task := { s.task with stack } }

/-- With more text written. -/
def writing (s : Running) (text : String) : Running := { s with output := s.output ++ text }

@[simp]
theorem stack_withStack (s : Running) (stack : List Value) :
    (s.withStack stack).task.stack = stack :=
  rfl

@[simp]
theorem frames_withStack (s : Running) (stack : List Value) :
    (s.withStack stack).task.frames = s.task.frames := rfl

@[simp]
theorem withStack_withStack (s : Running) (stack stack' : List Value) :
    (s.withStack stack).withStack stack' = s.withStack stack' := rfl

@[simp]
theorem writing_empty (s : Running) : s.writing "" = s := by
  obtain ⟨⟨scheduler, output, releases⟩, task⟩ := s
  simp [writing]

@[simp]
theorem task_writing (s : Running) (text : String) : (s.writing text).task = s.task := rfl

end Running

namespace Exec

variable {p : Linked} {f : FunctionCode} {s : Running} {rest : List Value}

/-! Taking operands. -/

theorem push_apply (v : Value) (s : Running) :
    push v s = .ok () (s.withStack (v :: s.task.stack)) := rfl

theorem pop_apply {v : Value} (hs : s.task.stack = v :: rest) :
    pop s = .ok v (s.withStack rest) := by
  simp only [pop, bind_apply, get_apply, hs, modifyTask, modify_apply, pure_apply]
  rfl

theorem splitTop_reverse (ops taken rest : List Value) :
    splitTop taken ops.length (ops.reverse ++ rest) = some (ops ++ taken, rest) := by
  induction ops using List.reverseRecOn generalizing taken with
  | nil => simp [splitTop]
  | append_singleton ops v ih =>
    rw [List.length_append, List.reverse_append]
    change splitTop (v :: taken) ops.length (ops.reverse ++ rest) = _
    rw [ih, List.append_assoc]
    rfl

theorem popMany_apply (ops : List Value) (hs : s.task.stack = ops.reverse ++ rest) :
    popMany ops.length s = .ok ops (s.withStack rest) := by
  simp only [popMany, bind_apply, get_apply, hs, splitTop_reverse, List.append_nil, modifyTask,
    modify_apply, pure_apply]
  rfl

theorem fail_apply (cause : FaultCause) (s : Running) :
    (fail cause : Exec α) s = .error (.fault (.of cause)) s := rfl

/-! Answers. -/

theorem push_ofExcept (x : Except FaultCause Value) (s : Running) :
    goOn (ofExcept x >>= push) s = perform p (.ofExcept x) s := by
  cases x <;> rfl

theorem push_ofMistype (x : Except Mistype Value) (s : Running) :
    goOn (ofMistype x >>= push) s = perform p (.ofMistype x) s := by
  cases x <;> rfl

theorem callBuiltin_apply (id : Nat) (args : List Value) (s : Running) :
    callBuiltin p id args s =
      ofExcept (Reaction.ofBuiltin p id args).2 (s.writing (Reaction.ofBuiltin p id args).1) := by
  unfold callBuiltin Reaction.ofBuiltin
  split
  · rename_i h
    simp only [h, Running.writing_empty]
    rfl
  · rename_i b h
    simp only [h, bind_apply, modify_apply]
    cases (b.call p.module args).answer <;> rfl

theorem push_builtin (id : Nat) (args : List Value) (s : Running) :
    goOn (callBuiltin p id args >>= push) s = perform p (.ofExcept (Reaction.ofBuiltin p id args).2)
      (s.writing (Reaction.ofBuiltin p id args).1) := by
  rw [goOn_apply, bind_apply, callBuiltin_apply]
  cases (Reaction.ofBuiltin p id args).2 <;> rfl

theorem push_builtin_boxed (id : Nat) (args : List Value) (s : Running) :
    goOn (do push (← callBuiltin p id args).boxed) s =
      perform p (.ofExcept ((Reaction.ofBuiltin p id args).2.map Value.boxed))
        (s.writing (Reaction.ofBuiltin p id args).1) := by
  rw [goOn_apply, bind_apply, callBuiltin_apply]
  cases (Reaction.ofBuiltin p id args).2 <;> rfl

theorem functionCode_apply (id : Nat) (s : Running) :
    functionCode p id s = match p.module.functions[id]? with
      | some f => .ok f s
      | none => fail (.malformed (.noFunction id)) s := by
  unfold functionCode
  cases p.module.functions[id]? <;> rfl

theorem enterDynamic_apply (id : Nat) (args captures : List Value) (s : Running) :
    goOn (enterDynamic p id args captures) s =
      perform p (.ofDynamic p id args captures) s := by
  rw [goOn_apply, enterDynamic, bind_apply, functionCode_apply, Reaction.ofDynamic]
  cases p.module.functions[id]? with
  | none => rfl
  | some g =>
    simp only [bind_apply]
    cases dynamicArgs p.module g args with
    | ok args => simp only [ofMistype, pure_apply, perform, goOn_apply]
    | error cause => rfl

theorem callValue_apply (callee : Value) (args : List Value) (s : Running) :
    goOn (callValue p callee args) s = perform p (Reaction.ofCallee p callee args).2
      (s.writing (Reaction.ofCallee p callee args).1) := by
  unfold callValue Reaction.ofCallee
  cases callee.unboxed with
  | native id => exact push_builtin id args s
  | _ => simp [perform, goOn_apply, malformed, fail_apply]

theorem callDynamic_apply (callee : Value) (args : List Value) (s : Running) :
    goOn (callDynamic p callee args) s = perform p (Reaction.ofCalleeDynamic p callee args).2
      (s.writing (Reaction.ofCalleeDynamic p callee args).1) := by
  unfold callDynamic Reaction.ofCalleeDynamic
  cases callee.unboxed with
  | function id => simpa using enterDynamic_apply id args [] s
  | closure id captures => simpa using enterDynamic_apply id args captures s
  | native id =>
    dsimp only
    cases p.builtins[id]? with
    | none => simp [perform, goOn_apply, malformed, fail_apply]
    | some b =>
      dsimp only
      cases checkBuiltinArgs p.module b args with
      | error cause => simp [ofMistype, mistype, perform, goOn_apply, bind_apply, fail_apply]
      | ok u => exact push_builtin_boxed id args s
  | _ => simp [perform, goOn_apply, mistype, fail_apply]

theorem callMethod_apply (receiver : Value) (method : String) (args : List Value) (s : Running) :
    goOn (callMethod p receiver method args) s =
      perform p (.ofMethod p receiver method args) s := by
  unfold callMethod Reaction.ofMethod
  cases receiver.unboxed with
  | struct type fields =>
    dsimp only
    cases p.module.structs[type]? with
    | none => rfl
    | some layout =>
      dsimp only
      cases layout.method? method with
      | none => rfl
      | some id => exact enterDynamic_apply id _ [] s
  | _ => rfl

theorem push_getField (m : Module) (v : Value) (index : Nat) (s : Running) :
    goOn (getField m v index >>= push) s = perform p (.ofField m v index) s := by
  unfold getField Reaction.ofField
  cases v.unboxed with
  | struct type fields =>
    dsimp only
    cases fields[index]? <;> rfl
  | _ => rfl

theorem push_getFieldDynamic (m : Module) (v : Value) (name : String) (s : Running) :
    goOn (getFieldDynamic m v name >>= push) s = perform p (.ofFieldDynamic m v name) s := by
  unfold getFieldDynamic Reaction.ofFieldDynamic
  cases v.unboxed with
  | struct type fields =>
    dsimp only
    cases m.structs[type]? with
    | none => rfl
    | some layout =>
      dsimp only
      cases layout.fieldIndex? name with
      | none => rfl
      | some index =>
        dsimp only
        cases fields[index]? <;> rfl
  | _ => rfl

theorem goOn_pop {v : Value} {y : Value → Exec Unit} (hs : s.task.stack = v :: rest) :
    goOn (pop >>= y) s = goOn (y v) (s.withStack rest) := by
  rw [goOn_apply, bind_apply, pop_apply hs, goOn_apply]

theorem goOn_popMany {ops : List Value} {n : Nat} {y : List Value → Exec Unit}
    (hn : ops.length = n) (hs : s.task.stack = ops.reverse ++ rest) :
    goOn (popMany n >>= y) s = goOn (y ops) (s.withStack rest) := by
  subst hn
  rw [goOn_apply, bind_apply, popMany_apply ops hs, goOn_apply]

theorem popBool_apply {v : Value} (hs : s.task.stack = v :: rest) :
    popBool s = match v.unboxed with
      | .bool b => .ok b (s.withStack rest)
      | _ => fail (.malformed .condition) (s.withStack rest) := by
  rw [popBool, bind_apply, pop_apply hs]
  dsimp only
  cases v.unboxed <;> rfl

/-- An instruction that only works on its operands takes them, and does what it comes to. -/
theorem step_react {fr : Frame} {callers : List Frame} {i : Instr} {ops : List Value} {w : String}
    {r : Reaction} (hs : s.task.frames = fr :: callers)
    (hr : i.react? p f fr.captures ops = some (w, r)) (hn : ops.length = i.pops)
    (hstack : s.task.stack = ops.reverse ++ rest) :
    step p f i s = perform p r ((s.withStack rest).writing w) := by
  -- the operands of an instruction that takes none, one or two
  have none_eq (h : ops.length = 0) : ops = [] ∧ s.withStack rest = s := by
    obtain rfl := List.length_eq_zero_iff.1 h
    obtain rfl : s.task.stack = rest := hstack
    exact ⟨rfl, rfl⟩
  have one_eq (h : ops.length = 1) : ∃ a, ops = [a] ∧ s.task.stack = a :: rest := by
    obtain ⟨a, rfl⟩ := List.length_eq_one_iff.1 h
    exact ⟨a, rfl, hstack⟩
  have two_eq (h : ops.length = 2) : ∃ a b, ops = [a, b] ∧ s.task.stack = b :: a :: rest := by
    obtain ⟨a, b, rfl⟩ := List.length_eq_two.1 h
    exact ⟨a, b, rfl, hstack⟩
  have many_eq {n : Nat} (h : ops.length = n) {y : List Value → Exec Unit} :
      goOn (popMany n >>= y) s = goOn (y ops) (s.withStack rest) := goOn_popMany h hstack
  -- a callee below its arguments
  have callee_eq {n : Nat} (h : ops.length = n + 1) :
      ∃ c args, ops = c :: args ∧ args.length = n ∧ s.task.stack = args.reverse ++ c :: rest := by
    obtain ⟨c, args, rfl⟩ := List.exists_cons_of_length_eq_add_one h
    refine ⟨c, args, rfl, Nat.succ.inj h, ?_⟩
    rw [hstack, List.reverse_cons, List.append_assoc]
    rfl
  cases i with
  | const index =>
    obtain ⟨rfl, hrest⟩ := none_eq hn
    cases hr
    rw [step, hrest]
    cases f.constants[index]? <;> simp [perform, goOn_apply, malformed, fail_apply]
  | arith op kind =>
    obtain ⟨a, b, rfl, hab⟩ := two_eq hn
    cases hr
    rw [step, goOn_pop hab, goOn_pop (Running.stack_withStack ..)]
    simp [push_ofExcept (p := p)]
  | neg kind =>
    obtain ⟨a, rfl, ha⟩ := one_eq hn
    cases hr
    rw [step, goOn_pop ha]
    simp [push_ofExcept (p := p)]
  | order op kind =>
    obtain ⟨a, b, rfl, hab⟩ := two_eq hn
    cases hr
    rw [step, goOn_pop hab, goOn_pop (Running.stack_withStack ..), goOn_apply]
    cases Operator.order p.module op kind a b <;>
      simp [perform, goOn_apply, ofExcept, bind_apply, pure_apply, Except.map, Reaction.ofExcept,
        fail_apply]
  | eq =>
    obtain ⟨a, b, rfl, hab⟩ := two_eq hn
    cases hr
    rw [step, goOn_pop hab, goOn_pop (Running.stack_withStack ..)]
    simp [perform]
  | ne =>
    obtain ⟨a, b, rfl, hab⟩ := two_eq hn
    cases hr
    rw [step, goOn_pop hab, goOn_pop (Running.stack_withStack ..)]
    simp [perform]
  | not =>
    obtain ⟨a, rfl, ha⟩ := one_eq hn
    cases hr
    rw [step, goOn_apply, bind_apply, popBool_apply ha]
    cases a.unboxed <;> simp [perform, goOn_apply, fail_apply]
  | cast target =>
    obtain ⟨a, rfl, ha⟩ := one_eq hn
    cases hr
    rw [step, goOn_pop ha]
    simp [push_ofExcept (p := p)]
  | format parts =>
    cases hr
    rw [step, many_eq (n := parts) hn]
    simp [perform]
  | loadCapture index =>
    obtain ⟨rfl, hrest⟩ := none_eq hn
    cases hr
    rw [step, hrest, goOn_apply, bind_apply, get_apply]
    simp only [hs, List.head?_cons, Option.bind_some]
    cases fr.captures[index]? <;> simp [perform, goOn_apply, malformed, fail_apply]
  | makeStruct type fields =>
    cases hr
    rw [step, many_eq (n := fields) hn]
    simp [perform]
  | getField index =>
    obtain ⟨a, rfl, ha⟩ := one_eq hn
    cases hr
    rw [step, goOn_pop ha, push_getField (p := p)]
    simp
  | getFieldDynamic name =>
    obtain ⟨a, rfl, ha⟩ := one_eq hn
    cases hr
    rw [step, goOn_pop ha, push_getFieldDynamic (p := p)]
    simp
  | makeClosure function captures =>
    rw [step, many_eq (n := captures) hn]
    cases ops <;> cases hr <;> simp [perform]
  | loadNative id =>
    obtain ⟨rfl, hrest⟩ := none_eq hn
    cases hr
    simp [step, hrest, perform]
  | call function args =>
    cases hr
    rw [step, many_eq (n := args) hn]
    simp [perform]
  | callValue args =>
    obtain ⟨c, args, rfl, hargs, hc⟩ := callee_eq hn
    obtain ⟨rfl, rfl⟩ := Prod.mk.inj (Option.some.inj hr)
    rw [step, goOn_popMany hargs hc, goOn_pop (Running.stack_withStack ..), callValue_apply]
    rfl
  | callDynamic args =>
    obtain ⟨c, args, rfl, hargs, hc⟩ := callee_eq hn
    obtain ⟨rfl, rfl⟩ := Prod.mk.inj (Option.some.inj hr)
    rw [step, goOn_popMany hargs hc, goOn_pop (Running.stack_withStack ..), callDynamic_apply]
    rfl
  | callMethodDynamic method args =>
    obtain ⟨c, args, rfl, hargs, hc⟩ := callee_eq hn
    cases hr
    rw [step, goOn_popMany hargs hc, goOn_pop (Running.stack_withStack ..), callMethod_apply]
    simp
  | callNative id args =>
    cases hr
    rw [step, many_eq (n := args) hn]
    exact push_builtin id ops _
  | box =>
    obtain ⟨a, rfl, ha⟩ := one_eq hn
    cases hr
    rw [step, goOn_pop ha]
    simp [perform]
  | unbox tag =>
    obtain ⟨a, rfl, ha⟩ := one_eq hn
    cases hr
    rw [step, goOn_pop ha]
    simp [push_ofMistype (p := p)]
  | _ => cases hr

end Exec

end ScopedScript
