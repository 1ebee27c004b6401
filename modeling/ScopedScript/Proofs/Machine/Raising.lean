import ScopedScript.Proofs.Machine.HandleFlow

/-!
# What instructions raise

One pass over the instructions for any kind of trap: the faults that are not about slots are raised
by many of them, those about slots by work on the bindings of a frame only, at an instruction that
works on them or when a frame is entered.
-/

namespace ScopedScript

/-- Faults that an error on a slot amounts to. -/
def FaultCause.aboutSlots : FaultCause → Bool
  | .doubleRelease _ | .malformed (.slot _) => true
  | _ => false

theorem FaultCause.slots_ofOperator {c : FaultCause} (h : c.ofOperator = true) :
    c.aboutSlots = false := by
  cases c with
  | malformed m => cases m <;> first | rfl | cases h
  | doubleRelease name => cases h
  | _ => rfl

namespace Exec

/-- All traps of the computation are of this kind. -/
structure Raises (E : Trap → Prop) (x : Exec α) : Prop where
  triple : Triple (fun _ => True) x (fun _ _ => True) (fun t _ => E t)

/-- Of the kind are all faults but those about slots, and those of frames that cannot be entered. -/
structure Admits (p : Linked) (E : Trap → Prop) : Prop where
  fails : ∀ c : FaultCause, c.aboutSlots = false → E (.fault (.of c))
  enters : ∀ {id : Nat} {g : FunctionCode} {args captures : List Value} {base : Nat} {box : Bool}
    {e : SlotError}, p.module.functions[id]? = some g →
      Frame.enter id g args captures base box = .error e → E (.fault (.of (e.cause g)))

variable {p : Linked} {m : Module} {E : Trap → Prop} {x : Exec α} {k : α → Exec β}

theorem Raises.error (h : Raises E x) {s s' : Running} {t : Trap} (hx : x s = .error t s') : E t :=
  h.triple.error trivial hx

theorem Raises.pure (a : α) : Raises E (Pure.pure a : Exec α) :=
  ⟨Triple.pure fun _ _ => trivial⟩

theorem Raises.bind (hx : Raises E x) (hk : ∀ a, Raises E (k a)) : Raises E (x >>= k) :=
  ⟨Triple.bind hx.triple fun a => (hk a).triple⟩

theorem Raises.get : Raises E (MonadState.get : Exec Running) := ⟨fun _ _ => trivial⟩

theorem Raises.modify (g : Running → Running) : Raises E (modify g : Exec Unit) :=
  ⟨Triple.modify fun _ _ => trivial⟩

theorem Raises.modifyGet (g : Running → α × Running) :
    Raises E (MonadStateOf.modifyGet g : Exec α) :=
  ⟨fun _ _ => trivial⟩

theorem Raises.throw {t : Trap} (ht : E t) : Raises E (throw t : Exec α) :=
  ⟨Triple.throw fun _ _ => ht⟩

theorem Raises.goOn {x : Exec Unit} (h : Raises E x) : Raises E (goOn x) := h.bind fun _ => .pure _

theorem raises_push (v : Value) : Raises E (push v) := .modify _

theorem raises_jump (target : Nat) : Raises E (jump target) := .modify _

theorem raises_record (function : Nat) (kind : ReleaseKind) (slots : List Nat) :
    Raises E (record p function kind slots) :=
  .modify _

/-! ## Operands and frames -/

namespace Admits

theorem fail (hE : Admits p E) (cause : FaultCause) (hc : cause.aboutSlots = false) :
    Raises E (Exec.fail cause : Exec α) :=
  .throw (hE.fails cause hc)

theorem malformed (hE : Admits p E) (cause : Malformed)
    (hc : (FaultCause.malformed cause).aboutSlots = false) :
    Raises E (Exec.malformed cause : Exec α) :=
  hE.fail _ hc

theorem mistype (hE : Admits p E) (cause : Mistype) : Raises E (Exec.mistype cause : Exec α) :=
  hE.fail _ rfl

/-- A check that fails the task before the rest goes on. -/
theorem guarded (hE : Admits p E) {c : Prop} [Decidable c] {cause : FaultCause} {k : PUnit → Exec β}
    (hc : cause.aboutSlots = false) (hk : ∀ u, Raises E (k u)) :
    Raises E (if c then Exec.fail cause >>= k else k PUnit.unit) := by
  split
  · exact (hE.fail cause hc).bind hk
  · exact hk _

theorem ofExcept (hE : Admits p E) (a : Except FaultCause α)
    (ha : ∀ c, a = .error c → c.ofOperator = true) : Raises E (Exec.ofExcept a) := by
  cases a with
  | ok a => exact .pure a
  | error cause => exact hE.fail cause (FaultCause.slots_ofOperator (ha cause rfl))

theorem ofMistype (hE : Admits p E) (a : Except Mistype α) : Raises E (Exec.ofMistype a) := by
  cases a with
  | ok a => exact .pure a
  | error cause => exact hE.mistype cause

theorem pop (hE : Admits p E) : Raises E Exec.pop := by
  refine Raises.get.bind fun s => ?_
  split
  · exact hE.malformed _ rfl
  · exact (Raises.modify _).bind fun _ => .pure _

theorem popMany (hE : Admits p E) (n : Nat) : Raises E (Exec.popMany n) := by
  refine Raises.get.bind fun s => ?_
  split
  · exact hE.malformed _ rfl
  · exact (Raises.modify _).bind fun _ => .pure _

theorem popBool (hE : Admits p E) : Raises E Exec.popBool := by
  refine hE.pop.bind fun v => ?_
  split
  · exact .pure _
  · exact hE.malformed _ rfl

theorem onBindings (hE : Admits p E) {f : FunctionCode}
    (he : ∀ e : SlotError, E (.fault (.of (e.cause f)))) (act : BindingM α) :
    Raises E (Exec.onBindings f act) := by
  constructor
  rintro ⟨m, ⟨id, state, _ | ⟨⟨function, ip, bindings, captures, base, box⟩, frames⟩, stack, result,
    waiters, observed, resumeWith⟩⟩ -
  · exact hE.fails (.malformed .noFrame) rfl
  · simp only [Exec.onBindings]
    cases act bindings with
    | ok a b => trivial
    | error e b => exact he e

theorem recordHere (hE : Admits p E) (kind : ReleaseKind) (slots : List Nat) :
    Raises E (Exec.recordHere p kind slots) := by
  refine Raises.get.bind fun s => ?_
  split
  · exact raises_record ..
  · exact hE.malformed _ rfl

theorem functionCode (hE : Admits p E) {id : Nat} {k : FunctionCode → Exec β}
    (hk : ∀ f, p.module.functions[id]? = some f → Raises E (k f)) :
    Raises E (Exec.functionCode p id >>= k) := by
  unfold Exec.functionCode
  split
  · rename_i f hf
    exact ⟨(hk f hf).triple⟩
  · exact ⟨fun _ _ => hE.fails (.malformed (.noFunction id)) rfl⟩

theorem enter (hE : Admits p E) (function : Nat) (args captures : List Value) (box : Bool) :
    Raises E (Exec.enter p function args captures box) := by
  refine Raises.get.bind fun s => ?_
  dsimp only
  refine hE.guarded rfl fun _ => hE.functionCode fun f hf => Raises.get.bind fun s => ?_
  split
  · exact .modify _
  · rename_i e he
    exact .throw (hE.enters hf he)

theorem leave (hE : Admits p E) : Raises E (Exec.leave p) := by
  refine hE.pop.bind fun v => Raises.get.bind fun s => ?_
  split
  · exact hE.malformed _ rfl
  · refine (Raises.modify _).bind fun _ => (raises_record ..).bind fun _ => ?_
    dsimp only
    split
    · exact .pure _
    · exact (raises_push _).bind fun _ => .pure _

/-! ## Calls, structs and tasks -/

theorem callBuiltin (hE : Admits p E) (id : Nat) (args : List Value) :
    Raises E (Exec.callBuiltin p id args) := by
  unfold Exec.callBuiltin
  split
  · exact hE.malformed _ rfl
  · refine (Raises.modify _).bind fun _ => ?_
    split
    · exact .pure _
    · exact hE.fail _ rfl

theorem callValue (hE : Admits p E) (callee : Value) (args : List Value) :
    Raises E (Exec.callValue p callee args) := by
  unfold Exec.callValue
  split
  · exact hE.enter ..
  · exact hE.enter ..
  · exact (hE.callBuiltin ..).bind fun _ => raises_push _
  · exact hE.malformed _ rfl

theorem enterDynamic (hE : Admits p E) (id : Nat) (args captures : List Value) :
    Raises E (Exec.enterDynamic p id args captures) :=
  hE.functionCode fun _ _ => (hE.ofMistype _).bind fun _ => hE.enter ..

theorem callDynamic (hE : Admits p E) (callee : Value) (args : List Value) :
    Raises E (Exec.callDynamic p callee args) := by
  unfold Exec.callDynamic
  split
  · exact hE.enterDynamic ..
  · exact hE.enterDynamic ..
  · split
    · exact hE.malformed _ rfl
    · exact (hE.ofMistype _).bind fun _ => (hE.callBuiltin ..).bind fun _ => raises_push _
  · exact hE.mistype _

theorem callMethod (hE : Admits p E) (receiver : Value) (method : String) (args : List Value) :
    Raises E (Exec.callMethod p receiver method args) := by
  unfold Exec.callMethod
  split
  · split
    · exact hE.malformed _ rfl
    · split
      · exact hE.mistype _
      · exact hE.enterDynamic ..
  · exact hE.mistype _

theorem getField (hE : Admits p E) (v : Value) (index : Nat) :
    Raises E (Exec.getField m v index) := by
  unfold Exec.getField
  split
  · split
    · exact .pure _
    · exact hE.malformed _ rfl
  · exact hE.malformed _ rfl

theorem getFieldDynamic (hE : Admits p E) (hlost : ∀ type, E (.lost type)) (v : Value)
    (name : String) : Raises E (Exec.getFieldDynamic m v name) := by
  unfold Exec.getFieldDynamic
  split
  · split
    · exact .throw (hlost _)
    · split
      · exact hE.mistype _
      · split
        · exact .pure _
        · exact hE.malformed _ rfl
  · exact hE.mistype _

theorem spawn (hE : Admits p E) (function : Nat) (args : List Value) :
    Raises E (Exec.spawn p function args) := by
  refine hE.functionCode fun f hf => ?_
  split
  · rename_i e he
    exact .throw (hE.enters hf he)
  · exact (Raises.modifyGet _).bind fun _ => raises_push _

theorem await (hE : Admits p E) (hfaults : ∀ g, E (.fault g)) : Raises E (Exec.await p) := by
  refine hE.pop.bind fun v => ?_
  split
  · rename_i id _
    refine Raises.get.bind fun s => ?_
    dsimp only
    refine hE.guarded rfl fun _ => Raises.get.bind fun s => ?_
    split
    · exact hE.malformed _ rfl
    · split
      · refine (Raises.modify _).bind fun _ => ?_
        split
        · exact (raises_push _).bind fun _ => .pure _
        · exact .throw (hfaults _)
        · exact hE.malformed _ rfl
      · exact (Raises.modify _).bind fun _ => .pure _
  · exact hE.mistype _

/-! ## Instructions -/

/-- What an instruction raises is of the kind, if that has what the few instructions raise that look
at slots, at the result of a task or at struct types of the module. -/
theorem step (hE : Admits p E) {f : FunctionCode} {i : Instr}
    (hslots : i.binds = true → ∀ e : SlotError, E (.fault (.of (e.cause f))))
    (hfaults : i = .await → ∀ g, E (.fault g))
    (hlost : ∀ name, i = .getFieldDynamic name → ∀ type, E (.lost type)) :
    Raises E (Exec.step p f i) := by
  cases i with
  | const index =>
    refine Raises.goOn ?_
    split
    · exact raises_push _
    · exact hE.malformed _ rfl
  | pop => exact (hE.pop.bind fun _ => .pure _).goOn
  | dup =>
    refine (Raises.get.bind fun s => ?_).goOn
    split
    · exact raises_push _
    · exact hE.malformed _ rfl
  | arith op kind =>
    exact (hE.pop.bind fun _ => hE.pop.bind fun _ =>
      (hE.ofExcept _ fun _ => Operator.cause_arith).bind fun _ => raises_push _).goOn
  | order op kind =>
    exact (hE.pop.bind fun _ => hE.pop.bind fun _ =>
      (hE.ofExcept _ fun _ => Operator.cause_order).bind fun _ => raises_push _).goOn
  | eq | ne => exact (hE.pop.bind fun _ => hE.pop.bind fun _ => raises_push _).goOn
  | neg kind =>
    exact (hE.pop.bind fun _ =>
      (hE.ofExcept _ fun _ => Operator.cause_negate).bind fun _ => raises_push _).goOn
  | cast target =>
    exact (hE.pop.bind fun _ =>
      (hE.ofExcept _ fun _ => Operator.cause_convert).bind fun _ => raises_push _).goOn
  | not => exact (hE.popBool.bind fun _ => raises_push _).goOn
  | format parts => exact ((hE.popMany parts).bind fun _ => raises_push _).goOn
  | jump target => exact (raises_jump target).goOn
  | jumpIfFalse target =>
    refine (hE.popBool.bind fun b => ?_).goOn
    split
    · exact raises_jump target
    · exact .pure _
  | jumpIfTrue target =>
    refine (hE.popBool.bind fun b => ?_).goOn
    split
    · exact raises_jump target
    · exact .pure _
  | enterScope => exact (hE.onBindings (hslots rfl) _).goOn
  | exitScope => exact ((hE.onBindings (hslots rfl) _).bind fun _ => hE.recordHere ..).goOn
  | declare slot => exact (hE.pop.bind fun _ => hE.onBindings (hslots rfl) _).goOn
  | store slot => exact (hE.pop.bind fun _ => hE.onBindings (hslots rfl) _).goOn
  | storeField slot path => exact (hE.pop.bind fun _ => hE.onBindings (hslots rfl) _).goOn
  | load slot => exact ((hE.onBindings (hslots rfl) _).bind fun _ => raises_push _).goOn
  | move slot =>
    exact ((hE.onBindings (hslots rfl) _).bind fun _ => (hE.recordHere ..).bind fun _ =>
      raises_push _).goOn
  | free slot => exact ((hE.onBindings (hslots rfl) _).bind fun _ => hE.recordHere ..).goOn
  | loadCapture index =>
    refine (Raises.get.bind fun s => ?_).goOn
    split
    · exact raises_push _
    · exact hE.malformed _ rfl
  | makeStruct type fields => exact ((hE.popMany fields).bind fun _ => raises_push _).goOn
  | getField index =>
    exact (hE.pop.bind fun _ => (hE.getField ..).bind fun _ => raises_push _).goOn
  | getFieldDynamic name =>
    exact (hE.pop.bind fun _ => (hE.getFieldDynamic (hlost name rfl) ..).bind fun _ =>
      raises_push _).goOn
  | makeClosure function captures =>
    refine ((hE.popMany captures).bind fun values => ?_).goOn
    split <;> exact raises_push _
  | loadNative id => exact (raises_push _).goOn
  | call function args => exact ((hE.popMany args).bind fun _ => hE.enter ..).goOn
  | callValue args =>
    exact ((hE.popMany args).bind fun _ => hE.pop.bind fun _ => hE.callValue ..).goOn
  | callDynamic args =>
    exact ((hE.popMany args).bind fun _ => hE.pop.bind fun _ => hE.callDynamic ..).goOn
  | callMethodDynamic method args =>
    exact ((hE.popMany args).bind fun _ => hE.pop.bind fun _ => hE.callMethod ..).goOn
  | callNative id args =>
    exact ((hE.popMany args).bind fun _ => (hE.callBuiltin ..).bind fun _ => raises_push _).goOn
  | ret => exact hE.leave
  | spawn function args => exact ((hE.popMany args).bind fun _ => hE.spawn ..).goOn
  | await => exact hE.await (hfaults rfl)
  | yieldNow => exact .pure _
  | box => exact (hE.pop.bind fun _ => raises_push _).goOn
  | unbox tag => exact (hE.pop.bind fun _ => (hE.ofMistype _).bind fun _ => raises_push _).goOn

end Admits

end Exec

end ScopedScript
