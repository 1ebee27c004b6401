import ScopedScript.Proofs.Compile.Levels
import ScopedScript.Proofs.Machine.Deadlock
import ScopedScript.Proofs.Machine.Liveness
import ScopedScript.Proofs.Machine.Rebinding

/-!
# Operands and scopes of running frames

Every frame of a run of compiled code is at the level that its address has: above the height at
which it was entered lie as many operands as the level says, and as many scopes are open. So no
instruction takes an operand of a caller, or one that is not there.
-/

namespace ScopedScript

/-- Faults of code that takes operands, scopes, constants or instructions that are not there. -/
def FaultCause.aboutLevels : FaultCause → Bool
  | .malformed .underflow | .malformed .emptyDup | .malformed (.slot .noScope)
  | .malformed (.noConstant _) | .malformed (.pastEnd _ _) => true
  | _ => false

theorem FaultCause.level_ofOperator {c : FaultCause} (h : c.ofOperator = true) :
    c.aboutLevels = false := by
  cases c with
  | malformed m => cases m <;> first | rfl | cases h
  | _ => rfl

theorem SlotError.level_slot {e : SlotError} (h : e ≠ .noScope) :
    (FaultCause.malformed (.slot e)).aboutLevels = false := by
  cases e <;> first | rfl | exact absurd rfl h

theorem SlotError.level_cause (f : FunctionCode) {e : SlotError} (h : e ≠ .noScope) :
    (e.cause f).aboutLevels = false := by
  cases e <;> first | rfl | exact absurd rfl h

/-- The fault of an instruction that has what it takes. -/
def Trap.Level : Trap → Prop
  | .fault f => f.cause.aboutLevels = false
  | .lost _ => True

theorem Trap.level_located {t : Trap} (h : t.Level) (span : Option Span) (function : String) :
    (t.located span function).Level := by
  cases t with
  | fault f => obtain ⟨cause, s, _ | g⟩ := f <;> exact h
  | lost type => trivial

namespace BindingM

/-- Only without a scope does a declaration miss one. -/
theorem scopes_declare {i : Nat} {v : Value} {b b' : Bindings}
    (h : declare i v b = .error .noScope b') : b.scopes = [] := by
  unfold declare at h
  rw [bind_apply, slot_apply] at h
  cases hs : b.slots[i]? with
  | none =>
    rw [hs] at h
    cases h
  | some s =>
    simp only [hs] at h
    cases hl : s.isLive with
    | true =>
      simp only [hl, if_true, bind_apply, throw_apply] at h
      cases h
    | false =>
      simp only [hl, Bool.false_eq_true, if_false, bind_apply, get_apply] at h
      cases hb : b.scopes with
      | nil => rfl
      | cons scope outer =>
        rw [hb] at h
        cases h

/-- Arguments are bound in the scope that is open. -/
theorem scopes_declareArgs {args : List Value} :
    ∀ {first : Nat} {b b' : Bindings}, b.scopes ≠ [] →
    declareArgs first args b ≠ .error .noScope b' := by
  induction args with
  | nil => exact fun _ h => nomatch h
  | cons v rest ih =>
    intro first b b' hb h
    rw [declareArgs, bind_apply] at h
    rcases declare_cases first v b with ⟨-, hne, hd⟩ | ⟨-, e, hd, -⟩
    · rw [hd] at h
      refine ih ?_ h
      obtain ⟨scope, outer, hs⟩ := List.exists_cons_of_ne_nil hb
      rw [declared, hs]
      exact List.cons_ne_nil _ _
    · rw [hd] at h
      cases h
      exact hb (scopes_declare hd)

end BindingM

/-- The frame has just been entered, above this many operands. -/
def Frame.EntersAt (p : Linked) (base : Nat) (fr : Frame) : Prop :=
  (∃ f, p.module.functions[fr.function]? = some f) ∧ fr.ip = 0 ∧ fr.bindings.scopes.length = 1 ∧
    fr.stackBase = base

theorem Frame.entersAt_of_enter {p : Linked} {id base : Nat} {f : FunctionCode}
    {args captures : List Value} {box : Bool} {fr : Frame}
    (hf : p.module.functions[id]? = some f) (h : Frame.enter id f args captures base box = .ok fr) :
    fr.EntersAt p base := by
  obtain ⟨-, -, hs⟩ := Frame.fresh_enter h
  rw [Frame.EntersAt, hs, Frame.enter_eq h]
  exact ⟨⟨f, hf⟩, rfl, rfl, rfl⟩

theorem Frame.scope_enter {id base : Nat} {f : FunctionCode} {args captures : List Value}
    {box : Bool} {e : SlotError}
    (h : Frame.enter id f args captures base box = .error e) : e ≠ .noScope := by
  rintro rfl
  unfold Frame.enter at h
  simp only [BindingM.bind_apply, BindingM.enterScope_apply] at h
  split at h <;> cases h
  exact BindingM.scopes_declareArgs (List.cons_ne_nil _ _) ‹_›

/-! ## Instructions -/

namespace Reaction

/-- Only calls enter functions, and operands are not missed. -/
def Level (call : Bool) : Reaction → Prop
  | fails cause => cause.aboutLevels = false
  | enter _ _ _ _ => call = true
  | _ => True

variable {call : Bool} {p : Linked}

theorem level_ofExcept {x : Except FaultCause Value}
    (h : ∀ c, x = .error c → c.aboutLevels = false) : (ofExcept x).Level call := by
  cases x with
  | ok v => trivial
  | error c => exact h c rfl

theorem level_ofMistype (x : Except Mistype Value) : (ofMistype x).Level call := by
  cases x with
  | ok v => trivial
  | error c => rfl

theorem level_ofDynamic (p : Linked) (function : Nat) (args captures : List Value) :
    (ofDynamic p function args captures).Level true := by
  unfold ofDynamic
  split
  · rfl
  · split <;> rfl

theorem level_ofBuiltin {id : Nat} {args : List Value} {c : FaultCause}
    (h : (ofBuiltin p id args).2 = .error c) : c.aboutLevels = false := by
  unfold ofBuiltin at h
  split at h
  · cases h
    rfl
  · rename_i b _
    dsimp only at h
    cases ha : (b.call p.module args).answer with
    | ok v =>
      rw [ha] at h
      cases h
    | error message =>
      rw [ha] at h
      cases h
      rfl

theorem level_ofCallee (p : Linked) (callee : Value) (args : List Value) :
    (ofCallee p callee args).2.Level true := by
  unfold ofCallee
  split
  · rfl
  · rfl
  · exact level_ofExcept fun c h => level_ofBuiltin h
  · rfl

theorem level_ofCalleeDynamic (p : Linked) (callee : Value) (args : List Value) :
    (ofCalleeDynamic p callee args).2.Level true := by
  unfold ofCalleeDynamic
  split
  · exact level_ofDynamic p _ args _
  · exact level_ofDynamic p _ args _
  · split
    · rfl
    · split
      · refine level_ofExcept fun c h => ?_
        cases hb : (ofBuiltin p _ args).2 with
        | ok v =>
          rw [hb] at h
          cases h
        | error c' =>
          rw [hb] at h
          cases h
          exact level_ofBuiltin hb
      · rfl
  · rfl

theorem level_ofMethod (p : Linked) (receiver : Value) (method : String) (args : List Value) :
    (ofMethod p receiver method args).Level true := by
  unfold ofMethod
  split
  · split
    · rfl
    · split
      · rfl
      · exact level_ofDynamic p _ _ _
  · rfl

theorem level_ofField (m : Module) (v : Value) (index : Nat) : (ofField m v index).Level call := by
  unfold ofField
  split
  · split
    · trivial
    · rfl
  · rfl

theorem level_ofFieldDynamic (m : Module) (v : Value) (name : String) :
    (ofFieldDynamic m v name).Level call := by
  unfold ofFieldDynamic
  split
  · split
    · trivial
    · split
      · rfl
      · split
        · trivial
        · rfl
  · rfl

end Reaction

namespace Instr

variable {p : Linked} {f : FunctionCode} {captures ops : List Value} {i : Instr}

/-- What an instruction comes to whose constant is there. -/
theorem level_react {w : String} {r : Reaction} (hw : i.Within f)
    (hr : i.react? p f captures ops = some (w, r)) : r.Level i.isCall := by
  cases i with
  | const index =>
    cases ops <;> cases hr
    have hc : f.constants[index]? = some f.constants[index] := Array.getElem?_eq_getElem hw
    rw [hc]
    trivial
  | arith op kind =>
    rcases ops with - | ⟨a, - | ⟨b, - | ⟨c, ops⟩⟩⟩ <;> cases hr
    exact Reaction.level_ofExcept fun c h => FaultCause.level_ofOperator (Operator.cause_arith h)
  | neg kind =>
    rcases ops with - | ⟨a, - | ⟨b, ops⟩⟩ <;> cases hr
    exact Reaction.level_ofExcept fun c h => FaultCause.level_ofOperator (Operator.cause_negate h)
  | order op kind =>
    rcases ops with - | ⟨a, - | ⟨b, - | ⟨c, ops⟩⟩⟩ <;> cases hr
    refine Reaction.level_ofExcept fun c h => ?_
    cases ho : Operator.order p.module op kind a b with
    | ok v =>
      rw [ho] at h
      cases h
    | error c' =>
      rw [ho] at h
      cases h
      exact FaultCause.level_ofOperator (Operator.cause_order ho)
  | eq | ne =>
    rcases ops with - | ⟨a, - | ⟨b, - | ⟨c, ops⟩⟩⟩ <;> cases hr
    trivial
  | not =>
    rcases ops with - | ⟨a, - | ⟨b, ops⟩⟩ <;> cases hr
    cases a.unboxed <;> trivial
  | cast target =>
    rcases ops with - | ⟨a, - | ⟨b, ops⟩⟩ <;> cases hr
    exact Reaction.level_ofExcept fun c h => FaultCause.level_ofOperator (Operator.cause_convert h)
  | loadCapture index =>
    cases ops <;> cases hr
    cases captures[index]? <;> trivial
  | getField index =>
    rcases ops with - | ⟨a, - | ⟨b, ops⟩⟩ <;> cases hr
    exact Reaction.level_ofField _ a index
  | getFieldDynamic name =>
    rcases ops with - | ⟨a, - | ⟨b, ops⟩⟩ <;> cases hr
    exact Reaction.level_ofFieldDynamic _ a name
  | makeClosure function n => cases ops <;> cases hr <;> trivial
  | loadNative id =>
    cases ops <;> cases hr
    trivial
  | callValue n =>
    cases ops with
    | nil => cases hr
    | cons callee args =>
      obtain ⟨rfl, rfl⟩ := Prod.mk.inj (Option.some.inj hr)
      exact Reaction.level_ofCallee p callee args
  | callDynamic n =>
    cases ops with
    | nil => cases hr
    | cons callee args =>
      obtain ⟨rfl, rfl⟩ := Prod.mk.inj (Option.some.inj hr)
      exact Reaction.level_ofCalleeDynamic p callee args
  | callMethodDynamic method n =>
    cases ops <;> cases hr
    exact Reaction.level_ofMethod p _ method _
  | callNative id n =>
    cases hr
    exact Reaction.level_ofExcept fun c h => Reaction.level_ofBuiltin h
  | box =>
    rcases ops with - | ⟨a, - | ⟨b, ops⟩⟩ <;> cases hr
    trivial
  | unbox tag =>
    rcases ops with - | ⟨a, - | ⟨b, ops⟩⟩ <;> cases hr
    exact Reaction.level_ofMistype _
  | format n | makeStruct type n | call function n =>
    cases hr
    trivial
  | _ => cases hr

/-- What is left of the bindings that an instruction operates on. -/
theorem level_rebind {act : BindingM (Option Value × Option (ReleaseKind × List Nat))}
    {b b' : Bindings} {v : Option Value} {released : Option (ReleaseKind × List Nat)}
    (hr : i.rebind? ops = some act) (h : act b = .ok (v, released) b') :
    v.toList.length = i.pushes ∧ b'.scopes.length = (i.after ⟨0, b.scopes.length⟩).depth := by
  -- an operation that leaves the scopes as they are and gives nothing
  have quiet {x : BindingM Unit} (hx : ∀ b', x b = .ok () b' → b'.scopes.length = b.scopes.length)
      (h :
        (do x; return (none, none) : BindingM (Option Value × Option (ReleaseKind × List Nat))) b =
        .ok (v, released) b') : v.toList.length = 0 ∧ b'.scopes.length = b.scopes.length := by
    rw [BindingM.bind_apply] at h
    split at h
    · cases h
      exact ⟨rfl, hx _ ‹_›⟩
    · cases h
  cases i with
  | enterScope =>
    cases ops <;> cases hr
    cases h
    exact ⟨rfl, rfl⟩
  | exitScope =>
    cases ops <;> cases hr
    rw [BindingM.bind_apply] at h
    rcases BindingM.exitScope_cases b with ⟨-, he⟩ | ⟨-, he⟩ <;> rw [he] at h <;> cases h
    exact ⟨rfl, List.length_tail⟩
  | declare slot =>
    rcases ops with - | ⟨w, - | ⟨w', ops⟩⟩ <;> cases hr
    refine quiet (fun b' hd => ?_) h
    rcases BindingM.declare_cases slot w b with ⟨-, -, he⟩ | ⟨-, e, he, -⟩ <;>
      rw [he] at hd <;> cases hd
    exact List.length_modifyHead
  | load slot =>
    cases ops <;> cases hr
    rw [BindingM.bind_apply] at h
    rcases BindingM.load_cases slot b with ⟨w, -, he⟩ | ⟨-, e, he, -⟩ <;> rw [he] at h <;> cases h
    exact ⟨rfl, rfl⟩
  | move slot =>
    cases ops <;> cases hr
    rw [BindingM.bind_apply] at h
    rcases BindingM.take_cases slot b with ⟨w, -, he⟩ | ⟨-, e, he, -⟩ <;> rw [he] at h <;> cases h
    exact ⟨rfl, rfl⟩
  | store slot =>
    rcases ops with - | ⟨w, - | ⟨w', ops⟩⟩ <;> cases hr
    refine quiet (fun b' hd => ?_) h
    rcases BindingM.store_cases slot w b with ⟨-, he⟩ | ⟨-, e, he, -⟩ <;> rw [he] at hd <;> cases hd
    rfl
  | storeField slot path =>
    rcases ops with - | ⟨w, - | ⟨w', ops⟩⟩ <;> cases hr
    refine quiet (fun b' hd => ?_) h
    rcases BindingM.storeField_cases slot path w b with
      ⟨_, _, -, -, he⟩ | ⟨_, -, -, he⟩ | ⟨-, e, he, -⟩ <;> rw [he] at hd <;> cases hd
    rfl
  | free slot =>
    cases ops <;> cases hr
    rw [BindingM.bind_apply] at h
    rcases BindingM.free_cases slot b with ⟨-, he⟩ | ⟨-, e, he, -⟩ <;> rw [he] at h <;> cases h
    exact ⟨rfl, rfl⟩
  | _ => cases hr

/-- An instruction with the scope that it needs does not miss one. -/
theorem scope_rebind {act : BindingM (Option Value × Option (ReleaseKind × List Nat))}
    {b b' : Bindings} {e : SlotError} (hr : i.rebind? ops = some act)
    (hb : i.needsScope = true → b.scopes ≠ []) (h : act b = .error e b') : e ≠ .noScope := by
  -- what is done with the answer of an operation cannot fail
  have first {α : Type} {x : BindingM α} {g : α → Option Value × Option (ReleaseKind × List Nat)}
      (h : (do return g (← x)) b = .error e b') : x b = .error e b' := by
    rw [BindingM.bind_apply] at h
    split at h
    · cases h
    · cases h
      assumption
  -- operations on a live slot
  have loaded {α : Type} {slot : Nat} {g : Value → BindingM α}
      (h : (BindingM.load slot >>= g) b = .error e b')
      (hg : ∀ v, g v b = .error e b' → e ≠ .noScope) : e ≠ .noScope := by
    rw [BindingM.bind_apply, BindingM.load_apply] at h
    split at h
    · rename_i hv
      split at hv <;> cases hv
      exact hg _ h
    · rename_i he
      split at he <;> cases he <;> cases h <;> exact nofun
  cases i with
  | enterScope =>
    cases ops <;> cases hr
    cases h
  | exitScope =>
    cases ops <;> cases hr
    rcases BindingM.exitScope_cases b with ⟨-, he⟩ | ⟨hnil, -⟩
    · rw [first h] at he
      cases he
    · exact absurd hnil (hb rfl)
  | declare slot =>
    rcases ops with - | ⟨w, - | ⟨w', ops⟩⟩ <;> cases hr
    rintro rfl
    exact hb rfl (BindingM.scopes_declare (first (g := fun _ => (none, none)) h))
  | load slot =>
    cases ops <;> cases hr
    exact loaded h fun v hv => by cases hv
  | move slot =>
    cases ops <;> cases hr
    exact loaded (first h) fun v hv => by cases hv
  | store slot =>
    rcases ops with - | ⟨w, - | ⟨w', ops⟩⟩ <;> cases hr
    exact loaded (first (g := fun _ => (none, none)) h) fun v hv => by cases hv
  | storeField slot path =>
    rcases ops with - | ⟨w, - | ⟨w', ops⟩⟩ <;> cases hr
    refine loaded (first (g := fun _ => (none, none)) h) fun v hv => ?_
    cases hp : Value.setPath? w path v <;> simp only [hp] at hv <;> cases hv
    exact nofun
  | free slot =>
    cases ops <;> cases hr
    exact loaded (first (g := fun _ => (none, some (.explicit, [slot]))) h) fun v hv => by cases hv
  | _ => cases hr

end Instr

/-- A function is entered, or there is a fault of the call. -/
theorem Exec.enter_cases {p : Linked} (function : Nat) (args captures : List Value) (box : Bool)
    (s : Running) :
    (∃ c : FaultCause, c.aboutLevels = false ∧
      enter p function args captures box s = .error (.fault (.of c)) s) ∨
    ∃ new : Frame, new.EntersAt p s.task.stack.length ∧
      enter p function args captures box s = .ok () (s.withFrames (new :: s.task.frames)) := by
  rw [enter_apply]
  split
  · exact .inl ⟨_, rfl, rfl⟩
  · cases hf : p.module.functions[function]? with
    | none => exact .inl ⟨_, rfl, rfl⟩
    | some g =>
      dsimp only
      cases hn : Frame.enter function g args captures s.task.stack.length box with
      | error e => exact .inl ⟨_, SlotError.level_cause g (Frame.scope_enter hn), rfl⟩
      | ok new => exact .inr ⟨new, Frame.entersAt_of_enter hf hn, rfl⟩

/-- What an instruction makes of its task and of the table, when `rest` are the operands that it
leaves alone. The frame is past the instruction already. -/
inductive Works (p : Linked) (i : Instr) (fr : Frame) (callers : List Frame) (rest : List Value)
    (s : Running) : EStateM.Result Trap Running Flow → Prop
  | fails {t : Trap} {s' : Running} (ht : t.Level)
    (h : s'.task = { s.task with frames := s'.task.frames, stack := s'.task.stack })
    (hs : s.scheduler.Attends s'.scheduler) : Works p i fr callers rest s (.error t s')
  | goes {flow : Flow} {s' : Running} {k : Nat} {b : Bindings} {w : List Value}
    (hflow : flow = .goOn ∨ flow = .yielded) (hi : i ≠ .ret) (hip : i.Goes fr.ip k)
    (hb : b.scopes.length = (i.after ⟨0, fr.bindings.scopes.length⟩).depth)
    (hw : w.length = i.pushes)
    (h : s'.task =
      { s.task with frames := { fr with ip := k, bindings := b } :: callers, stack := w ++ rest })
    (hs : s.scheduler.Attends s'.scheduler) : Works p i fr callers rest s (.ok flow s')
  | spawns {new : Frame} {v : Value} {s' : Running} (hi : i.plain = true) (hpush : i.pushes = 1)
    (hn : new.EntersAt p 0)
    (h : s'.task = { s.task with frames := fr :: callers, stack := v :: rest })
    (hs : s'.scheduler = (s.scheduler.spawn new).2) : Works p i fr callers rest s (.ok .goOn s')
  | waits {id : Nat} {target : Task} {s' : Running} (hi : i.plain = true) (hpush : i.pushes = 1)
    (ht : s.scheduler.get? id = some target) (hc : target.state ≠ .completed)
    (h : s'.task = { s.task with frames := fr :: callers, stack := rest })
    (hs : s'.scheduler = s.scheduler.addWaiter s.task.id id) :
    Works p i fr callers rest s (.ok .suspended s')
  | enters {new : Frame} {s' : Running} (hi : i.isCall = true) (hn : new.EntersAt p rest.length)
    (h : s'.task = { s.task with frames := new :: fr :: callers, stack := rest })
    (hs : s'.scheduler = s.scheduler) : Works p i fr callers rest s (.ok .goOn s')
  | returns {v : Value} {s' : Running} (hc : callers ≠ [])
    (h : s'.task = { s.task with
      frames := callers, stack := v :: rest.drop (rest.length - fr.stackBase) })
    (hs : s'.scheduler = s.scheduler) : Works p i fr callers rest s (.ok .goOn s')
  | finishes {v : Value} {s' : Running} (hc : callers = [])
    (h : s'.task = { s.task with frames := s'.task.frames, stack := s'.task.stack })
    (hs : s'.scheduler = s.scheduler) : Works p i fr callers rest s (.ok (.finished v) s')

namespace Works

variable {p : Linked} {f : FunctionCode} {i : Instr} {fr : Frame} {callers : List Frame}
  {rest ops : List Value} {s : Running}

theorem fail {c : FaultCause} (hc : c.aboutLevels = false) {s' : Running}
    (h : s'.task = { s.task with frames := s'.task.frames, stack := s'.task.stack })
    (hs : s'.scheduler = s.scheduler) : Works p i fr callers rest s (Exec.fail c s') :=
  .fails hc h (hs ▸ .same)

/-- An instruction that only works on its operands. -/
theorem of_react {w : String} {r : Reaction} (hi : i.reacts = true)
    (hs : s.task.frames = fr :: callers) (hr : r.Level i.isCall) :
    Works p i fr callers rest s (Exec.perform p r ((s.withStack rest).writing w)) := by
  have hplain : i.plain = true := by cases i <;> first | rfl | cases hi
  have hpush : i.pushes = 1 := by cases i <;> first | rfl | cases hi
  have hret : i ≠ .ret := by rintro rfl; cases hi
  have hgo : i.Goes fr.ip fr.ip := by cases i <;> first | rfl | cases hi
  cases r with
  | value v =>
    refine .goes (b := fr.bindings) (w := [v]) (k := fr.ip)
      (.inl rfl) hret hgo ?_ hpush.symm ?_ .same
    · rw [i.plain_after hplain]
    · rw [← hs]
      rfl
  | fails cause => exact .fail hr rfl rfl
  | lost type => exact .fails trivial rfl .same
  | enter function args captures box =>
    rw [Exec.perform, Exec.goOn_apply]
    rcases Exec.enter_cases function args captures box ((s.withStack rest).writing w) with
      ⟨c, hc, he⟩ | ⟨new, hn, he⟩
    · rw [he]
      exact .fails hc rfl .same
    · rw [he]
      refine .enters hr hn ?_ rfl
      rw [← hs]
      rfl

/-- An instruction that operates on the bindings of its frame. -/
theorem of_rebind {act : BindingM (Option Value × Option (ReleaseKind × List Nat))}
    (hs : s.task.frames = fr :: callers) (hr : i.rebind? ops = some act)
    (hscope : i.needsScope = true → 0 < fr.bindings.scopes.length)
    (hstack : s.task.stack = ops.reverse ++ rest) :
    Works p i fr callers rest s (Exec.step p f i s) := by
  rw [Exec.step_rebind hs hr hstack]
  cases ha : act fr.bindings with
  | error e b =>
    refine .fails (SlotError.level_cause f (Instr.scope_rebind hr (fun h => ?_) ha)) rfl .same
    exact List.length_pos_iff.1 (hscope h)
  | ok r b =>
    obtain ⟨v, released⟩ := r
    obtain ⟨hv, hb⟩ := Instr.level_rebind hr ha
    have hret : i ≠ .ret := by rintro rfl; cases ops <;> cases hr
    have hgo : i.Goes fr.ip fr.ip := by cases i <;> first | rfl | (cases ops <;> cases hr)
    refine .goes (.inl rfl) hret hgo hb hv ?_ ?_
    · rw [Running.task_releasing]
      rfl
    · rw [Running.scheduler_releasing]
      exact .same

/-- The one instruction that looks at other tasks. -/
theorem of_await {v : Value} (hs : s.task.frames = fr :: callers)
    (hfaults : ∀ id t g, s.scheduler.get? id = some t → t.result = some (.error g) →
      g.cause.aboutLevels = false) (hstack : s.task.stack = v :: rest) :
    Works p .await fr callers rest s (Exec.step p f .await s) := by
  rw [Exec.step_await hstack]
  cases v.unboxed with
  | task id =>
    dsimp only
    split
    · exact .fail rfl rfl rfl
    · cases ht : s.scheduler.get? id with
      | none => exact .fail rfl rfl rfl
      | some target =>
        dsimp only
        cases hc : target.isCompleted with
        | false =>
          refine .waits rfl rfl ht (by simpa [Task.isCompleted] using hc) ?_ rfl
          rw [← hs]
          rfl
        | true =>
          simp only [if_true]
          rcases hr : target.result with - | g | w
          · exact .fails (t := .fault (.of (.malformed (.noResult id)))) rfl rfl (.observes id)
          · exact .fails (hfaults id target g ht hr) rfl (.observes id)
          · refine .goes (b := fr.bindings) (w := [w]) (k := fr.ip) (.inl rfl)
              (fun h => by cases h) rfl rfl rfl ?_ (.observes id)
            rw [← hs]
            rfl
  | _ => exact .fail rfl rfl rfl

theorem step (hs : s.task.frames = fr :: callers) (hw : i.Within f)
    (hscope : i.needsScope = true → 0 < fr.bindings.scopes.length)
    (hfaults : ∀ id t g, s.scheduler.get? id = some t → t.result = some (.error g) →
      g.cause.aboutLevels = false)
    (hn : ops.length = i.pops) (hstack : s.task.stack = ops.reverse ++ rest) :
    Works p i fr callers rest s (Exec.step p f i s) := by
  -- one operand, and none
  have one_eq (h : ops.length = 1) : ∃ v, s.task.stack = v :: rest := by
    obtain ⟨v, rfl⟩ := List.length_eq_one_iff.1 h
    exact ⟨v, hstack⟩
  have none_eq (h : ops.length = 0) : s.task.stack = rest := by
    obtain rfl := List.length_eq_zero_iff.1 h
    exact hstack
  -- the way of a conditional jump
  have jumps {target : Nat} {wanted : Bool} (hi : i = .jumpIfFalse target ∧ wanted = false ∨
      i = .jumpIfTrue target ∧ wanted = true) (hn : ops.length = 1) :
      Works p i fr callers rest s (Exec.step p f i s) := by
    obtain ⟨v, hv⟩ := one_eq hn
    rw [Exec.step_jumpIf hi hs hv]
    have hret : i ≠ .ret := by rcases hi with ⟨rfl, -⟩ | ⟨rfl, -⟩ <;> exact fun h => by cases h
    have hpush : 0 = i.pushes := by rcases hi with ⟨rfl, -⟩ | ⟨rfl, -⟩ <;> rfl
    have hgo (ip : Nat) (h : ip = target ∨ ip = fr.ip) : i.Goes fr.ip ip := by
      rcases hi with ⟨rfl, -⟩ | ⟨rfl, -⟩ <;> exact h
    have hb : fr.bindings.scopes.length = (i.after ⟨0, fr.bindings.scopes.length⟩).depth := by
      rcases hi with ⟨rfl, -⟩ | ⟨rfl, -⟩ <;> rfl
    cases v.unboxed with
    | bool b =>
      dsimp only
      split
      · exact .goes (b := fr.bindings) (w := []) (.inl rfl) hret
          (hgo _ (.inl rfl)) hb hpush rfl .same
      · refine .goes (b := fr.bindings) (w := []) (.inl rfl) hret
          (hgo _ (.inr rfl)) hb hpush ?_ .same
        rw [← hs]
        rfl
    | _ => exact .fail rfl rfl rfl
  by_cases hreact : i.reacts = true
  · obtain ⟨w, r, hr⟩ : ∃ w r, i.react? p f fr.captures ops = some (w, r) :=
      Instr.exists_react hreact hn
    rw [Exec.step_react hs hr hn hstack]
    exact .of_react hreact hs (Instr.level_react hw hr)
  by_cases hbind : i.binds = true
  · obtain ⟨act, hr⟩ := Instr.exists_rebind hbind hn
    exact .of_rebind hs hr hscope hstack
  cases i with
  | pop =>
    obtain ⟨v, hv⟩ := one_eq hn
    rw [Exec.step_pop hv]
    refine .goes (b := fr.bindings) (w := []) (k := fr.ip) (.inl rfl)
      (fun h => by cases h) rfl rfl rfl ?_ .same
    rw [← hs]
    rfl
  | dup =>
    obtain ⟨v, hv⟩ := one_eq hn
    rw [Exec.step_dup hv]
    refine .goes (b := fr.bindings) (w := [v, v]) (k := fr.ip) (.inl rfl)
      (fun h => by cases h) rfl rfl rfl ?_ .same
    rw [← hs]
    rfl
  | jump target =>
    rw [Exec.step_jump target hs]
    refine .goes (b := fr.bindings) (w := []) (.inl rfl) (fun h => by cases h) rfl rfl rfl ?_ .same
    rw [← none_eq hn]
    rfl
  | jumpIfFalse target => exact jumps (.inl ⟨rfl, rfl⟩) hn
  | jumpIfTrue target => exact jumps (.inr ⟨rfl, rfl⟩) hn
  | ret =>
    obtain ⟨v, hv⟩ := one_eq hn
    rw [Exec.step_ret hs hv]
    dsimp only
    split
    · rename_i hc
      refine .finishes hc ?_ ?_
      · rw [Running.task_releasing]
        rfl
      · rw [Running.scheduler_releasing]
        rfl
    · rename_i hc
      refine .returns (v := if fr.boxResult then v.boxed else v) hc ?_ ?_
      · rw [Running.task_releasing]
        rfl
      · rw [Running.scheduler_releasing]
        rfl
  | spawn function n =>
    obtain rfl : ops.length = n := hn
    rw [Exec.step_spawn function ops hstack]
    cases hf : p.module.functions[function]? with
    | none => exact .fail rfl rfl rfl
    | some g =>
      dsimp only
      cases he : Frame.enter function g ops [] 0 false with
      | error e => exact .fail (SlotError.level_cause g (Frame.scope_enter he)) rfl rfl
      | ok new =>
        refine .spawns (v := .task s.scheduler.tasks.size) rfl rfl
          (Frame.entersAt_of_enter hf he) ?_ rfl
        rw [← hs]
        rfl
  | await =>
    obtain ⟨v, hv⟩ := one_eq hn
    exact .of_await hs hfaults hv
  | yieldNow =>
    refine .goes (b := fr.bindings) (w := []) (k := fr.ip) (.inr rfl)
      (fun h => by cases h) rfl rfl rfl ?_ .same
    rw [List.nil_append, ← none_eq hn, ← hs]
  | _ => first | exact absurd rfl hreact | exact absurd rfl hbind

theorem located {x : Exec Flow} {s' : Running} (h : Works p i fr callers rest s (x s'))
    (span : Option Span) (name : String) : Works p i fr callers rest s
      (EStateM.adaptExcept (fun t : Trap => t.located span name) x s') := by
  unfold EStateM.adaptExcept
  cases hx : x s' with
  | ok flow r =>
    rw [hx] at h
    exact h
  | error t r =>
    rw [hx] at h
    cases h with
    | fails ht h hs => exact .fails (Trap.level_located ht span name) h hs

/-- The frames that the task had before do not matter. -/
theorem of_frames {frames : List Frame} {r : EStateM.Result Trap Running Flow}
    (h : Works p i fr callers rest (s.withFrames frames) r) : Works p i fr callers rest s r := by
  cases h with
  | fails ht h hs => exact .fails ht h hs
  | goes hflow hi hip hb hvs h hs => exact .goes hflow hi hip hb hvs h hs
  | spawns hi hpush hn h hs => exact .spawns hi hpush hn h hs
  | waits hi hpush ht hc h hs => exact .waits hi hpush ht hc h hs
  | enters hi hn h hs => exact .enters hi hn h hs
  | returns hc h hs => exact .returns hc h hs
  | finishes hc h hs => exact .finishes hc h hs

end Works

/-! ## Frames -/

/-- The frame is at this level of its function. -/
def Frame.Stands (p : Linked) (fr : Frame) (l : Level) : Prop :=
  ∃ f, p.module.functions[fr.function]? = some f ∧ f.Arrives fr.ip l ∧
    fr.bindings.scopes.length = l.depth

/-- Frames stand on a stack of this height, innermost first: each has as many operands above its
base as its level says, but for those that are still to come. -/
def StandOn (p : Linked) (pending : Nat) : List Frame → Nat → Prop
  | [], _ => True
  | fr :: callers, height => ∃ own depth, fr.Stands p ⟨own + pending, depth⟩ ∧
    fr.stackBase + own = height ∧ StandOn p 1 callers fr.stackBase

/-- The innermost frame of a task whose stack has this height is at an instruction of its function,
at the level that its address has there, with the operands and scopes that the instruction takes. -/
structure Frame.Poised (p : Linked) (fr : Frame) (height : Nat) (f : FunctionCode) (l : Level)
    (i : Instr) : Prop where
  code : p.module.functions[fr.function]? = some f
  level : f.Arrives fr.ip l
  instr : f.code[fr.ip]? = some i
  fits : i.Fits l
  scopes : fr.bindings.scopes.length = l.depth
  operands : height = fr.stackBase + l.height

theorem StandOn.arrives {p : Linked} {frames : List Frame} {height : Nat}
    (h : StandOn p 1 frames height) : StandOn p 0 frames (height + 1) := by
  cases frames with
  | nil => trivial
  | cons fr callers =>
    obtain ⟨own, depth, hs, rfl, hc⟩ := h
    exact ⟨own + 1, depth, hs, rfl, hc⟩

theorem Frame.EntersAt.stands {p : Linked} {base : Nat} {fr : Frame} (h : fr.EntersAt p base) :
    fr.Stands p ⟨0, 1⟩ := by
  obtain ⟨⟨f, hf⟩, hip, hs, -⟩ := h
  exact ⟨f, hf, by rw [hip]; exact .start, hs⟩

/-- How many operands a task is to be handed before it goes on. -/
def Task.pending (t : Task) : Nat :=
  if t.state = .suspended ∨ t.resumeWith.isSome = true then 1 else 0

theorem Task.pending_of_ne {t : Task} (h : t.state ≠ .suspended) :
    t.pending = if t.resumeWith.isSome = true then 1 else 0 := by
  simp [pending, h]

/-- The frames of the task stand on its operands, and its faults do not concern levels. -/
structure Task.Levelled (p : Linked) (t : Task) : Prop where
  frames : StandOn p t.pending t.frames t.stack.length
  faults : ∀ f, t.resumeWith = some (.error f) ∨ t.result = some (.error f) →
    f.cause.aboutLevels = false

namespace Scheduler

structure Levelled (p : Linked) (s : Scheduler) (running : Option Task) : Prop where
  consistent : s.Consistent running
  tasks : ∀ u, s.Knows running u → u.Levelled p

variable {p : Linked} {s s' : Scheduler} {t u : Task} {i : Nat}

theorem levelled_start {frame : Frame} (h : frame.EntersAt p 0) :
    (Scheduler.empty.spawn frame).2.Levelled p none := by
  refine ⟨consistent_start frame, ?_⟩
  rintro u (hu | hu)
  · rw [get?_spawn] at hu
    split at hu <;> cases hu
    refine ⟨⟨0, 1, h.stands, h.2.2.2, trivial⟩, nofun⟩
  · cases hu

/-- The running task may change its frames and operands. -/
theorem Levelled.change (h : s.Levelled p (some t)) {t' : Task}
    (ht : t' = { t with frames := t'.frames, stack := t'.stack, resumeWith := t'.resumeWith })
    (hre : t'.resumeWith = none) (hf : StandOn p 0 t'.frames t'.stack.length) :
    s.Levelled p (some t') := by
  refine ⟨h.consistent.change ht, ?_⟩
  rintro u (hu | hu)
  · exact h.tasks u (.inl hu)
  · cases hu
    obtain ⟨-, -, hrun⟩ := h.consistent.runs rfl
    have hstate : t'.state = .running := by rw [ht]; exact hrun
    have hresult : t'.result = t.result := by rw [ht]
    refine ⟨?_, fun f hf => ?_⟩
    · rw [Task.pending_of_ne (by rw [hstate]; exact nofun), hre]
      exact hf
    · rw [hre, hresult] at hf
      exact (h.tasks t (.inr rfl)).faults f (.inr (hf.resolve_left nofun))

theorem Levelled.works (h : s.Levelled p (some t)) (hre : t.resumeWith = none) {t' : Task}
    {frames : List Frame} {stack : List Value} (ht : t' = { t with frames, stack })
    (hf : StandOn p 0 frames stack.length) : s.Levelled p (some t') ∧ t'.resumeWith = none := by
  subst ht
  exact ⟨h.change rfl hre hf, hre⟩

/-- The first task of the queue begins its turn. -/
theorem Levelled.take (h : s.Levelled p none) {rest : List Nat} (hr : s.ready = i :: rest)
    (ht : s.get? i = some t) :
    Scheduler.Levelled p ⟨s.tasks.setIfInBounds i none, rest⟩
      (some { t with state := .running }) := by
  refine ⟨h.consistent.take hr ht, ?_⟩
  rintro u (hu | hu)
  · rw [get?_taken] at hu
    split at hu
    · cases hu
    · exact h.tasks u (.inl hu)
  · cases hu
    have hready : t.state = .ready := by
      obtain ⟨v, hv, hs⟩ := h.consistent.mem_ready.1 (show i ∈ s.ready by simp [hr])
      rw [ht] at hv
      cases hv
      exact hs
    obtain ⟨hf, hfaults⟩ := h.tasks t (.inl (h.consistent.id_eq ht ▸ ht))
    refine ⟨?_, hfaults⟩
    rw [Task.pending_of_ne (by rw [hready]; exact nofun)] at hf
    rw [Task.pending_of_ne (show TaskState.running ≠ .suspended from fun h => by cases h)]
    exact hf

theorem Levelled.attends {running : Option Task} (h : s.Levelled p running) (hs : s.Attends s') :
    s'.Levelled p running := by
  cases hs with
  | same => exact h
  | observes id =>
    refine ⟨h.consistent.observe id, ?_⟩
    rintro u (hu | hu)
    · rw [get?_modifyTask] at hu
      split at hu
      · obtain ⟨v, hv, rfl⟩ := Option.map_eq_some_iff.1 hu
        exact ⟨(h.tasks v (.inl hv)).frames, (h.tasks v (.inl hv)).faults⟩
      · exact h.tasks u (.inl hu)
    · exact h.tasks u (.inr hu)

theorem Levelled.spawn (h : s.Levelled p (some t)) {frame : Frame} (hf : frame.EntersAt p 0) :
    (s.spawn frame).2.Levelled p (some t) := by
  refine ⟨h.consistent.spawn frame, ?_⟩
  rintro u (hu | hu)
  · rw [get?_spawn] at hu
    split at hu
    · cases hu
      exact ⟨⟨0, 1, hf.stands, hf.2.2.2, trivial⟩, nofun⟩
    · exact h.tasks u (.inl hu)
  · exact h.tasks u (.inr hu)

theorem Levelled.yield (h : s.Levelled p (some t)) :
    (s.putBack { t with state := .ready }).Levelled p none := by
  refine ⟨h.consistent.yield, ?_⟩
  rintro u (hu | hu)
  · rw [get?_stopped h.consistent (u := { t with state := .ready }) rfl] at hu
    split at hu
    · cases hu
      obtain ⟨-, -, hrun⟩ := h.consistent.runs rfl
      obtain ⟨hf, hfaults⟩ := h.tasks t (.inr rfl)
      refine ⟨?_, hfaults⟩
      rw [Task.pending_of_ne (by rw [hrun]; exact nofun)] at hf
      rw [Task.pending_of_ne (show TaskState.ready ≠ .suspended from fun h => by cases h)]
      exact hf
    · exact h.tasks u (.inl hu)
  · cases hu

/-- A task that waits is to be handed an outcome. -/
theorem Levelled.suspend (h : s.Consistent (some t))
    (htasks : ∀ u, s.get? u.id = some u → u.Levelled p) {j : Nat} (hj : s.get? j = some u)
    (hu : u.state ≠ .completed) (hf : StandOn p 1 t.frames t.stack.length)
    (hfaults : ∀ f, t.resumeWith = some (.error f) ∨ t.result = some (.error f) →
      f.cause.aboutLevels = false) :
    ((s.addWaiter t.id j).putBack { t with state := .suspended }).Levelled p none := by
  refine ⟨h.suspend hj hu, ?_⟩
  rintro v (hv | hv)
  · rw [get?_putBack] at hv
    split at hv
    · cases hv
      exact ⟨hf, hfaults⟩
    · rw [addWaiter, get?_modifyTask] at hv
      split at hv
      · obtain ⟨w, hw, rfl⟩ := Option.map_eq_some_iff.1 hv
        exact ⟨(htasks w hw).frames, (htasks w hw).faults⟩
      · exact htasks v hv
  · cases hv

theorem Levelled.complete (hc : s.Consistent (some t))
    (htasks : ∀ u, s.get? u.id = some u → u.Levelled p) (hre : t.resumeWith = none)
    {outcome : Outcome} (ho : ∀ f, outcome = .error f → f.cause.aboutLevels = false) :
    ((s.complete t outcome).2.putBack (s.complete t outcome).1).Levelled p none := by
  refine ⟨hc.complete outcome, ?_⟩
  rintro u (hu | hu)
  · rw [(hc.table_complete outcome).1] at hu
    split at hu
    · cases hu
      refine ⟨trivial, fun f hf => ?_⟩
      rcases hf with hf | hf
      · rw [show (s.complete t outcome).1.resumeWith = t.resumeWith from rfl, hre] at hf
        cases hf
      · exact ho f (Option.some.inj hf)
    · split at hu
      · rename_i hw
        obtain ⟨v, hv, rfl⟩ := Option.map_eq_some_iff.1 hu
        -- what the task waits for, it is handed now
        have hvw : v.state = .suspended := hc.suspended_of_mem hw hv
        obtain ⟨hf, hfaults⟩ := htasks v hv
        refine ⟨?_, fun f hf => ?_⟩
        · rw [Task.pending, hvw] at hf
          exact hf
        · rcases hf with hf | hf
          · exact ho f (Option.some.inj hf)
          · exact hfaults f (.inr hf)
      · exact htasks u hu
  · cases hu

end Scheduler

namespace MachineState

/-- Frames stand on the operands of their tasks; the task that runs waits for nothing. -/
def Levelled (p : Linked) : MachineState → Prop
  | idle m => m.scheduler.Levelled p none
  | busy s => s.scheduler.Levelled p (some s.task) ∧ s.task.resumeWith = none

/-- What the machine makes of the answer to an instruction. -/
def LevelledAfter (p : Linked) : EStateM.Result Trap Running Flow → Prop
  | .ok .goOn s => (busy s).Levelled p
  | .ok (.finished v) s => (idle (s.completeWith (.ok v))).Levelled p
  | .ok .yielded s => (idle (s.suspendAs .ready)).Levelled p
  | .ok .suspended s => (idle (s.suspendAs .suspended)).Levelled p
  | .error (.fault f) s => f.cause.aboutLevels = false ∧ (idle (s.failWith p f)).Levelled p
  | .error (.lost _) _ => True

variable {p : Linked} {a b : MachineState} {s : Running}

theorem levelled_failWith (hc : s.scheduler.Consistent (some s.task))
    (htasks : ∀ u, s.scheduler.get? u.id = some u → u.Levelled p) (hre : s.task.resumeWith = none)
    {f : Fault} (hf : f.cause.aboutLevels = false) : (idle (s.failWith p f)).Levelled p := by
  refine Scheduler.Levelled.complete ?_ ?_ hre fun g hg => ?_
  · rw [Machine.scheduler_unwind]
    exact hc
  · rw [Machine.scheduler_unwind]
    exact htasks
  · cases hg
    exact hf

theorem levelled_takeTurn {m : Machine} (h : (idle m).Levelled p) (hs : takeTurn p m = .ok b) :
    b.Levelled p := by
  unfold takeTurn at hs
  have hc : m.scheduler.Consistent none := h.consistent
  cases hready : m.scheduler.ready with
  | nil =>
    rw [Scheduler.next?, hready] at hs
    cases hs
  | cons i rest =>
    obtain ⟨t, ht, hst⟩ := hc.mem_ready.1 (by rw [hready]; exact List.mem_cons_self ..)
    rw [Scheduler.next?_cons hready ht] at hs
    have htake := Scheduler.Levelled.take h hready ht
    obtain ⟨hf, hfaults⟩ := htake.tasks _ (.inr rfl)
    dsimp only at hs
    cases hre : t.resumeWith with
    | none =>
      rw [hre] at hs
      cases hs
      exact ⟨hre ▸ htake, rfl⟩
    | some outcome =>
      rw [hre] at hs
      rw [Task.pending_of_ne (show TaskState.running ≠ .suspended from fun h => by cases h)] at hf
      dsimp only at hf
      rw [hre] at hf
      cases outcome with
      | ok v =>
        cases hs
        exact ⟨htake.change rfl rfl hf.arrives, rfl⟩
      | error f =>
        cases hs
        refine levelled_failWith (htake.consistent.change rfl) (fun u hu => htake.tasks u (.inl hu))
          rfl (hfaults f (.inl hre))

theorem LevelledAfter.of_works {i : Instr} {fr : Frame} {callers : List Frame} {rest : List Value}
    {r : EStateM.Result Trap Running Flow} (h : (busy s).Levelled p)
    (hw : Works p i { fr with ip := fr.ip + 1 } callers rest s r) {f : FunctionCode} {l : Level}
    (hf : p.module.functions[fr.function]? = some f) (hl : f.Arrives fr.ip l)
    (hi : f.code[fr.ip]? = some i) (hscopes : fr.bindings.scopes.length = l.depth)
    (hrest : fr.stackBase + (l.height - i.pops) = rest.length)
    (hcallers : StandOn p 1 callers fr.stackBase) : LevelledAfter p r := by
  obtain ⟨hlev, hre⟩ := h
  -- the frame after the instruction
  have stands {ip : Nat} {b : Bindings} (hret : i ≠ .ret) (hip : i.Goes (fr.ip + 1) ip)
      (hb : b.scopes.length = (i.after ⟨0, fr.bindings.scopes.length⟩).depth) :
      Frame.Stands p { fr with ip, bindings := b }
      ⟨l.height - i.pops + i.pushes, (i.after l).depth⟩ := by
    refine ⟨f, hf, hl.next hi ⟨hret, hip⟩, hb.trans ?_⟩
    rw [hscopes]
    cases i <;> rfl
  -- the frame that goes on with the next instruction
  have next (hplain : i.plain = true) (hpush : i.pushes = 1) :
      Frame.Stands p { fr with ip := fr.ip + 1 } ⟨l.height - i.pops + 1, (i.after l).depth⟩ := by
    have hret : i ≠ .ret := by rintro rfl; cases hplain
    have hgo : i.Goes (fr.ip + 1) (fr.ip + 1) := by cases i <;> first | rfl | cases hplain
    have := stands (b := fr.bindings) hret hgo (by rw [i.plain_after hplain])
    rwa [hpush] at this
  cases hw with
  | @fails t s' ht htask hs =>
    cases t with
    | lost type => trivial
    | fault g =>
      have hlev' := hlev.attends hs
      have hre' : s'.task.resumeWith = none := by rw [htask]; exact hre
      refine ⟨ht, levelled_failWith (hlev'.consistent.change ?_)
        (fun u hu => hlev'.tasks u (.inl hu)) hre' ht⟩
      rw [hre', ← hre]
      exact htask
  | @goes flow s' ip b vs hflow hret hip hb hvs htask hs =>
    have hon : StandOn p 0 ({ fr with ip, bindings := b } :: callers) (vs ++ rest).length := by
      refine ⟨l.height - i.pops + i.pushes, _, stands hret hip hb, ?_, hcallers⟩
      change fr.stackBase + _ = _
      rw [List.length_append, hvs, ← hrest]
      omega
    obtain ⟨hlev', hre'⟩ := (hlev.attends hs).works hre htask hon
    rcases hflow with rfl | rfl
    · exact ⟨hlev', hre'⟩
    · exact hlev'.yield
  | @spawns new v s' hplain hpush hn htask hs =>
    have hlev' := hlev.spawn hn
    rw [← hs] at hlev'
    refine hlev'.works hre htask ⟨l.height - i.pops + 1, _, next hplain hpush, ?_, hcallers⟩
    rw [List.length_cons, ← hrest]
    rfl
  | @waits id target s' hplain hpush ht hc htask hs =>
    have hid : s'.task.id = s.task.id := by rw [htask]
    have hcons : s.scheduler.Consistent (some s'.task) := by
      rw [htask]
      exact hlev.consistent.change rfl
    have hon : StandOn p 1 s'.task.frames s'.task.stack.length := by
      rw [htask]
      exact ⟨l.height - i.pops, _, next hplain hpush, hrest, hcallers⟩
    have := Scheduler.Levelled.suspend hcons (fun u hu => hlev.tasks u (.inl hu)) ht hc hon (by
      rw [htask]
      exact (hlev.tasks _ (.inr rfl)).faults)
    change Scheduler.Levelled p (s'.scheduler.putBack _) none
    rw [hs, ← hid]
    exact this
  | @enters new s' hcall hn htask hs =>
    have hplain : i.plain = true := by cases i <;> first | rfl | cases hcall
    have hpush : i.pushes = 1 := by cases i <;> first | rfl | cases hcall
    rw [← hs] at hlev
    refine hlev.works hre htask ⟨0, 1, hn.stands, hn.2.2.2, ?_⟩
    rw [hn.2.2.2]
    exact ⟨l.height - i.pops, _, next hplain hpush, hrest, hcallers⟩
  | @returns v s' hc htask hs =>
    rw [← hs] at hlev
    refine hlev.works hre htask ?_
    have hlen : (v :: rest.drop (rest.length - fr.stackBase)).length = fr.stackBase + 1 := by
      rw [List.length_cons, List.length_drop]
      omega
    rw [hlen]
    exact hcallers.arrives
  | @finishes v s' hc htask hs =>
    rw [← hs] at hlev
    have hre' : s'.task.resumeWith = none := by rw [htask]; exact hre
    refine Scheduler.Levelled.complete (hlev.consistent.change ?_)
      (fun u hu => hlev.tasks u (.inl hu)) hre' nofun
    rw [hre', ← hre]
    exact htask

theorem Levelled.poised (hp : ∀ (id : Nat) (f : FunctionCode),
    p.module.functions[id]? = some f → f.Disciplined) (h : (busy s).Levelled p) {fr : Frame}
    {callers : List Frame} (hs : s.task.frames = fr :: callers) :
    (∃ f l i, fr.Poised p s.task.stack.length f l i) ∧ StandOn p 1 callers fr.stackBase := by
  obtain ⟨hlev, hre⟩ := h
  have hon := (hlev.tasks _ (.inr rfl)).frames
  obtain ⟨-, -, hrun⟩ := hlev.consistent.runs rfl
  rw [Task.pending_of_ne (by rw [hrun]; exact nofun), hre, hs] at hon
  obtain ⟨own, depth, ⟨f, hf, hl, hscopes⟩, hheight, hcallers⟩ := hon
  have hd := hp _ f hf
  have hi := Array.getElem?_eq_getElem (hd.inside _ _ hl)
  exact ⟨⟨f, _, _, hf, hl, hi, hd.fits _ _ hl _ hi, hscopes, hheight.symm⟩, hcallers⟩

/-- The next instruction takes its operands and leaves those below them alone. -/
theorem works_next (hp : ∀ (id : Nat) (f : FunctionCode),
    p.module.functions[id]? = some f → f.Disciplined) (h : (busy s).Levelled p) {fr : Frame}
    {callers : List Frame} (hs : s.task.frames = fr :: callers) {f : FunctionCode} {l : Level}
    {i : Instr} (hat : fr.Poised p s.task.stack.length f l i) :
    Works p i { fr with ip := fr.ip + 1 } callers (s.task.stack.drop i.pops) s (Exec.next p s) := by
  obtain ⟨hf, -, hi, hfits, hscopes, hheight⟩ := hat
  have hops : (s.task.stack.take i.pops).reverse.length = i.pops := by
    have := hfits.operands
    rw [List.length_reverse, List.length_take]
    omega
  have hstack : s.task.stack = (s.task.stack.take i.pops).reverse.reverse ++
      s.task.stack.drop i.pops := by
    rw [List.reverse_reverse, List.take_append_drop]
  have hfaults (id : Nat) (t : Task) (g : Fault) (ht : s.scheduler.get? id = some t)
      (hg : t.result = some (.error g)) : g.cause.aboutLevels = false :=
    (h.1.tasks t (.inl (h.1.consistent.id_eq ht ▸ ht))).faults g (.inr hg)
  have hstep : Works p i { fr with ip := fr.ip + 1 } callers (s.task.stack.drop i.pops)
      (s.withFrames ({ fr with ip := fr.ip + 1 } :: callers))
      (Exec.step p f i (s.withFrames ({ fr with ip := fr.ip + 1 } :: callers))) :=
    .step rfl ((hp _ f hf).within _ _ hi) (fun hn => by
      change 0 < fr.bindings.scopes.length
      rw [hscopes]
      exact hfits.scopes hn) hfaults hops hstack
  rw [Exec.next_apply hs hf hi]
  exact (hstep.located _ _).of_frames

theorem levelled_next (hp : ∀ (id : Nat) (f : FunctionCode),
    p.module.functions[id]? = some f → f.Disciplined) (h : (busy s).Levelled p) :
    LevelledAfter p (Exec.next p s) := by
  cases hs : s.task.frames with
  | nil =>
    have hnext : Exec.next p s = .error (.fault (.of (.malformed .noFrame))) s := by
      unfold Exec.next
      simp only [Exec.bind_apply, Exec.get_apply, hs]
      rfl
    rw [hnext]
    exact ⟨rfl, levelled_failWith h.1.consistent (fun u hu => h.1.tasks u (.inl hu)) h.2 rfl⟩
  | cons fr callers =>
    obtain ⟨⟨f, l, i, hat⟩, hcallers⟩ := h.poised hp hs
    refine .of_works h (works_next hp h hs hat) hat.code hat.level hat.instr hat.scopes ?_ hcallers
    have := hat.operands
    have := hat.fits.operands
    rw [List.length_drop]
    omega

theorem levelled_step (hp : ∀ (id : Nat) (f : FunctionCode),
    p.module.functions[id]? = some f → f.Disciplined) (h : a.Levelled p) (hs : a.step p = .ok b) :
    b.Levelled p := by
  cases a with
  | idle m => exact levelled_takeTurn h hs
  | busy s =>
    have := levelled_next hp h
    rw [MachineState.step] at hs
    split at hs <;> rename_i hn <;> rw [hn] at this <;> cases hs
    · exact this
    · exact this
    · exact this
    · exact this
    · exact this.2

end MachineState

/-- Operands of the callers stay where they are. -/
theorem Works.below {p : Linked} {i : Instr} {fr : Frame} {callers : List Frame} {rest : List Value}
    {s s' : Running} {flow : Flow} (h : Works p i fr callers rest s (.ok flow s'))
    (hrest : rest <:+ s.task.stack) (hbase : fr.stackBase ≤ rest.length)
    (hflow : ∀ v, flow ≠ .finished v) : s.task.stack.rtake fr.stackBase <:+ s'.task.stack := by
  have hbelow : s.task.stack.rtake fr.stackBase = rest.drop (rest.length - fr.stackBase) := by
    obtain ⟨top, htop⟩ := hrest
    have hn : top.length + rest.length - fr.stackBase =
        top.length + (rest.length - fr.stackBase) := by omega
    rw [← htop, List.rtake, List.length_append, hn, List.drop_length_add_append]
  rw [hbelow]
  have hsuffix := List.drop_suffix (rest.length - fr.stackBase) rest
  cases h with
  | @goes flow s' ip b vs _ _ _ _ _ htask _ =>
    rw [htask]
    exact hsuffix.trans (List.suffix_append vs rest)
  | @spawns new v s' _ _ _ htask _ =>
    rw [htask]
    exact hsuffix.trans (List.suffix_cons v rest)
  | waits _ _ _ _ htask _ =>
    rw [htask]
    exact hsuffix
  | enters _ _ htask _ =>
    rw [htask]
    exact hsuffix
  | @returns v s' _ htask _ =>
    rw [htask]
    exact List.suffix_cons v _
  | @finishes v s' _ _ _ => exact absurd rfl (hflow v)

namespace Linked

variable {p : Linked}

theorem level_entry {name : String} {f : Fault} (h : p.entry name = .error f) :
    f.cause.aboutLevels = false := by
  unfold entry at h
  split at h
  · cases h
    rfl
  · split at h
    · cases h
      rfl
    · split at h
      · cases h
        rfl
      · split at h
        · cases h
        · rename_i e he
          cases h
          exact SlotError.level_slot (Frame.scope_enter he)

theorem levelled_of_reaches (hp : ∀ (id : Nat) (f : FunctionCode),
    p.module.functions[id]? = some f → f.Disciplined) {name : String} {frame : Frame}
    (h : p.entry name = .ok frame) {start : Machine} {s : MachineState}
    (hs : (startState start frame).Reaches p s) : s.Levelled p := by
  refine hs.preserves (fun _ _ ha hb => MachineState.levelled_step hp ha hb) ?_
  obtain ⟨id, f, -, hf, -, he⟩ := entry_ok h
  exact Scheduler.levelled_start (Frame.entersAt_of_enter hf he)

/-- Compiled code takes no operand but its own, whatever it is linked to: each address has one level
on all paths that lead there, every running frame is at it, and no operand, scope, constant or
instruction is ever missed. -/
theorem stack_disciplined {program : Program} {natives : List (String × Signature)}
    {typed : TProgram} (hcheck : program.check natives = .ok typed)
    (hcompile : typed.compile = .ok p.module) :
    (∀ (id : Nat) (f : FunctionCode), p.module.functions[id]? = some f → f.Disciplined) ∧
    (∀ name frame start s, p.entry name = .ok frame → (startState start frame).Reaches p (.busy s) →
      (∀ f s', Exec.next p s = .error (.fault f) s' → f.cause.aboutLevels = false) ∧
      ∀ fr callers, s.task.frames = fr :: callers →
        (∃ f l i, fr.Poised p s.task.stack.length f l i) ∧
        ∀ flow s', Exec.next p s = .ok flow s' → (∀ v, flow ≠ .finished v) →
          s.task.stack.rtake fr.stackBase <:+ s'.task.stack) ∧
    ∀ steps name start f m, p.run steps name start = (.outcome (.error f), m) →
      f.cause.aboutLevels = false := by
  have hp (id : Nat) (f : FunctionCode) (hf : p.module.functions[id]? = some f) : f.Disciplined :=
    TProgram.disciplined_compile hcheck hcompile hf
  have levelled {name : String} {frame : Frame} {start : Machine} {s : MachineState}
      (h : p.entry name = .ok frame) (hs : (startState start frame).Reaches p s) : s.Levelled p :=
    levelled_of_reaches hp h hs
  refine ⟨hp, fun name frame start s hframe hs => ⟨?_, ?_⟩, ?_⟩
  · intro f s' hn
    have := MachineState.levelled_next hp (levelled hframe hs)
    rw [hn] at this
    exact this.1
  · intro fr callers hfr
    have h := levelled hframe hs
    obtain ⟨⟨f, l, i, hat⟩, -⟩ := h.poised hp hfr
    refine ⟨⟨f, l, i, hat⟩, fun flow s' hn hflow => ?_⟩
    have hw := MachineState.works_next hp h hfr hat
    rw [hn] at hw
    refine hw.below (List.drop_suffix _ _) ?_ hflow
    have := hat.operands
    have := hat.fits.operands
    rw [List.length_drop]
    change fr.stackBase ≤ _
    omega
  · intro steps name start f m hrun
    rcases run_cases hrun with ⟨g, hg, he, -⟩ | ⟨frame, hframe, h⟩
    · cases he
      exact level_entry hg
    · rcases h with ⟨he, -⟩ | ⟨halt, hr, ⟨type, -, he⟩ | ⟨rfl, he⟩⟩
      · cases he
      · cases he
      · obtain ⟨s, hs, hstep⟩ := MachineState.reaches_of_run hr
        obtain ⟨rfl, hn⟩ := MachineState.step_settled hstep
        have h := levelled hframe hs
        cases ho : (m.scheduler.get? 0).bind Task.result with
        | none =>
          rw [ho] at he
          cases he
          rfl
        | some o =>
          rw [ho] at he
          cases he
          obtain ⟨t, ht, hres⟩ := Option.bind_eq_some_iff.1 ho
          have hc : m.scheduler.Consistent none := h.consistent
          exact (h.tasks t (.inl (hc.id_eq ht ▸ ht))).faults f (.inr hres)

/-- A call between the operands of an operator. -/
def addsOne : Program where
  items := [
    .function ⟨"main", [], some .int,
      [.ret (some (.binary (.arith .add) (.int 1 none) (.call (.name "one" none) [] none) none))
        none], false, none⟩,
    .function ⟨"one", [], some .int, [.ret (some (.int 1 none)) none], false, none⟩]
  source := none

def checkedAddsOne : TProgram where
  structs := []
  functions := [{
    name := "main", params := [], ret := .int, isAsync := false, span := none
    body := [.ret (some (.mk (.binary (.arith .add) (.mk (.int 1) .int none)
      (.mk (.call (.function "one") []) .int none)) .int none)) none] },
   { name := "one", params := [], ret := .int, isAsync := false, span := none
     body := [.ret (some (.mk (.int 1) .int none)) none] }]
  source := none

def compiledAddsOne : Module where
  functions := #[
    ⟨"main", 0, 0, #[], [], false, [],
      #[.const 0, .call 1 0, .arith .add .int, .ret, .const 1, .ret],
      #[.int 1, .null], #[none, none, none, none, none, none]⟩,
    ⟨"one", 0, 0, #[], [], false, [], #[.const 0, .ret, .const 1, .ret],
      #[.int 1, .null], #[none, none, none, none]⟩]
  structs := #[]
  natives := #[]
  source := none

theorem check_addsOne : addsOne.check [] = .ok checkedAddsOne := by
  cbv

theorem compile_addsOne : checkedAddsOne.compile = .ok compiledAddsOne := by
  cbv

theorem addsOne_disciplined :
    ∃ (s : Running) (fr : Frame) (callers : List Frame),
      s.task.frames = fr :: callers ∧ fr.function = 1 ∧ fr.stackBase = 1 ∧
      ∃ f l i, fr.Poised ⟨compiledAddsOne, #[], .default⟩ s.task.stack.length f l i := by
  let p : Linked := ⟨compiledAddsOne, #[], .default⟩
  let first : Frame := ⟨0, 0, ⟨#[], [[]]⟩, [], 0, false⟩
  have hentry : p.entry "main" = .ok first := by cbv
  -- the task begins its turn, pushes the left operand and calls the function
  have hsteps : ∃ s, (startState .empty first).Reaches p (.busy s) ∧ s.task.frames =
      [⟨1, 0, ⟨#[], [[]]⟩, [], 1, false⟩, ⟨0, 2, ⟨#[], [[]]⟩, [], 0, false⟩] :=
    ⟨_, .tail (.tail (.tail .refl rfl) rfl) rfl, rfl⟩
  obtain ⟨s, hs, hframes⟩ := hsteps
  obtain ⟨-, hruns, -⟩ := stack_disciplined (p := p) check_addsOne compile_addsOne
  obtain ⟨hpoised, -⟩ := (hruns _ _ _ s hentry hs).2 _ _ hframes
  exact ⟨s, _, _, hframes, rfl, rfl, hpoised⟩

end Linked

end ScopedScript
