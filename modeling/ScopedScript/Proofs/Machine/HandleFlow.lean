import ScopedScript.Proofs.Machine.Contents
import ScopedScript.Proofs.Machine.Handles

/-!
# Handles through instructions

An instruction other than `spawn` and `await` leaves its task with no handles but those that the
task had; these two have their own statements. No instruction but `await` raises one of the faults
that concern waiting.
-/

namespace ScopedScript

variable {K K' : Nat → Prop}

/-- Faults of a task that waits for itself, for no task, or for ever. -/
def FaultCause.aboutWaiting : FaultCause → Bool
  | .deadlock | .malformed .awaitsItself | .malformed (.noTask _) => true
  | _ => false

/-- Faults of operators concern their operands. -/
def FaultCause.ofOperator : FaultCause → Bool
  | .mistype _ | .divisionByZero | .textTooLong _ | .negativeExponent _ | .shiftOutOfRange _
  | .unreadable _ _ | .malformed (.operands _ _ _ _) | .malformed (.ordering _ _ _)
  | .malformed (.negation _) => true
  | _ => false

def Fault.Plain (f : Fault) : Prop := f.cause.aboutWaiting = false

def Trap.Plain : Trap → Prop
  | .fault f => f.Plain
  | .lost _ => True

abbrev Bindings.Within (K : Nat → Prop) (b : Bindings) : Prop := b.Each (Value.Within K)

abbrev Frame.Within (K : Nat → Prop) (fr : Frame) : Prop := fr.Each (Value.Within K)

/-- The frames and operands of the task hold handles of tasks of `K` only. -/
def Task.Owns (K : Nat → Prop) (t : Task) : Prop :=
  (∀ fr ∈ t.frames, fr.Within K) ∧ ∀ v ∈ t.stack, v.Within K

theorem Fault.plain_located {f : Fault} (h : f.Plain) (span : Option Span) (function : String) :
    (f.located span function).Plain := by
  obtain ⟨cause, s, _ | g⟩ := f <;> exact h

theorem Trap.plain_located {t : Trap} (h : t.Plain) (span : Option Span) (function : String) :
    (t.located span function).Plain := by
  cases t with
  | fault f => exact Fault.plain_located h span function
  | lost type => trivial

theorem FaultCause.plain_ofOperator {c : FaultCause} (h : c.ofOperator = true) :
    c.aboutWaiting = false := by
  cases c with
  | malformed m => cases m <;> first | rfl | cases h
  | deadlock => cases h
  | _ => rfl

theorem SlotError.plain_cause (f : FunctionCode) (e : SlotError) :
    (e.cause f).aboutWaiting = false := by
  cases e <;> rfl

theorem Bindings.Within.mono {b : Bindings} (h : ∀ id, K id → K' id) (hb : b.Within K) :
    b.Within K' :=
  fun i v hv => (hb i v hv).mono h

theorem Frame.Within.mono {fr : Frame} (h : ∀ id, K id → K' id) (hf : fr.Within K) :
    fr.Within K' :=
  ⟨fun v hv => (hf.1 v hv).mono h, Bindings.Within.mono h hf.2⟩

theorem Task.Owns.mono {t : Task} (h : ∀ id, K id → K' id) (ht : t.Owns K) : t.Owns K' :=
  ⟨fun fr hfr => (ht.1 fr hfr).mono h, fun v hv => (ht.2 v hv).mono h⟩

namespace Operator

theorem cause_apply {op : ArithOp} {a b : Value} {c : FaultCause} (h : apply op a b = .error c) :
    c.ofOperator = true := by
  have ofInts : ∀ {x y : Int64}, onInts op x y = .error c → c.ofOperator = true := by
    intro x y h
    unfold onInts at h
    split at h <;> try split at h
    all_goals cases h
    all_goals rfl
  have ofRepeated : ∀ {s : String} {n : Int64}, repeated s n = .error c →
      c.ofOperator = true := by
    intro s n h
    unfold repeated at h
    dsimp only at h
    split at h
    · cases h
      rfl
    · split at h <;> cases h
  unfold apply at h
  split at h
  · rename_i x y
    cases hi : onInts op x y with
    | ok n =>
      rw [hi] at h
      cases h
    | error e =>
      rw [hi] at h
      cases h
      exact ofInts hi
  · cases h
  · cases h
  · rename_i s n
    split at h
    · cases hr : repeated s n with
      | ok t =>
        rw [hr] at h
        cases h
      | error e =>
        rw [hr] at h
        cases h
        exact ofRepeated hr
    · cases h
  · cases h

theorem cause_arith {m : Module} {op : ArithOp} {kind : OperandKind} {a b : Value}
    {c : FaultCause} (h : arith m op kind a b = .error c) : c.ofOperator = true := by
  unfold arith at h
  split at h
  · cases ha : apply op a.unboxed b.unboxed with
    | error e =>
      rw [ha] at h
      cases h
      exact cause_apply ha
    | ok r =>
      rw [ha] at h
      cases r <;> cases h
      rfl
  · cases ha : apply op a b with
    | error e =>
      rw [ha] at h
      cases h
      exact cause_apply ha
    | ok r =>
      rw [ha] at h
      cases r <;> cases h
      rfl

theorem cause_negate {m : Module} {kind : OperandKind} {a : Value} {c : FaultCause}
    (h : negate m kind a = .error c) : c.ofOperator = true := by
  unfold negate at h
  split at h <;> cases h <;> rfl

theorem cause_order {m : Module} {op : OrderOp} {kind : OperandKind} {a b : Value}
    {c : FaultCause} (h : order m op kind a b = .error c) : c.ofOperator = true := by
  unfold order at h
  split at h <;> try split at h
  all_goals cases h
  all_goals rfl

theorem cause_convert {m : Module} {target : CastTarget} {a : Value} {c : FaultCause}
    (h : convert m target a = .error c) : c.ofOperator = true := by
  unfold convert readInt readFloat at h
  split at h <;> try split at h
  all_goals cases h
  all_goals rfl

end Operator

namespace Exec

/-- Only the frames, the operands, the output and the log of `s₀` have changed, and the task has
no handles but those of `K`. -/
structure Local (s₀ : Running) (K : Nat → Prop) (s : Running) : Prop where
  scheduler : s.scheduler = s₀.scheduler
  task : s.task = { s₀.task with frames := s.task.frames, stack := s.task.stack }
  owns : s.task.Owns K

/-- The computation stays local and answers with `P`; its faults do not concern waiting. -/
def Keeps (s₀ : Running) (K : Nat → Prop) (x : Exec α) (P : α → Prop) : Prop :=
  Triple (Local s₀ K) x (fun a s => P a ∧ Local s₀ K s) fun t s => t.Plain ∧ Local s₀ K s

variable {s₀ : Running}

theorem Keeps.bind {x : Exec α} {f : α → Exec β} {P : α → Prop} {Q : β → Prop}
    (hx : Keeps s₀ K x P) (hf : ∀ a, P a → Keeps s₀ K (f a) Q) : Keeps s₀ K (x >>= f) Q :=
  Triple.bind hx fun a s h => hf a h.1 s h.2

theorem Keeps.pure {a : α} {P : α → Prop} (h : P a) : Keeps s₀ K (Pure.pure a : Exec α) P :=
  Triple.pure fun _ hs => ⟨h, hs⟩

theorem Keeps.get {f : Running → Exec α} {P : α → Prop}
    (h : ∀ s, Local s₀ K s → Keeps s₀ K (f s) P) : Keeps s₀ K (get >>= f) P :=
  fun s hs => h s hs s hs

theorem Keeps.fail {cause : FaultCause} {P : α → Prop} (h : cause.aboutWaiting = false) :
    Keeps s₀ K (Exec.fail cause : Exec α) P :=
  Triple.throw fun _ hs => ⟨h, hs⟩

theorem Keeps.mono {x : Exec α} {P Q : α → Prop} (hx : Keeps s₀ K x P) (h : ∀ a, P a → Q a) :
    Keeps s₀ K x Q :=
  Triple.weaken hx (fun _ hs => hs) (fun a _ ha => ⟨h a ha.1, ha.2⟩) fun _ _ he => he

theorem Keeps.modifyTask {f : Task → Task}
    (hf : ∀ t : Task, f t = { t with frames := (f t).frames, stack := (f t).stack })
    (ho : ∀ t : Task, t.Owns K → (f t).Owns K) :
    Keeps s₀ K (Exec.modifyTask f) fun _ => True := by
  refine Triple.modify fun s hs => ⟨trivial, hs.scheduler, ?_, ho _ hs.owns⟩
  change f s.task = { s₀.task with frames := (f s.task).frames, stack := (f s.task).stack }
  rw [hf s.task, hs.task]

theorem keeps_push {v : Value} (hv : v.Within K) : Keeps s₀ K (push v) fun _ => True := by
  refine Keeps.modifyTask (fun _ => rfl) fun t ht => ⟨ht.1, ?_⟩
  simp only [List.mem_cons]
  rintro w (rfl | hw)
  · exact hv
  · exact ht.2 w hw

theorem keeps_pop : Keeps s₀ K pop fun v => v.Within K := by
  refine Keeps.get fun s hs => ?_
  have hst := hs.owns.2
  split
  · exact Keeps.fail rfl
  · rename_i v rest h
    rw [h] at hst
    refine Keeps.bind (Keeps.modifyTask (fun _ => rfl) fun t ht => ⟨ht.1, fun w hw => ?_⟩)
      fun _ _ => Keeps.pure (hst v (by simp))
    exact hst w (List.mem_cons_of_mem v hw)

theorem mem_splitTop {n : Nat} {taken stack vs rest : List Value}
    (h : splitTop taken n stack = some (vs, rest)) :
    (∀ v ∈ vs, v ∈ taken ∨ v ∈ stack) ∧ ∀ v ∈ rest, v ∈ stack := by
  induction n generalizing taken stack with
  | zero =>
    simp only [splitTop, Option.some.injEq, Prod.mk.injEq] at h
    obtain ⟨rfl, rfl⟩ := h
    exact ⟨fun v hv => .inl hv, fun v hv => hv⟩
  | succ n ih =>
    cases stack with
    | nil => cases h
    | cons w stack =>
      obtain ⟨h₁, h₂⟩ := ih h
      grind

theorem keeps_popMany (n : Nat) : Keeps s₀ K (popMany n) fun vs => ∀ v ∈ vs, v.Within K := by
  refine Keeps.get fun s hs => ?_
  split
  · exact Keeps.fail rfl
  · rename_i taken rest h
    obtain ⟨h₁, h₂⟩ := mem_splitTop h
    refine Keeps.bind (Keeps.modifyTask (fun _ => rfl) fun t ht =>
      ⟨ht.1, fun w hw => hs.owns.2 w (h₂ w hw)⟩) fun _ _ => Keeps.pure fun v hv => ?_
    exact hs.owns.2 v ((h₁ v hv).resolve_left (by simp))

theorem keeps_popBool : Keeps s₀ K popBool fun _ => True := by
  refine Keeps.bind keeps_pop fun v _ => ?_
  split
  · exact Keeps.pure trivial
  · exact Keeps.fail rfl

theorem keeps_ofExcept {x : Except FaultCause α} {P : α → Prop} (hx : ∀ a, x = .ok a → P a)
    (he : ∀ c, x = .error c → c.aboutWaiting = false) : Keeps s₀ K (ofExcept x) P := by
  cases x with
  | ok a => exact Keeps.pure (hx a rfl)
  | error c => exact Keeps.fail (he c rfl)

theorem keeps_ofMistype {x : Except Mistype α} {P : α → Prop} (hx : ∀ a, x = .ok a → P a) :
    Keeps s₀ K (ofMistype x) P := by
  cases x with
  | ok a => exact Keeps.pure (hx a rfl)
  | error c => exact Keeps.fail rfl

theorem keeps_functionCode (p : Linked) (id : Nat) :
    Keeps s₀ K (functionCode p id) fun _ => True := by
  unfold functionCode
  split
  · exact Keeps.pure trivial
  · exact Keeps.fail rfl

theorem keeps_jump (target : Nat) : Keeps s₀ K (jump target) fun _ => True := by
  unfold jump modifyFrame
  refine Keeps.modifyTask (fun _ => rfl) fun t ht => ⟨?_, ht.2⟩
  intro fr hfr
  cases hf : t.frames with
  | nil => simp [hf] at hfr
  | cons head callers =>
    simp only [hf, List.modifyHead_cons, List.mem_cons] at hfr
    rcases hfr with rfl | hfr
    · exact ht.1 head (by simp [hf])
    · exact ht.1 fr (by simp [hf, hfr])

theorem keeps_record (p : Linked) (function : Nat) (kind : ReleaseKind) (slots : List Nat) :
    Keeps s₀ K (record p function kind slots) fun _ => True := by
  refine Triple.modify fun s hs => ⟨trivial, ?_, hs.task, hs.owns⟩
  rw [← hs.scheduler]
  simp only [Machine.record]
  split <;> rfl

theorem keeps_recordHere (p : Linked) (kind : ReleaseKind) (slots : List Nat) :
    Keeps s₀ K (recordHere p kind slots) fun _ => True := by
  refine Keeps.get fun s _ => ?_
  split
  · exact keeps_record p _ kind slots
  · exact Keeps.fail rfl

/-- Work on the bindings of a frame stays local when it finds only values that it may. -/
theorem keeps_onBindings {f : FunctionCode} {act : BindingM α} {P : α → Prop}
    (h : ∀ b, b.Within K →
      (∃ a b', act b = .ok a b' ∧ P a ∧ b'.Within K) ∨ ∃ e, act b = .error e b) :
    Keeps s₀ K (onBindings f act) P := by
  rintro ⟨m, ⟨id, state, frames, stack, result, waiters, observed, resumeWith⟩⟩ hs
  cases frames with
  | nil => exact ⟨rfl, hs⟩
  | cons fr callers =>
    obtain ⟨function, ip, bindings, captures, base, box⟩ := fr
    have hfr := hs.owns.1 _ (List.mem_cons_self ..)
    rcases h bindings hfr.2 with ⟨a, b', ha, hP, hb⟩ | ⟨e, he⟩
    · simp only [onBindings, ha]
      refine ⟨hP, hs.scheduler, ?_, ?_, hs.owns.2⟩
      · have := hs.task
        simp only [Task.mk.injEq] at this ⊢
        exact ⟨this.1, this.2.1, trivial, trivial, this.2.2.2.2⟩
      · simp only [List.mem_cons]
        rintro fr' (rfl | hfr')
        · exact ⟨hfr.1, hb⟩
        · exact hs.owns.1 fr' (List.mem_cons_of_mem _ hfr')
    · simp only [onBindings, he]
      exact ⟨SlotError.plain_cause f e, hs⟩

theorem keeps_enter (p : Linked) (function : Nat) {args captures : List Value} (box : Bool)
    (ha : ∀ v ∈ args, v.Within K) (hc : ∀ v ∈ captures, v.Within K) :
    Keeps s₀ K (enter p function args captures box) fun _ => True := by
  refine Keeps.get fun s _ => ?_
  split
  · exact Keeps.bind (Keeps.fail (P := fun _ => False) rfl) fun _ h => h.elim
  · refine Keeps.bind (keeps_functionCode p function) fun f _ => Keeps.get fun s' _ => ?_
    split
    · rename_i fr hfr
      refine Keeps.modifyTask (fun _ => rfl) fun t ht => ⟨?_, ht.2⟩
      simp only [List.mem_cons]
      rintro fr' (rfl | hfr')
      · exact (Frame.each_enter hfr ha hc).2
      · exact ht.1 fr' hfr'
    · exact Keeps.fail (SlotError.plain_cause f _)

/-- How an instruction that is not `await` lets its task go on. -/
def FlowWithin (K : Nat → Prop) : Flow → Prop
  | .finished v => v.Within K
  | .suspended => False
  | _ => True

theorem keeps_leave (p : Linked) : Keeps s₀ K (leave p) (FlowWithin K) := by
  refine Keeps.bind keeps_pop fun v hv => Keeps.get fun s hs => ?_
  split
  · exact Keeps.fail rfl
  · rename_i frame callers hf
    have hcallers : ∀ fr ∈ callers, fr.Within K := fun fr hfr =>
      hs.owns.1 fr (by simp [hf, hfr])
    have answer : ∀ w : Value, w.Within K → Keeps s₀ K
        (if callers.isEmpty then return .finished w else do push w; return .goOn)
        (FlowWithin K) := by
      intro w hw
      split
      · exact Keeps.pure hw
      · exact Keeps.bind (keeps_push hw) fun _ _ => Keeps.pure (a := Flow.goOn) trivial
    refine Keeps.bind (Keeps.modifyTask (fun _ => rfl) fun t ht =>
      ⟨hcallers, fun w hw => ht.2 w (List.mem_of_mem_drop hw)⟩) fun _ _ => ?_
    refine Keeps.bind (keeps_record p _ _ _) fun _ _ => ?_
    split
    · exact answer _ (Value.within_boxed.2 hv)
    · exact answer _ hv

theorem keeps_callBuiltin {p : Linked} (hp : p.AnswersWithin K) (id : Nat) {args : List Value}
    (ha : ∀ v ∈ args, v.Within K) : Keeps s₀ K (callBuiltin p id args) fun v => v.Within K := by
  unfold callBuiltin
  split
  · exact Keeps.fail rfl
  · rename_i b hb
    refine Keeps.bind (P := fun _ => True) (Triple.modify fun s hs =>
      ⟨trivial, hs.scheduler, hs.task, hs.owns⟩) fun _ _ => ?_
    split
    · rename_i v hv
      exact Keeps.pure (hp b (Array.mem_of_getElem? hb) _ args v ha hv)
    · exact Keeps.fail rfl

theorem keeps_callValue {p : Linked} (hp : p.AnswersWithin K) {callee : Value}
    {args : List Value} (hc : callee.Within K) (ha : ∀ v ∈ args, v.Within K) :
    Keeps s₀ K (callValue p callee args) fun _ => True := by
  unfold callValue
  split
  · exact keeps_enter p _ _ ha (by simp)
  · rename_i id captures h
    rw [← Value.within_unboxed, h, Value.within_closure] at hc
    exact keeps_enter p _ _ ha hc
  · exact Keeps.bind (keeps_callBuiltin hp _ ha) fun _ hv => keeps_push hv
  · exact Keeps.fail rfl

theorem within_unbox {m : Module} {tag : TypeTag} {v w : Value} (h : unbox m tag v = .ok w)
    (hv : v.Within K) : w.Within K := by
  unfold unbox at h
  split at h
  · cases h
    simpa using hv
  · split at h <;> cases h
    simpa using hv

theorem within_unboxArgs {m : Module} {name : String} {args : List Value}
    (ha : ∀ v ∈ args, v.Within K) : ∀ {number : Nat} {tags : List TypeTag} {vs : List Value},
      unboxArgs m name number args tags = .ok vs → ∀ v ∈ vs, v.Within K := by
  induction args with
  | nil =>
    intro number tags vs h
    cases h
    simp
  | cons a rest ih =>
    intro number tags vs h
    cases tags with
    | nil =>
      cases h
      simp
    | cons tag tags =>
      unfold unboxArgs at h
      cases hu : unbox m tag a with
      | error e =>
        rw [hu] at h
        cases h
      | ok w =>
        rw [hu] at h
        cases hr : unboxArgs m name (number + 1) rest tags with
        | error e =>
          rw [hr] at h
          cases h
        | ok ws =>
          rw [hr] at h
          cases h
          simp only [List.mem_cons]
          rintro v (rfl | hv)
          · exact within_unbox hu (ha a (by simp))
          · exact ih (fun v hv => ha v (by simp [hv])) hr v hv

theorem within_dynamicArgs {m : Module} {f : FunctionCode} {args vs : List Value}
    (ha : ∀ v ∈ args, v.Within K) (h : dynamicArgs m f args = .ok vs) : ∀ v ∈ vs, v.Within K := by
  unfold dynamicArgs at h
  split at h
  · cases h
  · split at h
    · cases h
    · exact within_unboxArgs ha h

theorem keeps_enterDynamic (p : Linked) (id : Nat) {args captures : List Value}
    (ha : ∀ v ∈ args, v.Within K) (hc : ∀ v ∈ captures, v.Within K) :
    Keeps s₀ K (enterDynamic p id args captures) fun _ => True :=
  Keeps.bind (keeps_functionCode p id) fun _ _ =>
    Keeps.bind (keeps_ofMistype fun _ h => within_dynamicArgs ha h) fun _ hvs =>
      keeps_enter p id true hvs hc

theorem keeps_callDynamic {p : Linked} (hp : p.AnswersWithin K) {callee : Value}
    {args : List Value} (hc : callee.Within K) (ha : ∀ v ∈ args, v.Within K) :
    Keeps s₀ K (callDynamic p callee args) fun _ => True := by
  unfold callDynamic
  split
  · exact keeps_enterDynamic p _ ha (by simp)
  · rename_i id captures h
    rw [← Value.within_unboxed, h, Value.within_closure] at hc
    exact keeps_enterDynamic p _ ha hc
  · split
    · exact Keeps.fail rfl
    · exact Keeps.bind (keeps_ofMistype (P := fun _ => True) fun _ _ => trivial) fun _ _ =>
        Keeps.bind (keeps_callBuiltin hp _ ha) fun _ hv => keeps_push (Value.within_boxed.2 hv)
  · exact Keeps.fail rfl

theorem keeps_callMethod (p : Linked) {receiver : Value} (method : String) {args : List Value}
    (hr : receiver.Within K) (ha : ∀ v ∈ args, v.Within K) :
    Keeps s₀ K (callMethod p receiver method args) fun _ => True := by
  unfold callMethod
  split
  · rename_i type fields h
    rw [← Value.within_unboxed, h] at hr
    split
    · exact Keeps.fail rfl
    · split
      · exact Keeps.fail rfl
      · refine keeps_enterDynamic p _ ?_ (by simp)
        simp only [List.mem_cons]
        rintro v (rfl | hv)
        · exact hr
        · exact ha v hv
  · exact Keeps.fail rfl

theorem keeps_getField (m : Module) {v : Value} (index : Nat) (hv : v.Within K) :
    Keeps s₀ K (getField m v index) fun w => w.Within K := by
  unfold getField
  split
  · rename_i type fields h
    rw [← Value.within_unboxed, h, Value.within_struct] at hv
    split
    · rename_i field hf
      exact Keeps.pure (hv field (List.mem_of_getElem? hf))
    · exact Keeps.fail rfl
  · exact Keeps.fail rfl

theorem keeps_getFieldDynamic (m : Module) {v : Value} (name : String) (hv : v.Within K) :
    Keeps s₀ K (getFieldDynamic m v name) fun w => w.Within K := by
  unfold getFieldDynamic
  split
  · rename_i type fields h
    rw [← Value.within_unboxed, h, Value.within_struct] at hv
    split
    · exact Triple.throw fun _ hs => ⟨trivial, hs⟩
    · split
      · exact Keeps.fail rfl
      · split
        · rename_i field hf
          exact Keeps.pure (Value.within_boxed.2 (hv field (List.mem_of_getElem? hf)))
        · exact Keeps.fail rfl
  · exact Keeps.fail rfl

theorem Keeps.goOn {x : Exec Unit} (h : Keeps s₀ K x fun _ => True) :
    Keeps s₀ K (Exec.goOn x) (FlowWithin K) :=
  Keeps.bind h fun _ _ => Keeps.pure (a := Flow.goOn) trivial

/-- The instructions that make handles and redeem them. -/
def movesTasks : Instr → Bool
  | .spawn _ _ | .await => true
  | _ => false

theorem keeps_step {p : Linked} (hp : p.AnswersWithin K) (f : FunctionCode) {i : Instr}
    (hi : movesTasks i = false) : Keeps s₀ K (step p f i) (FlowWithin K) := by
  have plain : ∀ {v : Value}, v.handles = [] → Keeps s₀ K (push v) fun _ => True :=
    fun h => keeps_push (Value.Within.of_handles_nil h)
  cases i with
  | const index =>
    refine Keeps.goOn ?_
    split
    · rename_i c _
      exact plain (by cases c <;> rfl)
    · exact Keeps.fail rfl
  | pop => exact Keeps.goOn (Keeps.bind keeps_pop fun _ _ => Keeps.pure trivial)
  | dup =>
    refine Keeps.goOn (Keeps.get fun s hs => ?_)
    split
    · rename_i v rest h
      exact keeps_push (hs.owns.2 v (by simp [h]))
    · exact Keeps.fail rfl
  | arith op kind =>
    exact Keeps.goOn (Keeps.bind keeps_pop fun _ _ => Keeps.bind keeps_pop fun _ _ =>
      Keeps.bind (keeps_ofExcept (fun _ h => (Operator.scalar_arith h).handles)
        fun _ h => FaultCause.plain_ofOperator (Operator.cause_arith h)) fun _ h => plain h)
  | neg kind =>
    exact Keeps.goOn (Keeps.bind keeps_pop fun _ _ =>
      Keeps.bind (keeps_ofExcept (fun _ h => (Operator.scalar_negate h).handles)
        fun _ h => FaultCause.plain_ofOperator (Operator.cause_negate h)) fun _ h => plain h)
  | order op kind =>
    exact Keeps.goOn (Keeps.bind keeps_pop fun _ _ => Keeps.bind keeps_pop fun _ _ =>
      Keeps.bind (keeps_ofExcept (P := fun _ => True) (fun _ _ => trivial)
        fun _ h => FaultCause.plain_ofOperator (Operator.cause_order h)) fun _ _ => plain rfl)
  | eq =>
    exact Keeps.goOn (Keeps.bind keeps_pop fun _ _ => Keeps.bind keeps_pop fun _ _ => plain rfl)
  | ne =>
    exact Keeps.goOn (Keeps.bind keeps_pop fun _ _ => Keeps.bind keeps_pop fun _ _ => plain rfl)
  | not => exact Keeps.goOn (Keeps.bind keeps_popBool fun _ _ => plain rfl)
  | cast target =>
    exact Keeps.goOn (Keeps.bind keeps_pop fun _ _ =>
      Keeps.bind (keeps_ofExcept (fun _ h => (Operator.scalar_convert h).handles)
        fun _ h => FaultCause.plain_ofOperator (Operator.cause_convert h)) fun _ h => plain h)
  | format parts => exact Keeps.goOn (Keeps.bind (keeps_popMany parts) fun _ _ => plain rfl)
  | jump target => exact Keeps.goOn (keeps_jump target)
  | jumpIfFalse target =>
    refine Keeps.goOn (Keeps.bind keeps_popBool fun b _ => ?_)
    cases b
    · exact keeps_jump target
    · exact Keeps.pure trivial
  | jumpIfTrue target =>
    refine Keeps.goOn (Keeps.bind keeps_popBool fun b _ => ?_)
    cases b
    · exact Keeps.pure trivial
    · exact keeps_jump target
  | enterScope =>
    exact Keeps.goOn (keeps_onBindings (P := fun _ => True) fun b hb =>
      .inl ⟨(), _, rfl, trivial, hb.enterScope⟩)
  | exitScope =>
    refine Keeps.goOn (Keeps.bind (keeps_onBindings (P := fun _ => True) fun b hb => ?_)
      fun _ _ => keeps_recordHere p _ _)
    rcases BindingM.exitScope_cases b with ⟨-, h⟩ | ⟨-, h⟩
    · exact .inl ⟨_, _, h, trivial, hb.leftScope⟩
    · exact .inr ⟨_, h⟩
  | declare slot =>
    refine Keeps.goOn (Keeps.bind keeps_pop fun v hv =>
      keeps_onBindings (P := fun _ => True) fun b hb => ?_)
    rcases BindingM.declare_cases slot v b with ⟨-, -, h⟩ | ⟨-, e, h, -⟩
    · exact .inl ⟨_, _, h, trivial, hb.declared hv⟩
    · exact .inr ⟨_, h⟩
  | load slot =>
    refine Keeps.goOn (Keeps.bind (keeps_onBindings (P := fun v => v.Within K) fun b hb => ?_)
      fun _ hv => keeps_push hv)
    rcases BindingM.load_cases slot b with ⟨v, hv, h⟩ | ⟨-, e, h, -⟩
    · exact .inl ⟨_, _, h, hb slot v hv, hb⟩
    · exact .inr ⟨_, h⟩
  | move slot =>
    refine Keeps.goOn (Keeps.bind (keeps_onBindings (P := fun v => v.Within K) fun b hb => ?_)
      fun _ hv => Keeps.bind (keeps_recordHere p _ _) fun _ _ => keeps_push hv)
    rcases BindingM.take_cases slot b with ⟨v, hv, h⟩ | ⟨-, e, h, -⟩
    · exact .inl ⟨_, _, h, hb slot v hv, hb.withDeadSlot rfl⟩
    · exact .inr ⟨_, h⟩
  | store slot =>
    refine Keeps.goOn (Keeps.bind keeps_pop fun v hv =>
      keeps_onBindings (P := fun _ => True) fun b hb => ?_)
    rcases BindingM.store_cases slot v b with ⟨-, h⟩ | ⟨-, e, h, -⟩
    · exact .inl ⟨_, _, h, trivial, hb.withSlot hv⟩
    · exact .inr ⟨_, h⟩
  | storeField slot path =>
    refine Keeps.goOn (Keeps.bind keeps_pop fun v hv =>
      keeps_onBindings (P := fun _ => True) fun b hb => ?_)
    rcases BindingM.storeField_cases slot path v b with
      ⟨w, whole, hw, hp, h⟩ | ⟨w, -, -, h⟩ | ⟨-, e, h, -⟩
    · exact .inl ⟨_, _, h, trivial, hb.withSlot (Value.Within.setPath? hv (hb slot w hw) hp)⟩
    · exact .inr ⟨_, h⟩
    · exact .inr ⟨_, h⟩
  | free slot =>
    refine Keeps.goOn (Keeps.bind (keeps_onBindings (P := fun _ => True) fun b hb => ?_)
      fun _ _ => keeps_recordHere p _ _)
    rcases BindingM.free_cases slot b with ⟨-, h⟩ | ⟨-, e, h, -⟩
    · exact .inl ⟨_, _, h, trivial, hb.withDeadSlot rfl⟩
    · exact .inr ⟨_, h⟩
  | loadCapture index =>
    refine Keeps.goOn (Keeps.get fun s hs => ?_)
    split
    · rename_i v h
      obtain ⟨fr, hfr, hv⟩ := Option.bind_eq_some_iff.1 h
      exact keeps_push ((hs.owns.1 fr (List.mem_of_head? hfr)).1 v (List.mem_of_getElem? hv))
    · exact Keeps.fail rfl
  | makeStruct type fields =>
    exact Keeps.goOn (Keeps.bind (keeps_popMany fields) fun _ h =>
      keeps_push (Value.within_struct.2 h))
  | getField index =>
    exact Keeps.goOn (Keeps.bind keeps_pop fun _ hv =>
      Keeps.bind (keeps_getField p.module index hv) fun _ hw => keeps_push hw)
  | getFieldDynamic name =>
    exact Keeps.goOn (Keeps.bind keeps_pop fun _ hv =>
      Keeps.bind (keeps_getFieldDynamic p.module name hv) fun _ hw => keeps_push hw)
  | makeClosure function captures =>
    refine Keeps.goOn (Keeps.bind (keeps_popMany captures) fun vs hvs => ?_)
    split
    · exact plain rfl
    · exact keeps_push (Value.within_closure.2 hvs)
  | loadNative id => exact Keeps.goOn (plain rfl)
  | call function args =>
    exact Keeps.goOn (Keeps.bind (keeps_popMany args) fun _ h => keeps_enter p _ _ h (by simp))
  | callValue args =>
    exact Keeps.goOn (Keeps.bind (keeps_popMany args) fun _ h =>
      Keeps.bind keeps_pop fun _ hc => keeps_callValue hp hc h)
  | callDynamic args =>
    exact Keeps.goOn (Keeps.bind (keeps_popMany args) fun _ h =>
      Keeps.bind keeps_pop fun _ hc => keeps_callDynamic hp hc h)
  | callMethodDynamic method args =>
    exact Keeps.goOn (Keeps.bind (keeps_popMany args) fun _ h =>
      Keeps.bind keeps_pop fun _ hc => keeps_callMethod p method hc h)
  | callNative id args =>
    exact Keeps.goOn (Keeps.bind (keeps_popMany args) fun _ h =>
      Keeps.bind (keeps_callBuiltin hp id h) fun _ hv => keeps_push hv)
  | ret => exact keeps_leave p
  | spawn function args => cases hi
  | await => cases hi
  | yieldNow => exact Keeps.pure (a := Flow.yielded) trivial
  | box => exact Keeps.goOn (Keeps.bind keeps_pop fun _ hv => keeps_push (Value.within_boxed.2 hv))
  | unbox tag =>
    exact Keeps.goOn (Keeps.bind keeps_pop fun _ hv =>
      Keeps.bind (keeps_ofMistype fun _ h => within_unbox h hv) fun _ hw => keeps_push hw)

/-! The two instructions that concern other tasks. -/

/-- What an instruction of the running task of `s` may do. `K` are the tasks that the running task
may hold handles of. -/
inductive Effect (s : Running) (K : Nat → Prop) : EStateM.Result Trap Running Flow → Prop
  | stays {flow : Flow} {s' : Running} (h : Local s K s') (hf : FlowWithin K flow) :
    Effect s K (.ok flow s')
  | trapped {t : Trap} {s' : Running} (h : Local s K s') (ht : t.Plain) : Effect s K (.error t s')
  /-- A new task starts in a frame; its handle is on the stack. -/
  | spawns {frame : Frame} {s' : Running} (hf : frame.Within K)
    (h : Local { s with scheduler := (s.scheduler.spawn frame).2 }
      (fun id => K id ∨ id = s.scheduler.tasks.size) s') : Effect s K (.ok .goOn s')
  /-- The task waits for one that has not completed. -/
  | waits {id : Nat} {target : Task} {s' : Running} (hid : K id)
    (ht : s.scheduler.get? id = some target) (hc : target.isCompleted = false)
    (h : Local { s with scheduler := s.scheduler.addWaiter s.task.id id } K s') :
    Effect s K (.ok .suspended s')
  /-- The result of a completed task is on the stack. -/
  | redeems {id : Nat} {target : Task} {v : Value} {s' : Running} (hid : K id)
    (ht : s.scheduler.get? id = some target) (hr : target.result = some (.ok v))
    (h : Local { s with scheduler := s.scheduler.modifyTask id fun t =>
      { t with observed := true } } (fun i => K i ∨ i ∈ v.handles) s') : Effect s K (.ok .goOn s')
  /-- A completed task has failed, and so does the one that awaits it. -/
  | relays {id : Nat} {target : Task} {f g : Fault} {s' : Running} (hid : K id)
    (ht : s.scheduler.get? id = some target) (hr : target.result = some (.error f))
    (hg : g.cause = f.cause)
    (h : Local { s with scheduler := s.scheduler.modifyTask id fun t =>
      { t with observed := true } } K s') : Effect s K (.error (.fault g) s')
  /-- A completed task has no result. -/
  | forgets {id : Nat} {target : Task} {t : Trap} {s' : Running} (hid : K id)
    (ht : s.scheduler.get? id = some target) (hp : t.Plain)
    (h : Local { s with scheduler := s.scheduler.modifyTask id fun t =>
      { t with observed := true } } K s') : Effect s K (.error t s')

theorem Effect.of_triple {x : Exec Flow} (h : Keeps s₀ K x (FlowWithin K)) {s : Running}
    (hs : Local s₀ K s) : Effect s₀ K (x s) := by
  have := h s hs
  cases hx : x s with
  | ok flow s' =>
    rw [hx] at this
    exact .stays this.2 this.1
  | error t s' =>
    rw [hx] at this
    exact .trapped this.2 this.1

theorem Local.setScheduler {s : Running} (h : Local s₀ K s) (sch : Scheduler) :
    Local { s₀ with scheduler := sch } K { s with scheduler := sch } :=
  ⟨rfl, h.task, h.owns⟩

theorem Local.mono {s : Running} (h : Local s₀ K s) (hK : ∀ id, K id → K' id) : Local s₀ K' s :=
  ⟨h.scheduler, h.task, h.owns.mono hK⟩

theorem Local.push {s : Running} (h : Local s₀ K s) {v : Value} (hv : v.Within K) :
    Local s₀ K { s with task := { s.task with stack := v :: s.task.stack } } :=
  ((keeps_push hv).ok h rfl).2

theorem Effect.bind {x : Exec α} {f : α → Exec Flow} {P : α → Prop} (hx : Keeps s₀ K x P)
    (hf : ∀ a s, P a → Local s₀ K s → Effect s₀ K (f a s)) {s : Running} (hs : Local s₀ K s) :
    Effect s₀ K ((x >>= f) s) := by
  have h := hx s hs
  rw [bind_apply]
  cases hr : x s with
  | ok a s' =>
    rw [hr] at h
    exact hf a s' h.1 h.2
  | error t s' =>
    rw [hr] at h
    exact .trapped h.2 h.1

theorem effect_spawn (p : Linked) (function count : Nat) {s : Running} (hs : Local s₀ K s) :
    Effect s₀ K (goOn (popMany count >>= spawn p function) s) := by
  unfold goOn
  rw [bind_assoc]
  refine Effect.bind (keeps_popMany count) (fun args s ha hs => ?_) hs
  unfold spawn
  rw [bind_assoc]
  refine Effect.bind (keeps_functionCode p function) (fun f s _ hs => ?_) hs
  cases he : Frame.enter function f args [] 0 false with
  | error e => exact .trapped hs (SlotError.plain_cause f e)
  | ok frame =>
    have hframe : frame.Within K := (Frame.each_enter he ha (by simp)).2
    refine .spawns hframe ?_
    rw [← hs.scheduler]
    refine Local.push ((hs.mono fun id hid => Or.inl hid).setScheduler _) ?_
    exact Value.within_task.2 (.inr rfl)

theorem effect_await (p : Linked) {s : Running} (hs : Local s₀ K s)
    (hK : ∀ id, K id → id ≠ s₀.task.id ∧ (s₀.scheduler.get? id).isSome) :
    Effect s₀ K (await p s) := by
  refine Effect.bind keeps_pop (fun v s' hv hs' => ?_) hs
  cases hu : v.unboxed with
  | task id =>
    rw [← Value.within_unboxed, hu, Value.within_task] at hv
    obtain ⟨hne, hsome⟩ := hK id hv
    obtain ⟨target, ht⟩ := Option.isSome_iff_exists.1 hsome
    have hself : ¬ id = s'.task.id := by rw [hs'.task]; exact hne
    have ht' : s'.scheduler.get? id = some target := by rw [hs'.scheduler]; exact ht
    simp only [bind_apply, get_apply, hself, if_false, ht']
    cases hc : target.isCompleted with
    | false =>
      simp only [Bool.false_eq_true, if_false, bind_apply, modify_apply, pure_apply]
      refine .waits hv ht hc ?_
      rw [show s'.task.id = s₀.task.id by rw [hs'.task], hs'.scheduler]
      exact hs'.setScheduler _
    | true =>
      simp only [if_true, bind_apply, modify_apply]
      rw [hs'.scheduler]
      have hs'' := hs'.setScheduler
        (s₀.scheduler.modifyTask id fun t => { t with observed := true })
      cases hr : target.result with
      | none => exact .forgets hv ht rfl hs''
      | some r =>
        cases r with
        | error f => exact .relays hv ht hr rfl hs''
        | ok w => exact .redeems hv ht hr ((hs''.mono fun _ h => .inl h).push fun _ h => .inr h)
  | _ =>
    dsimp only
    exact .trapped hs' rfl

/-- Blaming an instruction for a fault changes nothing about its effect. -/
theorem Effect.located {x : Exec Flow} {s : Running} (h : Effect s₀ K (x s))
    (span : Option Span) (name : String) :
    Effect s₀ K (EStateM.adaptExcept (fun t : Trap => t.located span name) x s) := by
  unfold EStateM.adaptExcept
  cases hx : x s with
  | ok flow s' =>
    rw [hx] at h
    exact h
  | error t s' =>
    rw [hx] at h
    cases h with
    | trapped h ht => exact .trapped h (Trap.plain_located ht span name)
    | relays hid ht hr hg h =>
      refine .relays hid ht hr ?_ h
      rw [← hg]
      rename_i g
      obtain ⟨cause, sp, _ | fn⟩ := g <;> rfl
    | forgets hid ht hp h => exact .forgets hid ht (Trap.plain_located hp span name) h

/-- What the next instruction of a task does, when the task holds handles of other tasks only. -/
theorem effect_next {p : Linked} (hp : p.AnswersWithin K) {s : Running} (hs : s.task.Owns K)
    (hK : ∀ id, K id → id ≠ s.task.id ∧ (s.scheduler.get? id).isSome) :
    Effect s K (next p s) := by
  have here : Local s K s := ⟨rfl, rfl, hs⟩
  unfold next
  rw [bind_apply, get_apply]
  dsimp only
  cases s.task.frames with
  | nil => exact .trapped here rfl
  | cons frame callers =>
    refine Effect.bind (keeps_functionCode p frame.function) (fun f s₁ _ hs₁ => ?_) here
    cases f.code[frame.ip]? with
    | none => exact .trapped hs₁ rfl
    | some i =>
      refine Effect.bind (keeps_jump (frame.ip + 1)) (fun _ s₂ _ hs₂ => ?_) hs₁
      refine Effect.located ?_ _ _
      by_cases hm : movesTasks i = false
      · exact Effect.of_triple (keeps_step hp f hm) hs₂
      · cases i with
        | spawn function args => exact effect_spawn p function args hs₂
        | await => exact effect_await p hs₂ hK
        | _ => exact absurd rfl hm

end Exec

end ScopedScript
