import ScopedScript.Proofs.Compile.BareInstructions

/-!
# Steps of bare code

Where the slots that it works on are as it needs them, an instruction that stays does the same in
the machine of a module and in that of its bare form, and goes to the address where its target has
gone. A `free` has no counterpart: without it the second machine still keeps what the first has.
-/

namespace ScopedScript

open Bindings

namespace Bindings

variable {b b' : Bindings} {slot : Nat} {v : Value}

theorem Kept.live (h : b.Kept b') (hl : b.Live slot) : b'.Live slot := by
  obtain ⟨v, hv⟩ := hl
  exact ⟨v, h.holds _ v hv⟩

theorem Kept.opened (h : b.Kept b') :
    Kept { b with scopes := [] :: b.scopes } { b' with scopes := [] :: b'.scopes } where
  size := h.size
  scopes := congrArg ([] :: ·) h.scopes
  holds := h.holds

theorem Kept.left (h : b.Kept b') : (BindingM.leftScope b).Kept (BindingM.leftScope b') := by
  constructor
  case size => exact (size_releaseAll ..).trans (h.size.trans (size_releaseAll ..).symm)
  case scopes => exact congrArg List.tail h.scopes
  case holds =>
    intro i v hv
    rw [Holds, BindingM.leftScope] at hv ⊢
    rw [slots_releaseAll] at hv ⊢
    rw [h.scopes, h.size]
    split at hv
    · cases hv
    · rw [if_neg ‹_›]
      exact h.holds i v hv

theorem Kept.declared (h : b.Kept b') (slot : Nat) (v : Value) :
    (BindingM.declared b slot v).Kept (BindingM.declared b' slot v) := by
  constructor
  case size => simp [BindingM.declared, h.size]
  case scopes => simp [BindingM.declared, h.scopes]
  case holds =>
    intro i w hw
    rw [Holds, BindingM.declared, Array.getElem?_setIfInBounds] at hw ⊢
    rw [h.size]
    split
    · rwa [if_pos ‹_›] at hw
    · rw [if_neg ‹_›] at hw
      exact h.holds i w hw

theorem Kept.stored (h : b.Kept b') (hl : b.Live slot) (v : Value) :
    (b.withSlot slot (.live v)).Kept (b'.withSlot slot (.live v)) := by
  obtain ⟨w, hw⟩ := hl
  constructor
  case size => simp [withSlot, h.size]
  case scopes => exact h.scopes
  case holds =>
    intro i u hu
    rw [holds_withSlot_live hw.lt_size] at hu
    rw [holds_withSlot_live (h.size ▸ hw.lt_size)]
    split
    · rwa [if_pos ‹_›] at hu
    · rw [if_neg ‹_›] at hu
      exact h.holds i u hu

theorem Kept.moved (h : b.Kept b') (slot : Nat) :
    (b.withSlot slot .moved).Kept (b'.withSlot slot .moved) := by
  constructor
  case size => simp [withSlot, h.size]
  case scopes => exact h.scopes
  case holds =>
    intro i v hv
    rw [holds_withSlot_dead rfl] at hv ⊢
    exact ⟨hv.1, h.holds i v hv.2⟩

/-- What is freed in the first may stay in the second. -/
theorem Kept.freed (h : b.Kept b') (slot : Nat) : (b.withSlot slot .freed).Kept b' := by
  constructor
  case size => simp [withSlot, h.size]
  case scopes => exact h.scopes
  case holds =>
    intro i v hv
    rw [holds_withSlot_dead rfl] at hv
    exact h.holds i v hv.2

end Bindings

/-- What a store into a part of a live binding does depends on its value alone. -/
theorem BindingM.storeField_apply {b : Bindings} {slot : Nat} {w : Value}
    (path : List Nat) (v : Value)
    (h : b.Holds slot w) : storeField slot path v b = match Value.setPath? v path w with
      | some whole => .ok () (b.withSlot slot (.live whole))
      | none => .error .badPath b := by
  rcases storeField_cases slot path v b with ⟨u, whole, hu, hp, ho⟩ | ⟨u, hu, hp, ho⟩ | ⟨hn, -⟩
  · rw [h.unique hu, hp, ho]
  · rw [h.unique hu, hp, ho]
  · exact absurd ⟨w, h⟩ hn

namespace Exec

variable {m : Module} {s s' : Running} {fr fr' : Frame} {callers callers' : List Frame}
  {f : FunctionCode}

/-- What comes after a computation that leaves the frames alone. -/
theorem Ends.aloof_bind {x x' : Exec α} {y : α → Exec β} {y' : α → Exec β'} {S : β → β' → Prop}
    {P P' : α → Prop} (h : s.Kept m s') (hx : Alike m Eq x x') (ha : Aloof x P) (ha' : Aloof x' P')
    (hy : ∀ a t t', t.Kept m t' → t.task.frames = s.task.frames → t'.task.frames = s'.task.frames →
      Ends m S (y a t) (y' a t')) : Ends m S ((x >>= y) s) ((x' >>= y') s') := by
  have hx := hx s s' h
  have ha := ha s s (.refl s)
  have ha' := ha' s' s' (.refl s')
  rw [bind_apply, bind_apply]
  generalize x s = r, x' s' = r' at hx ha ha'
  cases hx with
  | ok heq hs =>
    cases heq
    exact hy _ _ _ hs (by rw [ha.2.task]) (by rw [ha'.2.task])
  | error t hs => exact .error t hs

theorem Ends.goOn {x x' : Exec Unit} (h : Ends m (fun _ _ => True) (x s) (x' s')) :
    Ends m Eq (Exec.goOn x s) (Exec.goOn x' s') := h.bind fun _ _ _ => .pure rfl

/-- The innermost frame in both machines. -/
theorem kept_innermost (h : s.Kept m s') (hs : s.task.frames = fr :: callers) :
    ∃ fr' callers', s'.task.frames = fr' :: callers' ∧ fr.Kept m fr' ∧
      List.Forall₂ (Frame.Kept m) callers callers' := by
  have hframes := h.task.frames
  rw [hs] at hframes
  generalize s'.task.frames = frames' at hframes
  cases hframes with
  | cons hfr hcallers => exact ⟨_, _, rfl, hfr, hcallers⟩

theorem kept_of_innermost (h : s.Kept m s') (hs : s.task.frames = fr :: callers)
    (hs' : s'.task.frames = fr' :: callers') :
    fr.Kept m fr' ∧ List.Forall₂ (Frame.Kept m) callers callers' := by
  obtain ⟨_, _, ho, hfr, hcallers⟩ := kept_innermost h hs
  rw [hs'] at ho
  cases ho
  exact ⟨hfr, hcallers⟩

theorem ends_onBindings {act : BindingM α} {act' : BindingM α'} {R : α → α' → Prop}
    (h : s.Kept m s') (hs : s.task.frames = fr :: callers) (hs' : s'.task.frames = fr' :: callers')
    (hact : (∃ a a' b b', act fr.bindings = .ok a b ∧ act' fr'.bindings = .ok a' b' ∧ R a a' ∧
      b.Kept b') ∨
      ∃ e, act fr.bindings = .error e fr.bindings ∧ act' fr'.bindings = .error e fr'.bindings) :
    Ends m R (onBindings f act s) (onBindings f.bare act' s') := by
  obtain ⟨hfr, hcallers⟩ := kept_of_innermost h hs hs'
  rw [onBindings_apply hs, onBindings_apply hs']
  have hkept {b b' : Bindings} (hb : b.Kept b') :
      Frame.Kept m { fr with bindings := b } { fr' with bindings := b' } :=
    ⟨hb, hfr.address, by rw [hfr.rest]⟩
  rcases hact with ⟨a, a', b, b', ha, ha', hr, hb⟩ | ⟨e, he, he'⟩
  · rw [ha, ha']
    exact .ok hr ⟨h.machine, h.task.withFrames (.cons (hkept hb) hcallers)⟩
  · rw [he, he']
    dsimp only
    rw [cause_bare]
    exact .error _ ⟨h.machine, h.task.withFrames (.cons (hkept hfr.bindings) hcallers)⟩

theorem ends_jump (h : s.Kept m s') (hs : s.task.frames = fr :: callers)
    (hs' : s'.task.frames = fr' :: callers') (hf : m.functions[fr.function]? = some f)
    (target : Nat) : Ends m (fun _ _ => True) (jump target s) (jump (f.bareAddress target) s') := by
  obtain ⟨hfr, hcallers⟩ := kept_of_innermost h hs hs'
  rw [jump_apply target hs, jump_apply _ hs']
  refine .ok trivial
    ⟨h.machine, h.task.withFrames (.cons ⟨hfr.bindings, fun g hg => ?_, ?_⟩ hcallers)⟩
  · rw [hf] at hg
    cases hg
    rfl
  · rw [hfr.rest]

section

variable {p : Linked}

/-- An instruction that stays does the same in both machines. -/
theorem ends_step (hp : ∀ b ∈ p.builtins, b.IgnoresCode) (h : s.Kept p.module s')
    (hs : s.task.frames = fr :: callers) (hs' : s'.task.frames = fr' :: callers')
    (hf : p.module.functions[fr.function]? = some f) {i : Instr} (hstays : i.stays = true)
    (hm : i.Meets fr.bindings) (hm' : i.Meets fr'.bindings) :
    Ends p.module Eq (step p f i s) (step p.bare f.bare (i.retarget f.bareAddress) s') := by
  have hb := (kept_of_innermost h hs hs').1.bindings
  cases i with
  | jump target => exact (ends_jump h hs hs' hf target).goOn
  | jumpIfFalse target =>
    refine (Ends.aloof_bind h alike_popBool aloof_popBool aloof_popBool
      fun b t t' ht ht₁ ht₂ => ?_).goOn
    cases b with
    | false => exact ends_jump ht (ht₁.trans hs) (ht₂.trans hs') hf target
    | true => exact .ok trivial ht
  | jumpIfTrue target =>
    refine (Ends.aloof_bind h alike_popBool aloof_popBool aloof_popBool
      fun b t t' ht ht₁ ht₂ => ?_).goOn
    cases b with
    | false => exact .ok trivial ht
    | true => exact ends_jump ht (ht₁.trans hs) (ht₂.trans hs') hf target
  | enterScope =>
    exact (ends_onBindings h hs hs' (.inl ⟨_, _, _, _, BindingM.enterScope_apply _,
      BindingM.enterScope_apply _, trivial, hb.opened⟩)).goOn
  | exitScope =>
    have hact : (∃ a a' b b', BindingM.exitScope fr.bindings = .ok a b ∧
        BindingM.exitScope fr'.bindings = .ok a' b' ∧ True ∧ b.Kept b') := by
      rcases BindingM.exitScope_cases fr.bindings with ⟨-, ho⟩ | ⟨hn, -⟩
      · rcases BindingM.exitScope_cases fr'.bindings with ⟨-, ho'⟩ | ⟨hn, -⟩
        · exact ⟨_, _, _, _, ho, ho', trivial, hb.left⟩
        · exact absurd hn hm'
      · exact absurd hn hm
    exact ((ends_onBindings (R := fun _ _ => True) h hs hs' (.inl hact)).bind fun _ _ _ =>
      alike_recordHere _ _ _).goOn
  | declare slot =>
    refine (Ends.aloof_bind h alike_pop aloof_pop aloof_pop fun v t t' ht ht₁ ht₂ => ?_).goOn
    refine ends_onBindings ht (ht₁.trans hs) (ht₂.trans hs') (.inl ?_)
    rcases BindingM.declare_cases slot v fr.bindings with ⟨-, -, ho⟩ | ⟨hn, -⟩
    · rcases BindingM.declare_cases slot v fr'.bindings with ⟨-, -, ho'⟩ | ⟨hn, -⟩
      · exact ⟨_, _, _, _, ho, ho', trivial, hb.declared slot v⟩
      · exact absurd hm' hn
    · exact absurd hm hn
  | load slot =>
    obtain ⟨v, hv⟩ := hm
    have hact : ∃ a a' b b', BindingM.load slot fr.bindings = .ok a b ∧
        BindingM.load slot fr'.bindings = .ok a' b' ∧ a = a' ∧ b.Kept b' :=
      ⟨v, v, _, _, BindingM.load_eq_ok.2 ⟨hv, rfl⟩,
        BindingM.load_eq_ok.2 ⟨hb.holds _ _ hv, rfl⟩, rfl, hb⟩
    refine ((ends_onBindings h hs hs' (.inl hact)).bind fun w _ hw => ?_).goOn
    subst hw
    exact alike_push _
  | move slot =>
    have hact : ∃ a a' b b', BindingM.take slot fr.bindings = .ok a b ∧
        BindingM.take slot fr'.bindings = .ok a' b' ∧ a = a' ∧ b.Kept b' := by
      rcases BindingM.take_cases slot fr.bindings with ⟨v, hv, ho⟩ | ⟨hn, -⟩
      · rcases BindingM.take_cases slot fr'.bindings with ⟨v', hv', ho'⟩ | ⟨hn, -⟩
        · exact ⟨v, v', _, _, ho, ho', (hb.holds _ _ hv).unique hv', hb.moved slot⟩
        · exact absurd hm' hn
      · exact absurd hm hn
    refine ((ends_onBindings h hs hs' (.inl hact)).bind fun v _ hv =>
      (alike_recordHere _ _ _).bind fun _ _ _ => ?_).goOn
    subst hv
    exact alike_push _
  | store slot =>
    refine (Ends.aloof_bind h alike_pop aloof_pop aloof_pop fun v t t' ht ht₁ ht₂ => ?_).goOn
    refine ends_onBindings ht (ht₁.trans hs) (ht₂.trans hs') (.inl ?_)
    rcases BindingM.store_cases slot v fr.bindings with ⟨hl, ho⟩ | ⟨hn, -⟩
    · rcases BindingM.store_cases slot v fr'.bindings with ⟨-, ho'⟩ | ⟨hn, -⟩
      · exact ⟨_, _, _, _, ho, ho', trivial, hb.stored hl v⟩
      · exact absurd hm' hn
    · exact absurd hm hn
  | storeField slot path =>
    refine (Ends.aloof_bind h alike_pop aloof_pop aloof_pop fun v t t' ht ht₁ ht₂ => ?_).goOn
    refine ends_onBindings ht (ht₁.trans hs) (ht₂.trans hs') ?_
    obtain ⟨w, hw⟩ := id hm
    rw [BindingM.storeField_apply path v hw, BindingM.storeField_apply path v (hb.holds _ _ hw)]
    cases Value.setPath? v path w with
    | some whole => exact .inl ⟨_, _, _, _, rfl, rfl, trivial, hb.stored hm whole⟩
    | none => exact .inr ⟨_, rfl, rfl⟩
  | free slot => cases hstays
  | _ => exact alike_step hp f rfl rfl s s' h

theorem Ends.adapt {R : α → β → Prop} {x : Exec α} {x' : Exec β} (h : Ends m R (x s) (x' s'))
    (g : Trap → Trap) : Ends m R (EStateM.adaptExcept g x s) (EStateM.adaptExcept g x' s') := by
  unfold EStateM.adaptExcept
  generalize x s = r, x' s' = r' at h
  cases h with
  | ok h hs => exact .ok h hs
  | error t hs => exact .error _ hs

/-- A task goes on in the same way in both machines. -/
theorem ends_next (hp : ∀ b ∈ p.builtins, b.IgnoresCode) (h : s.Kept p.module s')
    (hs : s.task.frames = fr :: callers) (hs' : s'.task.frames = fr' :: callers')
    (hf : p.module.functions[fr.function]? = some f) (hsize : f.spans.size = f.code.size)
    {i : Instr} (hi : f.code[fr.ip]? = some i) (hstays : i.stays = true) (hm : i.Meets fr.bindings)
    (hm' : i.Meets fr'.bindings) : Ends p.module Eq (next p s) (next p.bare s') := by
  obtain ⟨hfr, hcallers⟩ := kept_of_innermost h hs hs'
  have haddress := hfr.address f hf
  have hfunction : fr'.function = fr.function := by rw [hfr.rest]
  have hf' : p.bare.module.functions[fr'.function]? = some f.bare := by
    rw [Linked.module_bare, Module.functions_bare, hfunction, hf]
    rfl
  have hi' : f.bare.code[fr'.ip]? = some (i.retarget f.bareAddress) := by
    rw [haddress]
    exact FunctionCode.code_bare hi hstays
  have hspan : f.bare.spanAt fr'.ip = f.spanAt fr.ip := by
    rw [haddress]
    exact FunctionCode.spanAt_bare hsize hi hstays
  rw [next_apply hs hf hi, next_apply hs' hf' hi', hspan]
  -- both frames are past the instruction while it is carried out
  have hpast : Frame.Kept p.module { fr with ip := fr.ip + 1 } { fr' with ip := fr'.ip + 1 } := by
    refine ⟨hfr.bindings, fun g hg => ?_, by rw [hfr.rest]⟩
    rw [hf] at hg
    cases hg
    dsimp only
    rw [FunctionCode.bareAddress_succ hi hstays, haddress]
  have hkept : (s.withFrames ({ fr with ip := fr.ip + 1 } :: callers)).Kept p.module
      (s'.withFrames ({ fr' with ip := fr'.ip + 1 } :: callers')) :=
    ⟨h.machine, h.task.withFrames (.cons hpast hcallers)⟩
  exact (ends_step hp hkept rfl rfl hf hstays hm hm').adapt _

/-- After a `free`, the second machine still keeps what the first has. -/
theorem next_free (h : s.Kept p.module s') (hs : s.task.frames = fr :: callers)
    (hf : p.module.functions[fr.function]? = some f) {slot : Nat}
    (hi : f.code[fr.ip]? = some (.free slot)) (hm : fr.bindings.Live slot) :
    ∃ t, next p s = .ok .goOn t ∧ t.Kept p.module s' ∧
      ∃ b, t.task.frames = { fr with ip := fr.ip + 1, bindings := b } :: callers := by
  obtain ⟨fr', callers', hs', hfr, hcallers⟩ := kept_innermost h hs
  have hfree : BindingM.free slot fr.bindings = .ok () (fr.bindings.withSlot slot .freed) := by
    rcases BindingM.free_cases slot fr.bindings with ⟨-, ho⟩ | ⟨hn, -⟩
    · exact ho
    · exact absurd hm hn
  let fr₁ : Frame := { fr with ip := fr.ip + 1 }
  let fr₂ : Frame := { fr with ip := fr.ip + 1, bindings := fr.bindings.withSlot slot .freed }
  let t := s.withFrames (fr₂ :: callers)
  have hstep : step p f (.free slot) (s.withFrames (fr₁ :: callers)) =
      .ok .goOn { t with toMachine := t.toMachine.record p fr.function .explicit [slot] } := by
    have hb : onBindings f (BindingM.free slot) (s.withFrames (fr₁ :: callers)) = .ok () t := by
      rw [onBindings_apply (show _ = fr₁ :: callers from rfl),
        show fr₁.bindings = fr.bindings from rfl, hfree]
      rfl
    rw [step, goOn_apply, bind_apply, hb]
    rfl
  refine ⟨_, by rw [next_apply hs hf hi, EStateM.adaptExcept, hstep], ⟨⟨?_, ?_⟩, ?_⟩, _, rfl⟩
  · rw [Machine.scheduler_record]
    exact h.machine.scheduler
  · rw [Machine.output_record]
    exact h.machine.output
  · refine ⟨?_, ?_⟩
    · rw [hs']
      refine .cons ⟨hfr.bindings.freed slot, fun g hg => ?_, ?_⟩ hcallers
      · rw [hf] at hg
        cases hg
        rw [FunctionCode.bareAddress_succ_of_free hi rfl]
        exact hfr.address f hf
      · rw [hfr.rest]
    · exact h.task.rest

end

end Exec

/-! ## Steps of the machine -/

namespace Running

variable {m : Module} {s s' : Running}

theorem Kept.suspendAs (h : s.Kept m s') (state : TaskState) :
    (s.suspendAs state).Kept m (s'.suspendAs state) where
  scheduler := h.machine.scheduler.putBack
    (h.task.map (g := fun t => { t with state }) (fun _ => rfl) (fun _ => rfl) fun _ _ => rfl)
  output := h.machine.output

theorem Kept.completeWith (h : s.Kept m s') (o : Outcome) :
    (s.completeWith o).Kept m (s'.completeWith o) := by
  obtain ⟨ht, hs⟩ := h.machine.scheduler.complete h.task o
  exact ⟨hs.putBack ht, h.machine.output⟩

theorem Kept.failWith {p : Linked} (h : s.Kept p.module s') (f : Fault) :
    (s.failWith p f).Kept p.module (s'.failWith p.bare f) := by
  let unwound (q : Linked) (r : Running) : Machine := r.task.frames.foldl
    (fun m frame => m.record q frame.function .unwind frame.bindings.exitAll.2) r.toMachine
  have houtput (q : Linked) (frames : List Frame) (a : Machine) :
      (frames.foldl (fun m frame =>
        m.record q frame.function .unwind frame.bindings.exitAll.2) a).output = a.output := by
    induction frames generalizing a with
    | nil => rfl
    | cons frame rest ih => rw [List.foldl_cons, ih, Machine.output_record]
  have hkept : Kept p.module { s with toMachine := unwound p s }
      { s' with toMachine := unwound p.bare s' } := by
    refine ⟨⟨?_, ?_⟩, h.task⟩
    · dsimp only [unwound]
      rw [Machine.scheduler_unwind, Machine.scheduler_unwind]
      exact h.machine.scheduler
    · dsimp only [unwound]
      rw [houtput, houtput]
      exact h.machine.output
  exact hkept.completeWith _

end Running

namespace MachineState

/-- The second machine keeps what the first has, and a task of each or none is running. -/
inductive Kept (m : Module) : MachineState → MachineState → Prop
  | idle {a a' : Machine} (h : a.Kept m a') : Kept m (.idle a) (.idle a')
  | busy {s s' : Running} (h : s.Kept m s') : Kept m (.busy s) (.busy s')

/-- Two steps end in the same way. -/
inductive Ends (m : Module) : Except (Halt × Machine) MachineState →
    Except (Halt × Machine) MachineState → Prop
  | ok {a a' : MachineState} (h : Kept m a a') : Ends m (.ok a) (.ok a')
  | error (halt : Halt) {a a' : Machine} (h : a.Kept m a') :
    Ends m (.error (halt, a)) (.error (halt, a'))

variable {p : Linked}

theorem ends_takeTurn {a a' : Machine} (h : a.Kept p.module a') :
    Ends p.module (takeTurn p a) (takeTurn p.bare a') := by
  have hnext := h.scheduler.next?
  unfold takeTurn
  generalize a.scheduler.next? = o, a'.scheduler.next? = o' at hnext
  cases hnext with
  | none => exact .error _ h
  | @some turn turn' hturn =>
    obtain ⟨t, sch⟩ := turn
    obtain ⟨t', sch'⟩ := turn'
    obtain ⟨ht, hsch⟩ := hturn
    dsimp only at ht hsch ⊢
    rw [ht.resumeWith_eq, ht.stack_eq]
    split
    · exact .ok (.busy ⟨⟨hsch, h.output⟩, ht⟩)
    · rename_i v _
      refine .ok (.busy ⟨⟨hsch, h.output⟩, ?_⟩)
      exact ⟨ht.frames, by rw [ht.rest]⟩
    · refine .ok (.idle (Running.Kept.failWith ⟨⟨hsch, h.output⟩, ?_⟩ _))
      exact ⟨ht.frames, by rw [ht.rest]⟩

/-- The step follows how the instruction of the running task has ended. -/
theorem ends_busy {s s' : Running}
    (h : Exec.Ends p.module Eq (Exec.next p s) (Exec.next p.bare s')) :
    Ends p.module (step p (.busy s)) (step p.bare (.busy s')) := by
  rw [step, step]
  generalize Exec.next p s = r, Exec.next p.bare s' = r' at h
  cases h with
  | @ok flow _ t t' heq hs =>
    cases heq
    cases flow with
    | goOn => exact .ok (.busy hs)
    | finished v => exact .ok (.idle (hs.completeWith _))
    | yielded => exact .ok (.idle (hs.suspendAs _))
    | suspended => exact .ok (.idle (hs.suspendAs _))
  | error t hs =>
    cases t with
    | fault f => exact .ok (.idle (hs.failWith f))
    | lost type => exact .error _ hs.machine

end MachineState

end ScopedScript
