import ScopedScript.Proofs.Evaluation.Procedures
import ScopedScript.Proofs.Evaluation.Realization

/-!
# Answers to operands

An instruction that only works on its operands does what the evaluation does with them: it gives the
same value, fails in the same way, or calls the same procedure.
-/

namespace ScopedScript

namespace Evaluator

variable {w : Evaluator} {t : Tables} {o : Running} {call : Caller} {a : Activation} {c : Seat}
  {n ip id : Nat} {b : Bindings} {args captured ops rest : List Value} {box : Bool}
  {span : Option Span} {written : String} {s s₁ : Running}

/-- The machine carries calls out: a frame that has just been entered does what the call of its
procedure comes to, and is about to return the value. -/
def Undertakes (w : Evaluator) (o : Running) (call : Caller) (n : Nat) : Prop :=
  ∀ (c : Seat) (q : Procedure) (args : List Value) (b : Bindings) (stack : List Value)
    (written : String) (s : Running), w.program.procedures[c.function]? = some q →
    w.module.functions[c.function]? = some c.code → args.length = q.body.params.length →
    Frame.enter c.function c.code args c.captured c.base c.box = .ok (c.frame 0 b) →
    c.Stands o 0 b stack written s →
    Realizes w.linked o n s (c.Returns o stack)
    (call q args c.captured (c.callers.length + 1) written)

/-! ## Calls that are checked when they happen -/

theorem dynamicArgs_eq (ht : t.Numbered w.program w.module) {q : Procedure} {g : FunctionCode}
    (h : t.Holds q g) (args : List Value) :
    w.dynamicArgs q args = Exec.dynamicArgs w.module g args := by
  obtain ⟨_, -, hw⟩ := h.body
  have hids : t.ids = w.ids := ht.ids
  rw [dynamicArgs, Exec.dynamicArgs, hw.isAsync, hw.arity, hw.tags, h.name, hids]

theorem dynamic_eq (ht : t.Numbered w.program w.module) (id : Nat) (args captured : List Value) :
    w.dynamic id args captured = .ofDynamic w.linked id args captured := by
  rw [dynamic, Reaction.ofDynamic]
  cases hq : w.program.procedures[id]? with
  | none =>
    have hnone : w.linked.module.functions[id]? = none := by
      rw [Array.getElem?_eq_none_iff]
      exact ht.size.trans_le (List.getElem?_eq_none_iff.1 hq)
    rw [hnone]
  | some q =>
    obtain ⟨g, hg, -, hholds⟩ := ht.procedure id q hq
    rw [show w.linked.module.functions[id]? = some g from hg]
    dsimp only
    rw [dynamicArgs_eq ht hholds]
    rfl

theorem calleeDynamic_eq (ht : t.Numbered w.program w.module) (callee : Value) (args : List Value) :
    w.calleeDynamic callee args = Reaction.ofCalleeDynamic w.linked callee args := by
  unfold calleeDynamic
  split
  · rename_i id h
    simp only [Reaction.ofCalleeDynamic, h, dynamic_eq ht]
  · rename_i id captured h
    simp only [Reaction.ofCalleeDynamic, h, dynamic_eq ht]
  · rfl

theorem methodDynamic_eq (ht : t.Numbered w.program w.module) (receiver : Value) (method : String)
    (args : List Value) : w.methodDynamic receiver method args =
      .ofMethod w.linked receiver method args := by
  unfold methodDynamic Reaction.ofMethod
  simp only [dynamic_eq ht]
  rfl

/-! ## Calls -/

theorem enter_of_deep (hd : w.linked.config.maxCallDepth ≤ a.depth) :
    w.enter call a span id args captured box =
    fault a span (.callDepth w.linked.config.maxCallDepth) := by
  funext written
  unfold enter
  rw [if_pos hd]
  rfl

theorem enter_of_shallow (hd : ¬ w.linked.config.maxCallDepth ≤ a.depth) :
    w.enter call a span id args captured box = match w.program.procedures[id]? with
      | none => fault a span (.malformed (.noFunction id))
      | some q =>
        if args.length ≠ q.body.params.length then throw .misfit
        else do
          let v ← call q args captured (a.depth + 1)
          return if box then v.boxed else v := by
  unfold enter
  rw [if_neg hd]
  cases w.program.procedures[id]? with
  | none => rfl
  | some q =>
    dsimp only
    split <;> rfl

section

variable (ht : t.Numbered w.program w.module) (hcall : w.Undertakes o call n)

include ht hcall

/-- A call of a procedure by its number, from when the operands have been taken. -/
theorem realizes_enter {before : String} (hs : c.Stands o ip b ops before s)
    (hs₁ : c.Stands o (ip + 1) b rest written s₁)
    (hnext : Exec.next w.linked s = EStateM.adaptExcept (fun t : Trap => t.located span c.code.name)
      (Exec.goOn (Exec.enter w.linked id args captured box)) s₁) :
    Realizes w.linked o (n + 1) s (fun v => c.Stands o (ip + 1) b (v :: rest))
      (w.enter call c.activation span id args captured box written) := by
  have henter := Exec.enter_apply (p := w.linked) id args captured box s₁
  rw [hs₁.frames_eq, hs₁.stack_eq] at henter
  have hfails {cause : FaultCause}
      (h : Exec.enter w.linked id args captured box s₁ = Exec.fail cause s₁) :
      Exec.next w.linked s = .error (.fault ⟨cause, span, some c.code.name⟩) s₁ := by
    rw [hnext]
    refine adaptExcept_error (t := .fault (.of cause)) ?_
    rw [Exec.goOn_apply, h]
    rfl
  have hgoes {s₂ : Running} (h : Exec.enter w.linked id args captured box s₁ = .ok () s₂) :
      Exec.next w.linked s = .ok .goOn s₂ := by
    rw [hnext]
    refine adaptExcept_ok ?_
    rw [Exec.goOn_apply, h]
  by_cases hd : w.linked.config.maxCallDepth ≤ c.activation.depth
  · rw [enter_of_deep hd]
    rw [if_pos (show w.linked.config.maxCallDepth ≤ (c.frames (ip + 1) b).length from hd)] at henter
    exact .fault (hfails henter) hs₁
  · rw [enter_of_shallow hd]
    rw [if_neg (show ¬ w.linked.config.maxCallDepth ≤ (c.frames (ip + 1) b).length from
      hd)] at henter
    cases hq : w.program.procedures[id]? with
    | none =>
      have hnone : w.linked.module.functions[id]? = none := by
        rw [Array.getElem?_eq_none_iff]
        exact ht.size.trans_le (List.getElem?_eq_none_iff.1 hq)
      rw [hnone] at henter
      exact .fault (hfails henter) hs₁
    | some q =>
      obtain ⟨g, hg, -, hholds⟩ := ht.procedure id q hq
      have hg' : w.linked.module.functions[id]? = some g := hg
      rw [hg'] at henter
      dsimp only at henter ⊢
      by_cases hargs : args.length = q.body.params.length
      · obtain ⟨b', hframe, -⟩ := Frame.models_enter hholds.body id captured rest.length box hargs
        rw [hframe] at henter
        rw [if_neg (not_not.2 hargs)]
        let c' : Seat := ⟨id, g, captured, rest.length, box, c.frames (ip + 1) b⟩
        have hs₂ : c'.Stands o 0 b' rest written _ := hs₁.withFrames (c'.frames 0 b')
        refine .step (hgoes henter)
          ((hcall c' q args b' rest written _ hq hg hargs hframe hs₂).bind ?_)
        intro v written s' hreturns
        obtain ⟨s'', hret, hs''⟩ := hreturns.step hg' rfl (List.cons_ne_nil _ _)
        exact .value (.step hret (.refl s'')) hs''
      · rw [if_pos hargs]
        obtain ⟨_, -, hw⟩ := hholds.body
        cases hframe : Frame.enter id g args captured rest.length box with
        | ok fr =>
          rw [hframe] at henter
          refine .misfit (.refl s) (.enters (hgoes henter) ?_)
          refine not_entersExactly hg' (fun heq => hargs (heq.trans hw.arity)) hframe hs
            (hs₁.withFrames _)
        | error e =>
          rw [hframe] at henter
          obtain ⟨m, hm⟩ := Frame.enter_error hframe
          exact .misfit (.refl s) (.fails (hfails henter) hm hs₁)

/-- What operands come to, from when they have been taken. -/
theorem realizes_perform {r : Reaction} {before : String} (hs : c.Stands o ip b ops before s)
    (hs₁ : c.Stands o (ip + 1) b rest written s₁)
    (hnext : Exec.next w.linked s = EStateM.adaptExcept (fun t : Trap => t.located span c.code.name)
      (Exec.perform w.linked r) s₁) :
    Realizes w.linked o (n + 1) s (fun v => c.Stands o (ip + 1) b (v :: rest))
      (w.perform call c.activation span r written) := by
  cases r with
  | value v =>
    have hpush : Exec.perform w.linked (.value v) s₁ = .ok .goOn (s₁.withStack (v :: rest)) := by
      rw [Exec.perform, Exec.goOn_apply, Exec.push_apply, hs₁.stack_eq]
    exact .value (.step (hnext.trans (adaptExcept_ok hpush)) (.refl _)) (hs₁.withStack _)
  | enter id args captured box => exact realizes_enter ht hcall hs hs₁ hnext
  | fails cause => exact .fault (hnext.trans (adaptExcept_error rfl)) hs₁
  | lost type => exact .trap (.refl s) (hnext.trans (adaptExcept_error rfl)) hs₁

/-- An instruction that only works on its operands answers as the evaluation does. -/
theorem realizes_answer {i : Instr} {answer : String × Reaction}
    (hc : w.linked.module.functions[c.function]? = some c.code) (ops : List Value)
    (hs : c.Stands o ip b (ops.reverse ++ rest) written s) (hi : c.code.Has ip i span)
    (hr : i.react? w.linked c.code c.captured ops = some answer) (hn : ops.length = i.pops) :
    Realizes w.linked o (n + 1) s (fun v => c.Stands o (ip + 1) b (v :: rest))
      (w.answer call c.activation span answer written) := by
  obtain ⟨text, r⟩ := answer
  obtain ⟨s₁, hs₁, hnext⟩ := hs.next hc hi
  have hstep := Exec.step_react (p := w.linked) (f := c.code) hs₁.frames_eq hr hn hs₁.stack_eq
  refine realizes_perform ht hcall hs ((hs₁.withStack rest).writing text) (hnext.trans ?_)
  unfold EStateM.adaptExcept
  rw [hstep]

/-- As before, for an answer that comes without text. -/
theorem realizes_silent {i : Instr} {r : Reaction}
    (hc : w.linked.module.functions[c.function]? = some c.code) (ops : List Value)
    (hs : c.Stands o ip b (ops.reverse ++ rest) written s) (hi : c.code.Has ip i span)
    (hr : i.react? w.linked c.code c.captured ops = some ("", r)) (hn : ops.length = i.pops) :
    Realizes w.linked o (n + 1) s (fun v => c.Stands o (ip + 1) b (v :: rest))
      (w.perform call c.activation span r written) := by
  have h := realizes_answer ht hcall hc ops hs hi hr hn
  have hsilent : w.answer call c.activation span ("", r) written =
      w.perform call c.activation span r (written ++ "") := rfl
  rw [hsilent, String.append_empty] at h
  exact h

end

end Evaluator

end ScopedScript
