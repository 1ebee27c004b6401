import ScopedScript.Proofs.Machine.Contents
import ScopedScript.Proofs.Machine.StandardAnswers

/-!
# Functions that values refer to

A value of function type is made by an instruction that names the function. Everything else copies
values, takes them apart and puts them together, so what it enters is a function that it names, one
that it was given, or one that may be called as if its type were not known.
-/

namespace ScopedScript

mutual

/-- The functions that a value refers to. -/
def Value.functions : Value → List Nat
  | .function id => [id]
  | .closure id captures => id :: Value.functionsOfAll captures
  | .struct _ fields => Value.functionsOfAll fields
  | .any inner => inner.functions
  | _ => []

def Value.functionsOfAll : List Value → List Nat
  | [] => []
  | v :: rest => v.functions ++ Value.functionsOfAll rest

end

/-- Every function that the value refers to is in `S`. -/
def Value.Refers (S : Nat → Prop) (v : Value) : Prop := ∀ id ∈ v.functions, S id

/-- A built-in answers with no functions but those in its arguments and those of `S`. -/
def Linked.ForwardsFunctions (p : Linked) (S : Nat → Prop) : Prop :=
  ∀ b ∈ p.builtins, ∀ m args v, (b.call m args).answer = .ok v →
    ∀ id ∈ v.functions, id ∈ Value.functionsOfAll args ∨ S id

variable {S : Nat → Prop}

namespace Value

theorem mem_functionsOfAll {id : Nat} {vs : List Value} :
    id ∈ functionsOfAll vs ↔ ∃ v ∈ vs, id ∈ v.functions := by
  induction vs with
  | nil => simp [functionsOfAll]
  | cons v rest ih => simp [functionsOfAll, ih]

theorem refers_struct {type : Nat} {fields : List Value} :
    (struct type fields).Refers S ↔ ∀ v ∈ fields, v.Refers S := by
  simp only [Refers, functions, mem_functionsOfAll]
  grind

theorem refers_closure {id : Nat} {captures : List Value} :
    (closure id captures).Refers S ↔ S id ∧ ∀ v ∈ captures, v.Refers S := by
  simp only [Refers, functions, List.mem_cons, mem_functionsOfAll]
  grind

theorem refers_function {id : Nat} : (function id).Refers S ↔ S id := by simp [Refers, functions]

@[simp]
theorem functions_unboxed (v : Value) : v.unboxed.functions = v.functions := by
  match v with
  | .any inner => exact functions_unboxed inner
  | .int _ | .float _ | .bool _ | .string _ | .null | .struct _ _ | .function _ | .closure _ _
  | .native _ | .task _ => rfl

@[simp]
theorem functions_boxed (v : Value) : v.boxed.functions = v.functions := by
  cases v <;> rfl

@[simp]
theorem refers_unboxed {v : Value} : v.unboxed.Refers S ↔ v.Refers S := by simp [Refers]

@[simp]
theorem refers_boxed {v : Value} : v.boxed.Refers S ↔ v.Refers S := by simp [Refers]

theorem refers_of_nil {v : Value} (h : v.functions = []) : v.Refers S := by
  intro id hid
  rw [h] at hid
  cases hid

theorem Scalar.functions {v : Value} (h : v.Scalar) : v.functions = [] := by
  rw [← functions_unboxed]
  unfold Scalar at h
  cases hv : v.unboxed with
  | int _ | float _ | bool _ | string _ | null => rfl
  | _ =>
    rw [hv] at h
    exact h.elim

mutual

theorem Refers.setPath? {new : Value} (hn : new.Refers S) :
    ∀ {path : List Nat} {v w : Value}, v.Refers S → setPath? new path v = some w → w.Refers S
  | [], v, w, _, h => by
    simp only [Value.setPath?, Option.some.injEq] at h
    exact h ▸ hn
  | i :: path, v, w, hv, h => by
    cases v with
    | struct type fields =>
      simp only [Value.setPath?, Option.map_eq_some_iff] at h
      obtain ⟨fields', hf, rfl⟩ := h
      exact refers_struct.2 (Refers.setField? hn (refers_struct.1 hv) hf)
    | _ => cases h

theorem Refers.setField? {new : Value} (hn : new.Refers S) :
    ∀ {path : List Nat} {i : Nat} {vs ws : List Value}, (∀ v ∈ vs, v.Refers S) →
      Value.setField? new path i vs = some ws → ∀ w ∈ ws, w.Refers S
  | path, 0, v :: rest, ws, hv, h => by
    simp only [Value.setField?, Option.map_eq_some_iff] at h
    obtain ⟨v', hv', rfl⟩ := h
    exact List.forall_mem_cons.2
      ⟨Refers.setPath? hn (hv v (by simp)) hv', fun w hw => hv w (by simp [hw])⟩
  | path, i + 1, v :: rest, ws, hv, h => by
    simp only [Value.setField?, Option.map_eq_some_iff] at h
    obtain ⟨rest', hr, rfl⟩ := h
    exact List.forall_mem_cons.2
      ⟨hv v (by simp), Refers.setField? hn (fun w hw => hv w (by simp [hw])) hr⟩

end

end Value

/-- Built-ins whose answers are scalars hand out no functions. -/
theorem Linked.forwardsFunctions_of_scalars {p : Linked} (h : ∀ b ∈ p.builtins, b.AnswersScalars) :
    p.ForwardsFunctions S := by
  intro b hb m args v hv id hid
  rw [(TypeExpr.scalar_of_admitsScalar (h b hb m args v hv)).functions] at hid
  cases hid

/-! ## Reactions -/

/-- What a reaction gives refers to functions of `S`, and what it enters is one. -/
def Reaction.Refers (S : Nat → Prop) : Reaction → Prop
  | value v => v.Refers S
  | enter function args captures _ =>
    S function ∧ (∀ v ∈ args, v.Refers S) ∧ ∀ v ∈ captures, v.Refers S
  | fails _ | lost _ => True

namespace Reaction

variable {p : Linked} {args : List Value}

theorem refers_ofExcept {x : Except FaultCause Value} (h : ∀ v, x = .ok v → v.Refers S) :
    (ofExcept x).Refers S := by
  cases x with
  | ok v => exact h v rfl
  | error c => trivial

theorem refers_ofMistype {x : Except Mistype Value} (h : ∀ v, x = .ok v → v.Refers S) :
    (ofMistype x).Refers S := by
  cases x with
  | ok v => exact h v rfl
  | error c => trivial

theorem refers_ofBuiltin (hp : p.ForwardsFunctions S) {id : Nat} (ha : ∀ v ∈ args, v.Refers S)
    {v : Value} (h : (ofBuiltin p id args).2 = .ok v) : v.Refers S := by
  unfold ofBuiltin at h
  split at h
  · cases h
  · rename_i b hb
    intro f hf
    have hanswer : (b.call p.module args).answer = .ok v := by
      cases ha : (b.call p.module args).answer with
      | ok w =>
        rw [ha] at h
        cases h
        rfl
      | error e =>
        rw [ha] at h
        cases h
    rcases hp b (Array.mem_of_getElem? hb) _ _ _ hanswer f hf with hmem | hS
    · obtain ⟨w, hw, hfw⟩ := Value.mem_functionsOfAll.1 hmem
      exact ha w hw f hfw
    · exact hS

theorem refers_unbox {m : Module} {tag : TypeTag} {v w : Value} (h : Exec.unbox m tag v = .ok w)
    (hv : v.Refers S) : w.Refers S := by
  unfold Exec.unbox at h
  split at h
  · cases h
    exact Value.refers_boxed.2 hv
  · split at h
    · cases h
      exact Value.refers_unboxed.2 hv
    · cases h

theorem refers_unboxArgs {m : Module} {name : String} {number : Nat} {tags : List TypeTag}
    {args' : List Value} (h : Exec.unboxArgs m name number args tags = .ok args')
    (ha : ∀ v ∈ args, v.Refers S) : ∀ v ∈ args', v.Refers S := by
  induction args generalizing number tags args' with
  | nil =>
    cases h
    exact nofun
  | cons a rest ih =>
    cases tags with
    | nil =>
      cases h
      exact nofun
    | cons tag tags =>
      rw [Exec.unboxArgs] at h
      split at h
      · rename_i w hw
        cases hrest : Exec.unboxArgs m name (number + 1) rest tags with
        | error e =>
          rw [hrest] at h
          cases h
        | ok ws =>
          rw [hrest] at h
          cases h
          exact List.forall_mem_cons.2 ⟨refers_unbox hw (ha a (by simp)),
            ih hrest fun v hv => ha v (by simp [hv])⟩
      · cases h

/-- What is called without its type being known is not async. -/
theorem refers_ofDynamic {function : Nat} {captures : List Value} (ha : ∀ v ∈ args, v.Refers S)
    (hc : ∀ v ∈ captures, v.Refers S)
    (hS : ∀ g, p.module.functions[function]? = some g → g.isAsync = false → S function) :
    (ofDynamic p function args captures).Refers S := by
  unfold ofDynamic
  split
  · trivial
  · rename_i g hg
    split
    · rename_i args' hargs
      unfold Exec.dynamicArgs at hargs
      split at hargs
      · cases hargs
      · split at hargs
        · cases hargs
        · exact ⟨hS g hg (by simp_all), refers_unboxArgs hargs ha, hc⟩
    · trivial

theorem refers_ofField {m : Module} {v : Value} {index : Nat} (hv : v.Refers S) :
    (ofField m v index).Refers S := by
  rw [← Value.refers_unboxed] at hv
  unfold ofField
  split
  · rename_i type fields hu
    split
    · rename_i field hf
      rw [hu] at hv
      exact Value.refers_struct.1 hv field (List.mem_of_getElem? hf)
    · trivial
  · trivial

theorem refers_ofFieldDynamic {m : Module} {v : Value} {name : String} (hv : v.Refers S) :
    (ofFieldDynamic m v name).Refers S := by
  rw [← Value.refers_unboxed] at hv
  unfold ofFieldDynamic
  split
  · rename_i type fields hu
    split
    · trivial
    · split
      · trivial
      · split
        · rename_i field hf
          rw [hu] at hv
          exact Value.refers_boxed.2 (Value.refers_struct.1 hv field (List.mem_of_getElem? hf))
        · trivial
  · trivial

theorem refers_ofCallee {callee : Value} (hp : p.ForwardsFunctions S) (hc : callee.Refers S)
    (ha : ∀ v ∈ args, v.Refers S) : (ofCallee p callee args).2.Refers S := by
  rw [← Value.refers_unboxed] at hc
  unfold ofCallee
  cases hu : callee.unboxed with
  | function id =>
    rw [hu, Value.refers_function] at hc
    exact ⟨hc, ha, nofun⟩
  | closure id captures =>
    rw [hu, Value.refers_closure] at hc
    exact ⟨hc.1, ha, hc.2⟩
  | native id => exact refers_ofExcept fun v hv => refers_ofBuiltin hp ha hv
  | _ => trivial

theorem refers_ofCalleeDynamic {callee : Value} (hp : p.ForwardsFunctions S) (hc : callee.Refers S)
    (ha : ∀ v ∈ args, v.Refers S)
    (hS : ∀ id g, p.module.functions[id]? = some g → g.isAsync = false → S id) :
    (ofCalleeDynamic p callee args).2.Refers S := by
  rw [← Value.refers_unboxed] at hc
  unfold ofCalleeDynamic
  cases hu : callee.unboxed with
  | function id => exact refers_ofDynamic ha nofun (hS id)
  | closure id captures =>
    rw [hu, Value.refers_closure] at hc
    exact refers_ofDynamic ha hc.2 (hS id)
  | native id =>
    dsimp only
    split
    · trivial
    · split
      · refine refers_ofExcept fun v hv => ?_
        cases hb : (ofBuiltin p id args).2 with
        | error e =>
          rw [hb] at hv
          cases hv
        | ok w =>
          rw [hb] at hv
          cases hv
          exact Value.refers_boxed.2 (refers_ofBuiltin hp ha hb)
      · trivial
  | _ => trivial

theorem refers_ofMethod {receiver : Value} {method : String} (hr : receiver.Refers S)
    (ha : ∀ v ∈ args, v.Refers S)
    (hS : ∀ id g, p.module.functions[id]? = some g → g.isAsync = false → S id) :
    (ofMethod p receiver method args).Refers S := by
  rw [← Value.refers_unboxed] at hr
  unfold ofMethod
  split
  · rename_i type fields hu
    split
    · trivial
    · split
      · trivial
      · rename_i id _
        rw [hu] at hr
        exact refers_ofDynamic (List.forall_mem_cons.2 ⟨hr, ha⟩) (List.forall_mem_nil _) (hS id)
  · trivial

end Reaction

/-- An instruction that only works on its operands makes nothing of them but what they refer to,
when the functions that it names are in `S`. -/
theorem Instr.refers_react {p : Linked} {f : FunctionCode} {captures ops : List Value} {i : Instr}
    {w : String} {r : Reaction} (hr : i.react? p f captures ops = some (w, r))
    (hp : p.ForwardsFunctions S) (hc : ∀ v ∈ captures, v.Refers S) (hops : ∀ v ∈ ops, v.Refers S)
    (hi : ∀ id n, i = .call id n ∨ i = .makeClosure id n → S id)
    (hS : ∀ id g, p.module.functions[id]? = some g → g.isAsync = false → S id) : r.Refers S := by
  cases i with
  | const index =>
    cases ops <;> cases hr
    cases f.constants[index]? with
    | none => trivial
    | some c => exact Value.refers_of_nil (by cases c <;> rfl)
  | arith op kind =>
    rcases ops with - | ⟨a, - | ⟨b, - | ⟨c, ops⟩⟩⟩ <;> cases hr
    exact Reaction.refers_ofExcept fun v hv =>
      Value.refers_of_nil (Operator.scalar_arith hv).functions
  | neg kind =>
    rcases ops with - | ⟨a, - | ⟨b, ops⟩⟩ <;> cases hr
    exact Reaction.refers_ofExcept fun v hv =>
      Value.refers_of_nil (Operator.scalar_negate hv).functions
  | order op kind =>
    rcases ops with - | ⟨a, - | ⟨b, - | ⟨c, ops⟩⟩⟩ <;> cases hr
    refine Reaction.refers_ofExcept fun v hv => ?_
    cases ho : Operator.order p.module op kind a b <;> rw [ho] at hv <;> cases hv
    exact Value.refers_of_nil rfl
  | eq | ne =>
    rcases ops with - | ⟨a, - | ⟨b, - | ⟨c, ops⟩⟩⟩ <;> cases hr
    exact Value.refers_of_nil rfl
  | not =>
    rcases ops with - | ⟨a, - | ⟨b, ops⟩⟩ <;> cases hr
    cases a.unboxed <;> first | trivial | exact Value.refers_of_nil rfl
  | cast target =>
    rcases ops with - | ⟨a, - | ⟨b, ops⟩⟩ <;> cases hr
    exact Reaction.refers_ofExcept fun v hv =>
      Value.refers_of_nil (Operator.scalar_convert hv).functions
  | loadCapture index =>
    cases ops <;> cases hr
    cases hv : captures[index]? with
    | none => trivial
    | some v => exact hc v (List.mem_of_getElem? hv)
  | getField index =>
    rcases ops with - | ⟨a, - | ⟨b, ops⟩⟩ <;> cases hr
    exact Reaction.refers_ofField (hops a (by simp))
  | getFieldDynamic name =>
    rcases ops with - | ⟨a, - | ⟨b, ops⟩⟩ <;> cases hr
    exact Reaction.refers_ofFieldDynamic (hops a (by simp))
  | makeClosure function n =>
    have hf := hi function n (.inr rfl)
    cases ops with
    | nil =>
      cases hr
      exact Value.refers_function.2 hf
    | cons a ops =>
      cases hr
      exact Value.refers_closure.2 ⟨hf, hops⟩
  | loadNative id =>
    cases ops <;> cases hr
    exact Value.refers_of_nil rfl
  | callValue n =>
    rcases ops with - | ⟨c, args⟩
    · cases hr
    obtain rfl : (Reaction.ofCallee p c args).2 = r := congrArg Prod.snd (Option.some.inj hr)
    exact Reaction.refers_ofCallee hp (hops c (by simp)) fun v hv => hops v (by simp [hv])
  | callDynamic n =>
    rcases ops with - | ⟨c, args⟩
    · cases hr
    obtain rfl : (Reaction.ofCalleeDynamic p c args).2 = r := congrArg Prod.snd (Option.some.inj hr)
    exact Reaction.refers_ofCalleeDynamic hp (hops c (by simp))
      (fun v hv => hops v (by simp [hv])) hS
  | callMethodDynamic method n =>
    rcases ops with - | ⟨c, args⟩ <;> cases hr
    exact Reaction.refers_ofMethod (hops c (by simp)) (fun v hv => hops v (by simp [hv])) hS
  | callNative id n =>
    cases hr
    exact Reaction.refers_ofExcept fun v hv => Reaction.refers_ofBuiltin hp hops hv
  | box =>
    rcases ops with - | ⟨a, - | ⟨b, ops⟩⟩ <;> cases hr
    exact Value.refers_boxed.2 (hops a (by simp))
  | unbox tag =>
    rcases ops with - | ⟨a, - | ⟨b, ops⟩⟩ <;> cases hr
    exact Reaction.refers_ofMistype fun v hv => Reaction.refers_unbox hv (hops a (by simp))
  | format n =>
    cases hr
    exact Value.refers_of_nil rfl
  | makeStruct type n =>
    cases hr
    exact Value.refers_struct.2 hops
  | call function n =>
    cases hr
    exact ⟨hi function n (.inl rfl), hops, nofun⟩
  | _ => cases hr

end ScopedScript
