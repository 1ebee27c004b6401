import ScopedScript.Proofs.Machine.Triple

/-!
# Task handles in values

A handle is the only way to name a task. Handles are made by `spawn` alone; everything else copies
values, takes them apart and puts them together, so it finds no handle that it was not given.
-/

namespace ScopedScript

mutual

/-- The tasks whose handles a value contains. -/
def Value.handles : Value → List Nat
  | .task id => [id]
  | .struct _ fields => Value.handlesOfAll fields
  | .closure _ captures => Value.handlesOfAll captures
  | .any inner => inner.handles
  | _ => []

def Value.handlesOfAll : List Value → List Nat
  | [] => []
  | v :: rest => v.handles ++ Value.handlesOfAll rest

end

/-- Every handle in the value names a task of `K`. -/
def Value.Within (K : Nat → Prop) (v : Value) : Prop := ∀ id ∈ v.handles, K id

/-- A built-in that answers with no other handles than those in its arguments. -/
def Builtin.ForwardsHandles (b : Builtin) : Prop :=
  ∀ m args v, (b.call m args).answer = .ok v → ∀ id ∈ v.handles, id ∈ Value.handlesOfAll args

def Linked.ForwardsHandles (p : Linked) : Prop := ∀ b ∈ p.builtins, b.ForwardsHandles

namespace Value

variable {K K' : Nat → Prop}

theorem mem_handlesOfAll {id : Nat} {vs : List Value} :
    id ∈ handlesOfAll vs ↔ ∃ v ∈ vs, id ∈ v.handles := by
  induction vs with
  | nil => simp [handlesOfAll]
  | cons v rest ih => simp [handlesOfAll, ih]

theorem Within.mono (h : ∀ id, K id → K' id) {v : Value} (hv : v.Within K) : v.Within K' :=
  fun id hid => h id (hv id hid)

theorem Within.of_handles_nil {v : Value} (h : v.handles = []) : v.Within K := by
  intro id hid
  rw [h] at hid
  cases hid

theorem within_struct {type : Nat} {fields : List Value} :
    (struct type fields).Within K ↔ ∀ v ∈ fields, v.Within K := by
  simp only [Within, handles, mem_handlesOfAll]
  grind

theorem within_closure {id : Nat} {captures : List Value} :
    (closure id captures).Within K ↔ ∀ v ∈ captures, v.Within K := by
  simp only [Within, handles, mem_handlesOfAll]
  grind

theorem within_task {id : Nat} : (task id).Within K ↔ K id := by simp [Within, handles]

@[simp]
theorem handles_unboxed (v : Value) : v.unboxed.handles = v.handles := by
  match v with
  | .any inner => exact handles_unboxed inner
  | .int _ | .float _ | .bool _ | .string _ | .null | .struct _ _ | .function _ | .closure _ _
  | .native _ | .task _ => rfl

@[simp]
theorem handles_boxed (v : Value) : v.boxed.handles = v.handles := by
  cases v <;> rfl

@[simp]
theorem within_unboxed {v : Value} : v.unboxed.Within K ↔ v.Within K := by simp [Within]

@[simp]
theorem within_boxed {v : Value} : v.boxed.Within K ↔ v.Within K := by simp [Within]

mutual

theorem Within.setPath? {new : Value} (hn : new.Within K) :
    ∀ {path : List Nat} {v w : Value}, v.Within K → setPath? new path v = some w → w.Within K
  | [], v, w, _, h => by
    simp only [Value.setPath?, Option.some.injEq] at h
    exact h ▸ hn
  | i :: path, v, w, hv, h => by
    cases v with
    | struct type fields =>
      simp only [Value.setPath?, Option.map_eq_some_iff] at h
      obtain ⟨fields', hf, rfl⟩ := h
      exact within_struct.2 (Within.setField? hn (within_struct.1 hv) hf)
    | _ => cases h

theorem Within.setField? {new : Value} (hn : new.Within K) :
    ∀ {path : List Nat} {i : Nat} {vs ws : List Value}, (∀ v ∈ vs, v.Within K) →
      Value.setField? new path i vs = some ws → ∀ w ∈ ws, w.Within K
  | path, 0, v :: rest, ws, hv, h => by
    simp only [Value.setField?, Option.map_eq_some_iff] at h
    obtain ⟨v', hv', rfl⟩ := h
    have h' := Within.setPath? hn (hv v (by simp)) hv'
    simp only [List.mem_cons]
    rintro w (rfl | hw)
    · exact h'
    · exact hv w (by simp [hw])
  | path, i + 1, v :: rest, ws, hv, h => by
    simp only [Value.setField?, Option.map_eq_some_iff] at h
    obtain ⟨rest', hr, rfl⟩ := h
    have h' := Within.setField? hn (fun w hw => hv w (by simp [hw])) hr
    simp only [List.mem_cons]
    rintro w (rfl | hw)
    · exact hv w (by simp)
    · exact h' w hw

end

end Value

/-- Given values of `K` only, the built-ins answer with such. -/
def Linked.AnswersWithin (p : Linked) (K : Nat → Prop) : Prop :=
  ∀ b ∈ p.builtins, ∀ m args v, (∀ a ∈ args, a.Within K) → (b.call m args).answer = .ok v →
    v.Within K

theorem Linked.ForwardsHandles.answersWithin {p : Linked} (hp : p.ForwardsHandles)
    (K : Nat → Prop) : p.AnswersWithin K := by
  intro b hb m args v ha hv id hid
  obtain ⟨w, hw, hiw⟩ := Value.mem_handlesOfAll.1 (hp b hb m args v hv id hid)
  exact ha w hw id hiw

/-- Where every handle is allowed, nothing is asked of the built-ins. -/
theorem Linked.answersWithin_all (p : Linked) : p.AnswersWithin fun _ => True :=
  fun _ _ _ _ _ _ _ _ _ => trivial

theorem exists_of_bind_eq_ok {x : Except ε α} {f : α → Except ε β} {b : β}
    (h : x >>= f = .ok b) : ∃ a, x = .ok a ∧ f a = .ok b := by
  cases x with
  | error e => cases h
  | ok a => exact ⟨a, rfl, h⟩

/-- A number, a text, a truth value or null, in boxes or not. -/
def Value.Scalar (v : Value) : Prop :=
  match v.unboxed with
  | .int _ | .float _ | .bool _ | .string _ | .null => True
  | _ => False

@[simp]
theorem Value.scalar_boxed {v : Value} : v.boxed.Scalar ↔ v.Scalar := by simp [Scalar]

theorem Value.Scalar.handles {v : Value} (h : v.Scalar) : v.handles = [] := by
  rw [← handles_unboxed]
  unfold Scalar at h
  cases hv : v.unboxed with
  | int _ | float _ | bool _ | string _ | null => rfl
  | _ =>
    rw [hv] at h
    exact h.elim

namespace Operator

theorem scalar_apply {op : ArithOp} {a b v : Value} (h : apply op a b = .ok (some v)) :
    v.Scalar := by
  unfold apply at h
  split at h
  · obtain ⟨n, -, hn⟩ := exists_of_bind_eq_ok h
    cases hn
    trivial
  · simp only [pure, Except.pure, Except.ok.injEq, Option.map_eq_some_iff] at h
    obtain ⟨x, -, rfl⟩ := h
    trivial
  · split at h <;> cases h
    trivial
  · split at h
    · obtain ⟨s, -, hs⟩ := exists_of_bind_eq_ok h
      cases hs
      trivial
    · cases h
  · cases h

theorem scalar_arith {m : Module} {op : ArithOp} {kind : OperandKind} {a b v : Value}
    (h : arith m op kind a b = .ok v) : v.Scalar := by
  unfold arith at h
  split at h <;>
  · obtain ⟨r, hr, h⟩ := exists_of_bind_eq_ok h
    cases r with
    | none => cases h
    | some w =>
      have hw := scalar_apply hr
      cases h
      simpa using hw

theorem scalar_negate {m : Module} {kind : OperandKind} {a v : Value}
    (h : negate m kind a = .ok v) : v.Scalar := by
  unfold negate at h
  split at h <;> cases h <;> trivial

theorem scalar_convert {m : Module} {target : CastTarget} {a v : Value}
    (h : convert m target a = .ok v) : v.Scalar := by
  unfold convert readInt readFloat at h
  split at h <;> try split at h
  all_goals cases h
  all_goals trivial

end Operator

end ScopedScript
