import Mathlib
import ScopedScript.Machine.Run

/-!
# Hoare triples of instructions

A triple says what holds after a computation of the machine has answered and after it has been
trapped. Both count: a fault leaves a task whose frames are still to be unwound.
-/

namespace ScopedScript.Exec

/-- From states with `P` the computation answers with `Q` or is trapped with `E`. -/
def Triple (P : Running → Prop) (x : Exec α) (Q : α → Running → Prop)
    (E : Trap → Running → Prop) : Prop :=
  ∀ s, P s → match x s with
    | .ok a s' => Q a s'
    | .error t s' => E t s'

variable {P : Running → Prop} {Q : α → Running → Prop} {E : Trap → Running → Prop}

theorem Triple.ok {x : Exec α} (h : Triple P x Q E) {s s' : Running} {a : α} (hs : P s)
    (hx : x s = .ok a s') : Q a s' := by
  have := h s hs
  rwa [hx] at this

theorem Triple.error {x : Exec α} (h : Triple P x Q E) {s s' : Running} {t : Trap} (hs : P s)
    (hx : x s = .error t s') : E t s' := by
  have := h s hs
  rwa [hx] at this

theorem bind_apply (x : Exec α) (f : α → Exec β) (s : Running) :
    (x >>= f) s = match x s with
      | .ok a s' => f a s'
      | .error t s' => .error t s' := by
  change EStateM.bind x f s = _
  unfold EStateM.bind
  cases x s <;> rfl

theorem get_apply (s : Running) : (get : Exec Running) s = .ok s s := rfl

theorem modify_apply (f : Running → Running) (s : Running) :
    (modify f : Exec Unit) s = .ok () (f s) := rfl

theorem pure_apply (a : α) (s : Running) : (Pure.pure a : Exec α) s = .ok a s := rfl

theorem throw_apply (t : Trap) (s : Running) : (throw t : Exec α) s = .error t s := rfl

theorem goOn_apply (x : Exec Unit) (s : Running) : goOn x s = match x s with
    | .ok _ s' => .ok .goOn s'
    | .error t s' => .error t s' := by
  rw [goOn, bind_apply]
  cases x s <;> rfl

theorem Triple.bind {x : Exec α} {f : α → Exec β} {R : β → Running → Prop}
    (hx : Triple P x Q E) (hf : ∀ a, Triple (Q a) (f a) R E) : Triple P (x >>= f) R E := by
  intro s hs
  have h := hx s hs
  rw [bind_apply]
  cases hr : x s with
  | ok a s' =>
    rw [hr] at h
    exact hf a s' h
  | error t s' =>
    rw [hr] at h
    exact h

theorem Triple.pure {a : α} (h : ∀ s, P s → Q a s) : Triple P (Pure.pure a : Exec α) Q E :=
  fun s hs => h s hs

theorem Triple.throw {t : Trap} (h : ∀ s, P s → E t s) :
    Triple P (throw t : Exec α) Q E :=
  fun s hs => h s hs

theorem Triple.modify {f : Running → Running} {Q : Unit → Running → Prop}
    (h : ∀ s, P s → Q () (f s)) : Triple P (modify f : Exec Unit) Q E :=
  fun s hs => h s hs

/-- Reading the state first: the rest may depend on the state that is read. -/
theorem Triple.get {f : Running → Exec α} (h : ∀ s, P s → Triple (fun s' => s' = s) (f s) Q E) :
    Triple P (get >>= f) Q E :=
  fun s hs => h s hs s rfl

theorem Triple.weaken {P' : Running → Prop} {Q' : α → Running → Prop}
    {E' : Trap → Running → Prop} {x : Exec α} (h : Triple P x Q E) (hP : ∀ s, P' s → P s)
    (hQ : ∀ a s, Q a s → Q' a s) (hE : ∀ t s, E t s → E' t s) : Triple P' x Q' E' := by
  intro s hs
  have hx := h s (hP s hs)
  cases hr : x s with
  | ok a s' =>
    rw [hr] at hx
    exact hQ a s' hx
  | error t s' =>
    rw [hr] at hx
    exact hE t s' hx

end ScopedScript.Exec
