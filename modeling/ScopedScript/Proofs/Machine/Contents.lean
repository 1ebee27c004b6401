import ScopedScript.Proofs.Machine.Rebinding
import ScopedScript.Proofs.Machine.TaskTable

/-!
# Values of tasks

Where the values of a task are: bound in its frames, captured by them, among its operands, in its
result and in the outcome that it is handed. What holds of all of them holds of what the operations
on bindings and on the table of tasks leave.
-/

namespace ScopedScript

variable {Q : Value → Prop}

/-- All values that are bound are as said. -/
def Bindings.Each (Q : Value → Prop) (b : Bindings) : Prop := ∀ i v, b.Holds i v → Q v

def Frame.Each (Q : Value → Prop) (fr : Frame) : Prop :=
  (∀ v ∈ fr.captures, Q v) ∧ fr.bindings.Each Q

structure Task.Each (Q : Value → Prop) (t : Task) : Prop where
  frames : ∀ fr ∈ t.frames, fr.Each Q
  stack : ∀ v ∈ t.stack, Q v
  result : ∀ v, t.result = some (.ok v) → Q v
  resume : ∀ v, t.resumeWith = some (.ok v) → Q v

namespace Bindings

variable {b : Bindings}

theorem each_new (n : Nat) : (Bindings.new n).Each Q := by
  intro i v h
  rw [Holds, new, Array.getElem?_replicate] at h
  split at h <;> cases h

theorem Each.withSlot {i : Nat} {v : Value} (hb : b.Each Q) (hv : Q v) :
    (b.withSlot i (.live v)).Each Q := by
  intro j w hw
  rw [Holds, slots_withSlot] at hw
  split at hw
  · cases hw
    exact hv
  · exact hb j w hw

theorem Each.withDeadSlot {i : Nat} {s : Slot} (hb : b.Each Q) (hs : s.isLive = false) :
    (b.withSlot i s).Each Q :=
  fun j w hw => hb j w ((holds_withSlot_dead hs).1 hw).2

theorem Each.leftScope (hb : b.Each Q) : (BindingM.leftScope b).Each Q := by
  intro j w hw
  rw [Holds, BindingM.leftScope, slots_releaseAll] at hw
  split at hw
  · cases hw
  · exact hb j w hw

theorem Each.enterScope (hb : b.Each Q) :
    ({ b with scopes := [] :: b.scopes } : Bindings).Each Q := hb

theorem Each.declared {i : Nat} {v : Value} (hb : b.Each Q) (hv : Q v) :
    (BindingM.declared b i v).Each Q :=
  hb.withSlot hv

end Bindings

theorem BindingM.each_declareArgs {args : List Value} (ha : ∀ v ∈ args, Q v) :
    ∀ {first : Nat} {b b' : Bindings}, b.Each Q → declareArgs first args b = .ok () b' →
    b'.Each Q := by
  induction args with
  | nil =>
    intro first b b' hb h
    cases h
    exact hb
  | cons v rest ih =>
    intro first b b' hb h
    rw [declareArgs, bind_apply] at h
    rcases declare_cases first v b with ⟨-, -, hd⟩ | ⟨-, e, hd, -⟩
    · rw [hd] at h
      exact ih (fun w hw => ha w (by simp [hw])) (hb.declared (ha v (by simp))) h
    · rw [hd] at h
      cases h

/-- A frame starts with the values that it is given. -/
theorem Frame.each_enter {id base : Nat} {f : FunctionCode} {args captures : List Value}
    {box : Bool} {fr : Frame} (h : Frame.enter id f args captures base box = .ok fr)
    (ha : ∀ v ∈ args, Q v) (hc : ∀ v ∈ captures, Q v) : fr.function = id ∧ fr.Each Q := by
  unfold Frame.enter at h
  simp only [BindingM.bind_apply, BindingM.enterScope_apply] at h
  split at h
  · rename_i b hb
    cases h
    exact ⟨rfl, hc, BindingM.each_declareArgs ha (Bindings.each_new _).enterScope hb⟩
  · cases h

/-- What an operation on bindings makes of values that are as said, with operands that are. -/
theorem Instr.each_rebind {i : Instr} {ops : List Value}
    {act : BindingM (Option Value × Option (ReleaseKind × List Nat))} {b b' : Bindings}
    {v : Option Value} {released : Option (ReleaseKind × List Nat)} (hr : i.rebind? ops = some act)
    (h : act b = .ok (v, released) b') (hb : b.Each Q) (hops : ∀ w ∈ ops, Q w)
    (hpath : ∀ new path v w, Q new → Q v → Value.setPath? new path v = some w → Q w) :
    b'.Each Q ∧ ∀ w ∈ v, Q w := by
  cases i with
  | enterScope =>
    cases ops <;> cases hr
    cases h
    exact ⟨hb.enterScope, nofun⟩
  | exitScope =>
    cases ops <;> cases hr
    rw [BindingM.bind_apply] at h
    rcases BindingM.exitScope_cases b with ⟨-, he⟩ | ⟨-, he⟩ <;> rw [he] at h <;> cases h
    exact ⟨hb.leftScope, nofun⟩
  | declare slot =>
    rcases ops with - | ⟨w, - | ⟨w', ops⟩⟩ <;> cases hr
    rw [BindingM.bind_apply] at h
    rcases BindingM.declare_cases slot w b with ⟨-, -, he⟩ | ⟨-, e, he, -⟩ <;>
      rw [he] at h <;> cases h
    exact ⟨hb.declared (hops w (by simp)), nofun⟩
  | load slot =>
    cases ops <;> cases hr
    rw [BindingM.bind_apply] at h
    rcases BindingM.load_cases slot b with ⟨w, hw, he⟩ | ⟨-, e, he, -⟩ <;> rw [he] at h <;> cases h
    exact ⟨hb, fun u hu => Option.some.inj hu ▸ hb slot w hw⟩
  | move slot =>
    cases ops <;> cases hr
    rw [BindingM.bind_apply] at h
    rcases BindingM.take_cases slot b with ⟨w, hw, he⟩ | ⟨-, e, he, -⟩ <;> rw [he] at h <;> cases h
    exact ⟨hb.withDeadSlot rfl, fun u hu => Option.some.inj hu ▸ hb slot w hw⟩
  | store slot =>
    rcases ops with - | ⟨w, - | ⟨w', ops⟩⟩ <;> cases hr
    rw [BindingM.bind_apply] at h
    rcases BindingM.store_cases slot w b with ⟨-, he⟩ | ⟨-, e, he, -⟩ <;> rw [he] at h <;> cases h
    exact ⟨hb.withSlot (hops w (by simp)), nofun⟩
  | storeField slot path =>
    rcases ops with - | ⟨w, - | ⟨w', ops⟩⟩ <;> cases hr
    rw [BindingM.bind_apply] at h
    rcases BindingM.storeField_cases slot path w b with
      ⟨u, whole, hu, hp, he⟩ | ⟨_, -, -, he⟩ | ⟨-, e, he, -⟩ <;> rw [he] at h <;> cases h
    exact ⟨hb.withSlot (hpath w path u whole (hops w (by simp)) (hb slot u hu) hp), nofun⟩
  | free slot =>
    cases ops <;> cases hr
    rw [BindingM.bind_apply] at h
    rcases BindingM.free_cases slot b with ⟨-, he⟩ | ⟨-, e, he, -⟩ <;> rw [he] at h <;> cases h
    exact ⟨hb.withDeadSlot rfl, nofun⟩
  | _ => cases hr

/-! ## Tasks of the table -/

/-- All tasks of the table are as said. -/
def Scheduler.Each (T : Task → Prop) (s : Scheduler) : Prop := ∀ i t, s.get? i = some t → T t

namespace Scheduler

variable {T : Task → Prop} {s : Scheduler} {t : Task}

theorem Each.spawn (h : s.Each T) {frame : Frame} (hf : ∀ id, T (.start id frame)) :
    (s.spawn frame).2.Each T := by
  intro i t ht
  rw [get?_spawn] at ht
  split at ht
  · cases ht
    exact hf _
  · exact h i t ht

theorem Each.putBack (h : s.Each T) (ht : T t) : (s.putBack t).Each T := by
  intro i u hu
  rw [get?_putBack] at hu
  split at hu
  · cases hu
    exact ht
  · exact h i u hu

theorem Each.modifyTask (h : s.Each T) {g : Task → Task} (hg : ∀ u, T u → T (g u)) (id : Nat) :
    (s.modifyTask id g).Each T := by
  intro i u hu
  rw [get?_modifyTask] at hu
  split at hu
  · obtain ⟨v, hv, rfl⟩ := Option.map_eq_some_iff.1 hu
    exact hg v (h i v hv)
  · exact h i u hu

theorem Each.wakeAll (h : s.Each T) {outcome : Outcome} (hw : ∀ u, T u → T (woken outcome u))
    (ws : List Nat) : (ws.foldl (wake outcome) s).Each T := by
  induction ws generalizing s with
  | nil => exact h
  | cons w rest ih =>
    refine ih ?_
    rw [wake]
    split
    · exact h
    · exact h.modifyTask (g := woken outcome) hw w

theorem Each.take (h : s.Each T) {s' : Scheduler} (hn : s.next? = some (t, s')) :
    s'.Each T ∧ ∃ u, T u ∧ t = { u with state := .running } := by
  obtain ⟨tasks, ready⟩ := s
  change takeFirst tasks ready = _ at hn
  induction ready with
  | nil => cases hn
  | cons id rest ih =>
    rw [takeFirst] at hn
    split at hn
    · rename_i u hu
      cases hn
      refine ⟨fun i v hv => ?_, u, h id u hu, rfl⟩
      rw [get?_taken ⟨tasks, id :: rest⟩] at hv
      split at hv
      · cases hv
      · exact h i v hv
    · exact ih h hn

end Scheduler

end ScopedScript
