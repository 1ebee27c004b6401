import ScopedScript.Proofs.Machine.TaskTable

/-!
# Tables that differ in frames

The operations of the scheduler do not look at the frames of tasks. Of two tables whose tasks differ
in their frames only, they make tables of which this is true again.
-/

namespace ScopedScript

/-- What is known of the frames of a task, by its number, and of the frames that it has instead. -/
abbrev FrameRelation := Nat → List Frame → List Frame → Prop

/-- The second task is the first one with other frames. -/
structure Task.Reframed (F : FrameRelation) (t t' : Task) : Prop where
  frames : F t.id t.frames t'.frames
  rest : t' = { t with frames := t'.frames }

/-- The same tasks, each with other frames, are in the table and in the queue. -/
structure Scheduler.Reframed (F : FrameRelation) (s s' : Scheduler) : Prop where
  size : s'.tasks.size = s.tasks.size
  ready : s'.ready = s.ready
  tasks : ∀ i, Option.Rel (Task.Reframed F) (s.get? i) (s'.get? i)

variable {F : FrameRelation}

namespace Task.Reframed

variable {t t' : Task}

theorem id_eq (h : t.Reframed F t') : t'.id = t.id := by rw [h.rest]

theorem state_eq (h : t.Reframed F t') : t'.state = t.state := by rw [h.rest]

theorem stack_eq (h : t.Reframed F t') : t'.stack = t.stack := by rw [h.rest]

theorem result_eq (h : t.Reframed F t') : t'.result = t.result := by rw [h.rest]

theorem waiters_eq (h : t.Reframed F t') : t'.waiters = t.waiters := by rw [h.rest]

theorem resumeWith_eq (h : t.Reframed F t') : t'.resumeWith = t.resumeWith := by rw [h.rest]

/-- A change of the task that has nothing to do with its frames. -/
theorem map (h : t.Reframed F t') {g : Task → Task} (hid : ∀ t, (g t).id = t.id)
    (hf : ∀ t, (g t).frames = t.frames)
    (hg : ∀ t frames, g { t with frames } = { g t with frames }) : (g t).Reframed F (g t') where
  frames := by
    rw [hid, hf, hf]
    exact h.frames
  rest := by
    conv_lhs => rw [h.rest, hg]
    rw [hf]

theorem withFrames (h : t.Reframed F t') {frames frames' : List Frame}
    (hf : F t.id frames frames') :
    Reframed F { t with frames } { t' with frames := frames' } := ⟨hf, by rw [h.rest]⟩

end Task.Reframed

namespace Scheduler.Reframed

variable {s s' : Scheduler} {t t' : Task}

theorem spawn (h : s.Reframed F s') {fr fr' : Frame} (hf : F s.tasks.size [fr] [fr']) :
    (s.spawn fr).2.Reframed F (s'.spawn fr').2 := by
  refine ⟨by rw [size_spawn, size_spawn, h.size], ?_, fun i => ?_⟩
  · change s'.ready ++ [s'.tasks.size] = s.ready ++ [s.tasks.size]
    rw [h.ready, h.size]
  · rw [get?_spawn, get?_spawn, h.size]
    split
    · exact .some ⟨hf, rfl⟩
    · exact h.tasks i

theorem putBack (h : s.Reframed F s') (ht : t.Reframed F t') :
    (s.putBack t).Reframed F (s'.putBack t') where
  size := by rw [size_putBack, size_putBack, h.size]
  ready := by
    change (if t'.state = .ready then s'.ready ++ [t'.id] else s'.ready) =
      if t.state = .ready then s.ready ++ [t.id] else s.ready
    rw [ht.state_eq, ht.id_eq, h.ready]
  tasks := fun i => by
    rw [get?_putBack, get?_putBack, ht.id_eq, h.size]
    split
    · exact .some ht
    · exact h.tasks i

theorem modifyTask (h : s.Reframed F s') (id : Nat) {g : Task → Task} (hid : ∀ t, (g t).id = t.id)
    (hf : ∀ t, (g t).frames = t.frames)
    (hg : ∀ t frames, g { t with frames } = { g t with frames }) :
    (s.modifyTask id g).Reframed F (s'.modifyTask id g) where
  size := by rw [size_modifyTask, size_modifyTask, h.size]
  ready := h.ready
  tasks := fun i => by
    rw [get?_modifyTask, get?_modifyTask]
    have hi := h.tasks i
    split
    · generalize s.get? i = o, s'.get? i = o' at hi
      cases hi with
      | none => exact .none
      | some hi => exact .some (hi.map hid hf hg)
    · exact hi

theorem get?_eq_some (h : s.Reframed F s') {i : Nat} (hi : s.get? i = some t) :
    ∃ t', s'.get? i = some t' ∧ t.Reframed F t' := by
  have hr := h.tasks i
  rw [hi] at hr
  generalize s'.get? i = o' at hr
  cases hr with
  | some ht => exact ⟨_, rfl, ht⟩

theorem get?_eq_none (h : s.Reframed F s') {i : Nat} (hi : s.get? i = none) : s'.get? i = none := by
  have hr := h.tasks i
  rw [hi] at hr
  generalize s'.get? i = o' at hr
  cases hr
  rfl

theorem wake (h : s.Reframed F s') (outcome : Outcome) (id : Nat) :
    (wake outcome s id).Reframed F (wake outcome s' id) := by
  cases hs : s.get? id with
  | none =>
    simp only [Scheduler.wake, hs, h.get?_eq_none hs, Option.isNone_none, if_true]
    exact h
  | some t =>
    obtain ⟨t', hs', -⟩ := h.get?_eq_some hs
    rw [wake_eq hs, wake_eq hs', h.ready]
    have hm := h.modifyTask id (g := woken outcome) (fun _ => rfl) (fun _ => rfl) fun _ _ => rfl
    exact ⟨hm.size, rfl, hm.tasks⟩

theorem wakeAll (outcome : Outcome) (ids : List Nat) (h : s.Reframed F s') :
    (ids.foldl (Scheduler.wake outcome) s).Reframed F (ids.foldl (Scheduler.wake outcome) s') := by
  induction ids generalizing s s' with
  | nil => exact h
  | cons id rest ih => exact ih (h.wake outcome id)

/-- A task that ends has no frames. -/
theorem complete (h : s.Reframed F s') (ht : t.Reframed F t') (hnil : F t.id [] [])
    (outcome : Outcome) : (s.complete t outcome).1.Reframed F (s'.complete t' outcome).1 ∧
      (s.complete t outcome).2.Reframed F (s'.complete t' outcome).2 := by
  constructor
  · refine ⟨hnil, ?_⟩
    rw [Scheduler.complete, Scheduler.complete, ht.rest]
  · rw [Scheduler.complete, Scheduler.complete, ht.waiters_eq]
    exact h.wakeAll outcome t.waiters

/-- The same task is taken, or none. -/
theorem takeFirst (h : s.Reframed F s') (queue : List Nat) :
    Option.Rel (fun a a' : Task × Scheduler => a.1.Reframed F a'.1 ∧ a.2.Reframed F a'.2)
      (takeFirst s.tasks queue) (takeFirst s'.tasks queue) := by
  induction queue with
  | nil => exact .none
  | cons id rest ih =>
    have hi := h.tasks id
    rw [get?, get?] at hi
    rw [Scheduler.takeFirst, Scheduler.takeFirst]
    generalize hs : (s.tasks[id]?).join = o, hs' : (s'.tasks[id]?).join = o' at hi
    cases hi with
    | none => exact ih
    | some hi =>
      refine .some ⟨hi.map (g := fun t => { t with state := .running }) (fun _ => rfl)
        (fun _ => rfl) fun _ _ => rfl, by simp [h.size], rfl, fun i => ?_⟩
      rw [get?_taken, get?_taken]
      split
      · exact .none
      · exact h.tasks i

theorem next? (h : s.Reframed F s') :
    Option.Rel (fun a a' : Task × Scheduler => a.1.Reframed F a'.1 ∧ a.2.Reframed F a'.2) s.next?
      s'.next? := by
  rw [Scheduler.next?, Scheduler.next?, h.ready]
  exact h.takeFirst s.ready

end Scheduler.Reframed

end ScopedScript
