import ScopedScript.Proofs.Machine.Turns

/-!
# Scheduling

The table of tasks and the queue stay consistent through every run of every module. Tasks are
resumed in the order in which they were queued up, and what one task does in its turn is no matter
of the others.
-/

namespace ScopedScript

namespace Scheduler

variable {s s' : Scheduler} {t u : Task} {i : Nat} {running running' : Option Task}
  {resumed queued : List Nat}

theorem Consistent.attends (hc : s.Consistent running) (h : s.Attends s') :
    s'.Consistent running := by
  cases h with
  | same => exact hc
  | observes id => exact hc.observe id

theorem ready_attends (h : s.Attends s') : s'.ready = s.ready := by cases h <;> rfl

theorem ready_addWaiter (s : Scheduler) (waiter awaited : Nat) :
    (s.addWaiter waiter awaited).ready = s.ready := rfl

theorem ready_putBack (s : Scheduler) (t : Task) :
    (s.putBack t).ready = if t.state = .ready then s.ready ++ [t.id] else s.ready := rfl

/-- The task whose turn it is stood first in the queue. -/
theorem Consistent.next?_some (hc : s.Consistent none) (h : s.next? = some (t, s')) :
    ∃ u rest, s.ready = u.id :: rest ∧ s.get? u.id = some u ∧ u.state = .ready ∧
      t = { u with state := .running } ∧ s' = ⟨s.tasks.setIfInBounds u.id none, rest⟩ := by
  cases hr : s.ready with
  | nil =>
    rw [next?, hr] at h
    cases h
  | cons i rest =>
    obtain ⟨u, hu, hs⟩ := hc.mem_ready.1 (hr ▸ List.mem_cons_self)
    rw [next?_cons hr hu] at h
    cases h
    obtain rfl := hc.id_eq hu
    exact ⟨u, rest, rfl, hu, hs, rfl, rfl⟩

/-- When a task ends, those that wait for it are handed its outcome and queue up. -/
theorem Consistent.ended (hc : s.Consistent (some t)) (outcome : Outcome) :
    (∀ i, (s.ended t outcome).get? i =
      if i = t.id then some (s.complete t outcome).1
      else if i ∈ t.waiters then (s.get? i).map (woken outcome) else s.get? i) ∧
    (s.ended t outcome).ready = s.ready ++ t.waiters ∧
    (s.ended t outcome).tasks.size = s.tasks.size :=
  hc.table_complete outcome

/-- Nothing is left to run in a task that has completed. -/
def Spent (s : Scheduler) : Prop :=
  ∀ i t, s.get? i = some t → t.state = .completed → t.frames = [] ∧ t.stack = []

/-- The numbers on all lists of waiting tasks. -/
def waiting (s : Scheduler) : List Nat :=
  s.tasks.toList.flatMap fun entry => (entry.map Task.waiters).getD []

theorem mem_waiting : i ∈ s.waiting ↔ ∃ j u, s.get? j = some u ∧ i ∈ u.waiters := by
  simp only [waiting, List.mem_flatMap, Array.mem_toList_iff, Array.mem_iff_getElem?, get?]
  constructor
  · rintro ⟨_ | u, ⟨j, hj⟩, hi⟩
    · cases hi
    · exact ⟨j, u, by rw [hj]; rfl, hi⟩
  · rintro ⟨j, u, hj, hi⟩
    exact ⟨some u, ⟨j, Option.join_eq_some_iff.1 hj⟩, hi⟩

/-- No number is on two lists, or twice on one. -/
theorem Consistent.waiting_nodup (hc : s.Consistent none) : s.waiting.Nodup := by
  have hget : ∀ {j : Nat} {u : Task}, s.tasks[j]? = some (some u) → s.get? j = some u := by
    intro j u hj
    rw [get?, hj]
    rfl
  have hknows : ∀ {j : Nat} {u : Task}, s.get? j = some u → s.Knows none u := fun h =>
    .inl (hc.id_eq h ▸ h)
  rw [waiting, List.nodup_flatMap]
  constructor
  · rintro (_ | u) hu
    · exact List.nodup_nil
    · obtain ⟨j, hj⟩ := Array.mem_iff_getElem?.1 (Array.mem_toList_iff.1 hu)
      exact hc.waiters_nodup (hknows (hget hj))
  · rw [List.pairwise_iff_getElem]
    intro j k hj hk hjk i hi hi'
    rw [Array.length_toList] at hj hk
    rw [Array.getElem_toList] at hi hi'
    cases hu : s.tasks[j] with
    | none =>
      rw [hu] at hi
      cases hi
    | some u =>
      cases hv : s.tasks[k] with
      | none =>
        rw [hv] at hi'
        cases hi'
      | some v =>
        rw [hu] at hi
        rw [hv] at hi'
        have hu' := hget (hu ▸ Array.getElem?_eq_getElem hj)
        have hv' := hget (hv ▸ Array.getElem?_eq_getElem hk)
        have := hc.waiters_unique (hknows hu') (hknows hv') hi hi'
        rw [hc.id_eq hu', hc.id_eq hv'] at this
        omega

/-- How the table of tasks and the queue look when no task runs. -/
structure InOrder (s : Scheduler) : Prop where
  table : ∀ i < s.tasks.size, ∃ t, s.get? i = some t ∧ t.id = i ∧ t.state ≠ .running
  queue_nodup : s.ready.Nodup
  queue : ∀ i, i ∈ s.ready ↔ ∃ t, s.get? i = some t ∧ t.state = .ready
  suspended : ∀ i t, s.get? i = some t → t.state = .suspended → s.waiting.count i = 1 ∧
    ∃ j u, s.get? j = some u ∧ i ∈ u.waiters ∧ u.state ≠ .completed
  completed : ∀ i t, s.get? i = some t → t.state = .completed →
    (∃ outcome, t.result = some outcome) ∧ t.frames = [] ∧ t.stack = [] ∧ t.waiters = []

theorem Consistent.inOrder (hc : s.Consistent none) (hs : s.Spent) : s.InOrder where
  table i hi := by
    obtain ⟨t, ht⟩ := Option.isSome_iff_exists.1 <|
      (hc.present hi).resolve_right fun ⟨_, hrun, _⟩ => nomatch hrun
    exact ⟨t, ht, hc.id_eq ht, hc.resting ht⟩
  queue_nodup := hc.ready_nodup
  queue _ := hc.mem_ready
  suspended i t ht hst := by
    obtain ⟨u, hu | hu, hi⟩ := hc.waits ht hst
    · refine ⟨List.count_eq_one_of_mem hc.waiting_nodup (mem_waiting.2 ⟨_, u, hu, hi⟩),
        _, u, hu, hi, fun hcomp => ?_⟩
      rw [(hc.completed hu hcomp).1] at hi
      cases hi
    · cases hu
  completed i t ht hst := by
    obtain ⟨hwaiters, hresult⟩ := hc.completed ht hst
    obtain ⟨hframes, hstack⟩ := hs i t ht hst
    exact ⟨hresult, hframes, hstack, hwaiters⟩

/-! What a step keeps. -/

namespace TableStep

theorem consistent_taken (hc : s.Consistent none) (h : s.next? = some (t, s')) :
    s'.Consistent (some t) := by
  obtain ⟨u, rest, hr, hu, -, rfl, rfl⟩ := hc.next?_some h
  exact hc.take hr hu

/-- The outcome that a task was waiting for is taken from it. -/
theorem consistent_relayed (hc : s.Consistent none) (h : s.next? = some (t, s')) :
    s'.Consistent (some { t with resumeWith := none }) :=
  (consistent_taken hc h).change rfl

theorem consistent_changed (hc : s.Consistent (some t)) (hs : s.Attends s') {t' : Task}
    (ht : t' = { t with frames := t'.frames, stack := t'.stack }) : s'.Consistent (some t') :=
  (hc.attends hs).change (by rw [ht])

theorem consistent (h : TableStep s running resumed queued s' running')
    (hc : s.Consistent running) : s'.Consistent running' := by
  cases h with
  | @takes s' t t' h ht hr =>
    refine (consistent_taken hc h).change ?_
    have hre : t'.resumeWith = none := by rw [ht]
    rw [hre]
    exact ht ▸ rfl
  | relays h hr => exact (consistent_relayed hc h).complete _
  | works ht hs => exact consistent_changed hc hs ht
  | spawns frame ht => exact (hc.spawn frame).change (by rw [ht])
  | yields ht hs => exact (consistent_changed hc hs ht).yield
  | @waits s' t t' target id hid hcomp ht hs =>
    have hid' : t'.id = t.id := by rw [ht]
    subst hs
    rw [← hid']
    exact (consistent_changed hc .same ht).suspend hid hcomp
  | ends outcome ht hs => exact (consistent_changed hc hs ht).complete outcome

/-- The queue is a queue: tasks are resumed at its front and queued up at its end. -/
theorem queue (h : TableStep s running resumed queued s' running') (hc : s.Consistent running) :
    resumed ++ s'.ready = s.ready ++ queued := by
  cases h with
  | takes h ht hr =>
    obtain ⟨u, rest, hready, -, -, rfl, rfl⟩ := hc.next?_some h
    rw [hready, List.append_nil]
    rfl
  | relays h hr =>
    have hc' := consistent_relayed hc h
    obtain ⟨u, rest, hready, -, -, rfl, rfl⟩ := hc.next?_some h
    rw [(hc'.ended _).2.1, hready]
    rfl
  | works ht hs => rw [ready_attends hs, List.nil_append, List.append_nil]
  | spawns frame ht => rfl
  | yields ht hs => rw [ready_putBack, if_pos rfl, ready_attends hs, List.nil_append]
  | waits hid hcomp ht hs =>
    subst hs
    rw [ready_putBack, if_neg nofun, ready_addWaiter, List.nil_append, List.append_nil]
  | ends outcome ht hs =>
    rw [((consistent_changed hc hs ht).ended outcome).2.1, ready_attends hs, List.nil_append]

end TableStep

/-- What the turns of other tasks leave of a task. -/
structure Keeps (t t' : Task) : Prop where
  frames : t'.frames = t.frames
  stack : t'.stack = t.stack
  result : t'.result = t.result
  completed : t.state = .completed → t'.state = .completed

theorem Keeps.refl (t : Task) : Keeps t t := ⟨rfl, rfl, rfl, id⟩

theorem Keeps.trans {t t' t'' : Task} (h : Keeps t t') (h' : Keeps t' t'') : Keeps t t'' :=
  ⟨h'.frames.trans h.frames, h'.stack.trans h.stack, h'.result.trans h.result,
    fun hs => h'.completed (h.completed hs)⟩

theorem keeps_attends (hs : s.Attends s') (h : s.get? i = some u) :
    ∃ u', s'.get? i = some u' ∧ Keeps u u' := by
  cases hs with
  | same => exact ⟨u, h, .refl u⟩
  | observes id =>
    rw [get?_modifyTask, h]
    split
    · exact ⟨_, rfl, rfl, rfl, rfl, fun hs => hs⟩
    · exact ⟨u, rfl, .refl u⟩

/-- A task that ends wakes suspended tasks only, and is not in the table itself. -/
theorem keeps_ended (hc : s.Consistent (some t)) (outcome : Outcome) (h : s.get? i = some u) :
    ∃ u', (s.ended t outcome).get? i = some u' ∧ Keeps u u' := by
  rw [(hc.ended outcome).1, if_neg (hc.ne h), h]
  split
  · rename_i hw
    have hs := hc.suspended_of_mem hw h
    exact ⟨_, rfl, rfl, rfl, rfl, fun hcomp => by rw [hs] at hcomp; cases hcomp⟩
  · exact ⟨u, rfl, .refl u⟩

/-- One step leaves alone what it does not resume. -/
theorem TableStep.others (h : TableStep s running resumed queued s' running')
    (hc : s.Consistent running) (hu : s.get? i = some u) (hi : i ∉ resumed) :
    ∃ u', s'.get? i = some u' ∧ Keeps u u' := by
  -- the running task is not in the table
  have hne : ∀ {t s''}, running = some t → s.Attends s'' → ∀ t' : Task, t'.id = t.id →
      (s''.putBack t').get? i = s''.get? i := by
    rintro t s'' rfl hs t' hid
    rw [get?_putBack, if_neg]
    rintro ⟨rfl, -⟩
    exact hc.ne hu hid
  have htaken : ∀ {t s''}, running = none → s.next? = some (t, s'') → i ∉ [t.id] →
      s''.get? i = some u := by
    rintro t s'' rfl h hi
    obtain ⟨v, rest, -, -, -, rfl, rfl⟩ := hc.next?_some h
    rw [get?_taken, if_neg fun hvi => hi (by simp [hvi]), hu]
  cases h with
  | takes h ht hr => exact ⟨u, htaken rfl h hi, .refl u⟩
  | relays h hr => exact keeps_ended (consistent_relayed hc h) _ (htaken rfl h hi)
  | works ht hs => exact keeps_attends hs hu
  | spawns frame ht =>
    rw [get?_spawn, if_neg (Nat.ne_of_lt (get?_lt_size hu))]
    exact ⟨u, hu, .refl u⟩
  | yields ht hs =>
    rw [hne rfl hs _ (by rw [ht])]
    exact keeps_attends hs hu
  | @waits s' t t' target id hid hcomp ht hs =>
    subst hs
    have hid' : t'.id = t.id := by rw [ht]
    rw [get?_putBack, if_neg fun h => hc.ne hu (h.1.symm.trans hid'), addWaiter,
      get?_modifyTask, hu]
    split
    · exact ⟨_, rfl, rfl, rfl, rfl, fun hs => hs⟩
    · exact ⟨u, rfl, .refl u⟩
  | ends outcome ht hs =>
    obtain ⟨u', hu', hk⟩ := keeps_attends hs hu
    obtain ⟨u'', hu'', hk'⟩ := keeps_ended (consistent_changed hc hs ht) outcome hu'
    exact ⟨u'', hu'', hk.trans hk'⟩

/-- Tasks are never taken off the table for good. -/
theorem TableStep.size_le (h : TableStep s running resumed queued s' running')
    (hc : s.Consistent running) : s.tasks.size ≤ s'.tasks.size := by
  have htaken : ∀ {t s''}, running = none → s.next? = some (t, s'') →
      s''.tasks.size = s.tasks.size := by
    rintro t s'' rfl h
    obtain ⟨v, rest, -, -, -, rfl, rfl⟩ := hc.next?_some h
    exact Array.size_setIfInBounds
  have hattends : ∀ {s''}, s.Attends s'' → s''.tasks.size = s.tasks.size := by
    rintro s'' (_ | id)
    · rfl
    · exact size_modifyTask ..
  cases h with
  | takes h ht hr => exact (htaken rfl h).ge
  | relays h hr =>
    exact (((consistent_relayed hc h).ended _).2.2.trans (htaken rfl h)).ge
  | works ht hs => exact (hattends hs).ge
  | spawns frame ht => exact (size_spawn s frame).symm ▸ Nat.le_succ _
  | yields ht hs => exact ((size_putBack _ _).trans (hattends hs)).ge
  | waits hid hcomp ht hs =>
    exact ((size_putBack _ _).trans (hs ▸ size_modifyTask ..)).ge
  | ends outcome ht hs =>
    exact (((consistent_changed hc hs ht).ended outcome).2.2.trans (hattends hs)).ge

/-- A task that has completed is not resumed. -/
theorem TableStep.not_resumed (h : TableStep s running resumed queued s' running')
    (hc : s.Consistent running) (hu : s.get? i = some u) (hs : u.state = .completed) :
    i ∉ resumed := by
  have hready : ∀ {t s''}, running = none → s.next? = some (t, s'') → i ∉ [t.id] := by
    rintro t s'' rfl h hi
    obtain ⟨v, rest, -, hv, hsv, rfl, rfl⟩ := hc.next?_some h
    rw [List.mem_singleton.1 hi] at hu
    rw [hv] at hu
    cases hu
    rw [hsv] at hs
    cases hs
  cases h with
  | takes h ht hr => exact hready rfl h
  | relays h hr => exact hready rfl h
  | _ => exact List.not_mem_nil

theorem Spent.attends (h : s.Spent) (ha : s.Attends s') : s'.Spent := by
  cases ha with
  | same => exact h
  | observes id =>
    intro i t ht hs
    rw [get?_modifyTask] at ht
    split at ht
    · obtain ⟨u, hu, rfl⟩ := Option.map_eq_some_iff.1 ht
      exact h i u hu hs
    · exact h i t ht hs

theorem Spent.taken (h : s.Spent) (j : Nat) (rest : List Nat) :
    Scheduler.Spent ⟨s.tasks.setIfInBounds j none, rest⟩ := by
  intro i t ht hs
  rw [get?_taken] at ht
  split at ht
  · cases ht
  · exact h i t ht hs

theorem Spent.spawn (h : s.Spent) (frame : Frame) : (s.spawn frame).2.Spent := by
  intro i t ht hs
  rw [get?_spawn] at ht
  split at ht
  · cases ht
    cases hs
  · exact h i t ht hs

theorem Spent.addWaiter (h : s.Spent) (waiter awaited : Nat) :
    (s.addWaiter waiter awaited).Spent := by
  intro i t ht hs
  rw [Scheduler.addWaiter, get?_modifyTask] at ht
  split at ht
  · obtain ⟨u, hu, rfl⟩ := Option.map_eq_some_iff.1 ht
    exact h i u hu hs
  · exact h i t ht hs

theorem Spent.putBack (h : s.Spent) (ht : t.state ≠ .completed) : (s.putBack t).Spent := by
  intro i u hu hs
  rw [get?_putBack] at hu
  split at hu
  · cases hu
    exact absurd hs ht
  · exact h i u hu hs

theorem Spent.ended (h : s.Spent) (hc : s.Consistent (some t)) (outcome : Outcome) :
    (s.ended t outcome).Spent := by
  intro i u hu hs
  rw [(hc.ended outcome).1] at hu
  split at hu
  · cases hu
    exact ⟨rfl, rfl⟩
  · split at hu
    · obtain ⟨v, -, rfl⟩ := Option.map_eq_some_iff.1 hu
      cases hs
    · exact h i u hu hs

theorem TableStep.spent (h : TableStep s running resumed queued s' running')
    (hc : s.Consistent running) (hs : s.Spent) : s'.Spent := by
  cases h with
  | takes h ht hr =>
    obtain ⟨u, rest, -, -, -, rfl, rfl⟩ := hc.next?_some h
    exact hs.taken _ rest
  | relays h hr =>
    have hc' := consistent_relayed hc h
    obtain ⟨u, rest, -, -, -, rfl, rfl⟩ := hc.next?_some h
    exact (hs.taken _ rest).ended hc' _
  | works ht ha => exact hs.attends ha
  | spawns frame ht => exact hs.spawn frame
  | yields ht ha => exact (hs.attends ha).putBack nofun
  | waits hid hcomp ht ha => exact ha ▸ (hs.addWaiter _ _).putBack nofun
  | ends outcome ht ha => exact (hs.attends ha).ended (consistent_changed hc ha ht) outcome

end Scheduler

namespace MachineState

variable {p : Linked} {a b : MachineState}

/-- The state after so many steps, if the run goes on for so long. -/
def after (p : Linked) : (steps : Nat) → MachineState → Option MachineState
  | 0, s => some s
  | steps + 1, s =>
    match step p s with
    | .ok s' => after p steps s'
    | .error _ => none

/-- The tasks that are resumed in so many steps, in order. -/
def resumptions (p : Linked) : (steps : Nat) → MachineState → List Nat
  | 0, _ => []
  | steps + 1, s =>
    match step p s with
    | .ok s' => s.resumed ++ resumptions p steps s'
    | .error _ => []

/-- The tasks that are queued up in so many steps, in order. -/
def queueings (p : Linked) : (steps : Nat) → MachineState → List Nat
  | 0, _ => []
  | steps + 1, s =>
    match step p s with
    | .ok s' => s.queued p ++ queueings p steps s'
    | .error _ => []

/-- The first of so many steps, and the others. -/
theorem after_succ {n : Nat} (h : a.after p (n + 1) = some b) :
    ∃ s, a.step p = .ok s ∧ s.after p n = some b ∧
      a.resumptions p (n + 1) = a.resumed ++ s.resumptions p n ∧
      a.queueings p (n + 1) = a.queued p ++ s.queueings p n := by
  unfold after at h
  split at h
  · rename_i s hs
    refine ⟨s, hs, h, ?_, ?_⟩
    · rw [resumptions, hs]
    · rw [queueings, hs]
  · cases h

/-- The table is consistent with the task that runs, and completed tasks are spent. -/
structure Scheduled (s : MachineState) : Prop where
  consistent : s.machine.scheduler.Consistent s.running
  spent : s.machine.scheduler.Spent

theorem Scheduled.step (h : a.Scheduled) (hs : a.step p = .ok b) : b.Scheduled :=
  ⟨(table_step hs).consistent h.consistent, (table_step hs).spent h.consistent h.spent⟩

theorem Scheduled.after {n : Nat} (h : a.Scheduled) (hb : a.after p n = some b) : b.Scheduled := by
  induction n generalizing a with
  | zero =>
    cases hb
    exact h
  | succ n ih =>
    obtain ⟨s, hs, hb, -, -⟩ := after_succ hb
    exact ih (h.step hs) hb

/-- What was queued at first and since then has been resumed, or is still in the queue. -/
theorem Scheduled.queue {n : Nat} (h : a.Scheduled) (hb : a.after p n = some b) :
    a.resumptions p n ++ b.machine.scheduler.ready =
      a.machine.scheduler.ready ++ a.queueings p n := by
  induction n generalizing a with
  | zero =>
    cases hb
    exact (List.append_nil _).symm
  | succ n ih =>
    obtain ⟨s, hs, hb, hresumed, hqueued⟩ := after_succ hb
    calc a.resumptions p (n + 1) ++ b.machine.scheduler.ready
        = a.resumed ++ (s.resumptions p n ++ b.machine.scheduler.ready) := by
          rw [hresumed, List.append_assoc]
      _ = (a.resumed ++ s.machine.scheduler.ready) ++ s.queueings p n := by
          rw [ih (h.step hs) hb, List.append_assoc]
      _ = (a.machine.scheduler.ready ++ a.queued p) ++ s.queueings p n := by
          rw [(table_step hs).queue h.consistent]
      _ = a.machine.scheduler.ready ++ a.queueings p (n + 1) := by
          rw [hqueued, List.append_assoc]

/-- A step that leaves a task in the table leaves it there. -/
theorem Scheduled.others {n : Nat} (h : a.Scheduled) (hb : a.after p n = some b)
    {i : Nat} {t : Task} (ht : a.machine.scheduler.get? i = some t) (hi : i ∉ a.resumptions p n) :
    ∃ t', b.machine.scheduler.get? i = some t' ∧ Scheduler.Keeps t t' := by
  induction n generalizing a t with
  | zero =>
    cases hb
    exact ⟨t, ht, .refl t⟩
  | succ n ih =>
    obtain ⟨s, hs, hb, hresumed, -⟩ := after_succ hb
    rw [hresumed, List.mem_append, not_or] at hi
    obtain ⟨u, hu, hk⟩ := (table_step hs).others h.consistent ht hi.1
    obtain ⟨t', ht', hk'⟩ := ih (h.step hs) hb hu hi.2
    exact ⟨t', ht', hk.trans hk'⟩

theorem Scheduled.size_le {n : Nat} (h : a.Scheduled) (hb : a.after p n = some b) :
    a.machine.scheduler.tasks.size ≤ b.machine.scheduler.tasks.size := by
  induction n generalizing a with
  | zero =>
    cases hb
    exact Nat.le_refl _
  | succ n ih =>
    obtain ⟨s, hs, hb, -, -⟩ := after_succ hb
    exact ((table_step hs).size_le h.consistent).trans (ih (h.step hs) hb)

theorem Scheduled.completed {n : Nat} (h : a.Scheduled) (hb : a.after p n = some b) {i : Nat}
    {t : Task} (ht : a.machine.scheduler.get? i = some t) (hs : t.state = .completed) :
    i ∉ a.resumptions p n := by
  induction n generalizing a t with
  | zero => exact List.not_mem_nil
  | succ n ih =>
    obtain ⟨s, hstep, hb, hresumed, -⟩ := after_succ hb
    have hi := (table_step hstep).not_resumed h.consistent ht hs
    obtain ⟨u, hu, hk⟩ := (table_step hstep).others h.consistent ht hi
    rw [hresumed, List.mem_append, not_or]
    exact ⟨hi, ih (h.step hstep) hb hu (hk.completed hs)⟩

end MachineState

namespace Linked

variable {p : Linked}

theorem scheduled_startState (m : Machine) (frame : Frame) : (startState m frame).Scheduled where
  consistent := Scheduler.consistent_start frame
  spent := by
    refine Scheduler.Spent.spawn ?_ frame
    intro i t ht
    cases ht

/-- Whenever no task runs, the table and the queue are in order; tasks have been resumed in the
order in which they were queued up, and those that wait for their turn are the rest; a task that has
completed keeps its result for good; and tasks that are not resumed stay as they are. -/
theorem scheduling_consistent (start : Machine) (frame : Frame) {n : Nat} {m : Machine}
    (hm : (startState start frame).after p n = some (.idle m)) :
    m.scheduler.InOrder ∧
    (startState start frame).resumptions p n ++ m.scheduler.ready =
      0 :: (startState start frame).queueings p n ∧
    ∀ k m', (MachineState.idle m).after p k = some (.idle m') →
      ∀ i t, m.scheduler.get? i = some t → ∃ t', m'.scheduler.get? i = some t' ∧
        (t.state = .completed → t'.state = .completed ∧ t'.result = t.result) ∧
        (i ∉ (MachineState.idle m).resumptions p k →
          t'.frames = t.frames ∧ t'.stack = t.stack ∧ t'.result = t.result) := by
  have hs := scheduled_startState start frame
  have hidle := hs.after hm
  refine ⟨hidle.consistent.inOrder hidle.spent, hs.queue hm, fun k m' hm' i t ht => ?_⟩
  by_cases hi : i ∈ (MachineState.idle m).resumptions p k
  · have hlt := (Scheduler.get?_lt_size ht).trans_le (hidle.size_le hm')
    obtain ⟨t', ht', -⟩ :=
      ((hidle.after hm').consistent.inOrder (hidle.after hm').spent).table i hlt
    exact ⟨t', ht', fun hst => absurd hi (hidle.completed hm' ht hst), fun hn => absurd hi hn⟩
  · obtain ⟨t', ht', hk⟩ := hidle.others hm' ht hi
    exact ⟨t', ht', fun hst => ⟨hk.completed hst, hk.result⟩,
      fun _ => ⟨hk.frames, hk.stack, hk.result⟩⟩

/-- The child has been started, and the main task waits for it. -/
theorem awaitsChild_scheduled :
    let p : Linked := ⟨awaitsChild, #[Builtin.print], .default⟩
    let frame : Frame := ⟨0, 0, ⟨#[], [[]]⟩, [], 0, false⟩
    p.entry "main" = .ok frame ∧ ∃ m, (startState .empty frame).after p 4 = some (.idle m) ∧
      m.scheduler.InOrder ∧
      (startState .empty frame).resumptions p 4 ++ m.scheduler.ready = [0, 1] := by
  intro p frame
  have hm : ∃ m, (startState .empty frame).after p 4 = some (.idle m) := ⟨_, rfl⟩
  obtain ⟨m, hm⟩ := hm
  obtain ⟨hinOrder, hqueue, -⟩ := scheduling_consistent .empty frame hm
  exact ⟨by cbv, m, hm, hinOrder, hqueue⟩

end Linked

end ScopedScript
