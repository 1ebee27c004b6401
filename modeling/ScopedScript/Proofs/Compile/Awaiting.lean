import ScopedScript.Proofs.Compile.Heights
import ScopedScript.Proofs.Machine.Scheduling

/-!
# Awaiting

A task that awaits another one gets its outcome: at once if the other one has completed, and else
when it does. Either way the awaiting task goes on as it was left, with the value on its stack, or
fails with the very same fault.
-/

namespace ScopedScript

namespace Scheduler

variable {s s' : Scheduler} {t t' : Task} {running running' : Option Task}
  {resumed queued : List Nat} {a u : Nat} {outcome : Outcome}

/-- The task has completed with this outcome, and some task has asked for it. -/
def Delivers (s : Scheduler) (u : Nat) (outcome : Outcome) : Prop :=
  ∃ target, s.get? u = some target ∧ target.state = .completed ∧ target.result = some outcome ∧
    target.observed = true

/-- The task `a` waits for the outcome of the task `u`, or has been handed it and waits for its
turn. -/
def Awaits (s : Scheduler) (running : Option Task) (a u : Nat) : Prop :=
  ∃ t, s.get? a = some t ∧
    (t.state = .suspended ∧
      (∃ target, s.Knows running target ∧ target.id = u ∧ a ∈ target.waiters) ∨
      t.state = .ready ∧ ∃ outcome, t.resumeWith = some outcome ∧ s.Delivers u outcome)

/-- The place of a task in the table while it runs. -/
def Absent (s : Scheduler) (t : Task) : Prop := t.id < s.tasks.size ∧ s.get? t.id = none

theorem Consistent.absent (hc : s.Consistent (some t)) : s.Absent t :=
  ⟨(hc.runs rfl).1, (hc.runs rfl).2.1⟩

theorem Absent.ne {i : Nat} (h : s.Absent t) (ht' : s.get? i = some t') : i ≠ t.id := by
  rintro rfl
  rw [h.2] at ht'
  cases ht'

theorem Absent.get?_putBack (h : s.Absent t) (hid : t'.id = t.id) (i : Nat) :
    (s.putBack t').get? i = if i = t.id then some t' else s.get? i := by
  rw [Scheduler.get?_putBack]
  grind [h.1]

theorem Absent.addWaiter (h : s.Absent t) (waiter awaited : Nat) :
    (s.addWaiter waiter awaited).Absent t := by
  refine ⟨(size_modifyTask ..).symm ▸ h.1, ?_⟩
  rw [Scheduler.addWaiter, get?_modifyTask, h.2]
  split <;> rfl

/-! What has been delivered stays. -/

theorem Delivers.of_get? (h : s.Delivers u outcome) (hg : s'.get? u = s.get? u) :
    s'.Delivers u outcome := by
  obtain ⟨target, ht, hrest⟩ := h
  exact ⟨target, hg.trans ht, hrest⟩

theorem Delivers.attends (h : s.Delivers u outcome) (ha : s.Attends s') :
    s'.Delivers u outcome := by
  cases ha with
  | same => exact h
  | observes id =>
    obtain ⟨target, ht, hs, hr, ho⟩ := h
    rw [Delivers, get?_modifyTask, ht]
    split
    · exact ⟨_, rfl, hs, hr, rfl⟩
    · exact ⟨_, rfl, hs, hr, ho⟩

theorem Delivers.stopped (h : s.Delivers u outcome) (hout : s.Absent t) (hid : t'.id = t.id) :
    (s.putBack t').Delivers u outcome := by
  obtain ⟨target, ht, -⟩ := id h
  exact h.of_get? ((hout.get?_putBack hid u).trans (if_neg (hout.ne ht)))

/-- A task that has completed waits for nothing. -/
theorem Delivers.ended (hc : s.Consistent (some t)) (h : s.Delivers u outcome) (o : Outcome) :
    (s.ended t o).Delivers u outcome := by
  obtain ⟨target, ht, hcomp, -⟩ := id h
  refine h.of_get? (((hc.ended o).1 u).trans ?_)
  rw [if_neg (hc.absent.ne ht), if_neg]
  intro hw
  rw [hc.suspended_of_mem hw ht] at hcomp
  cases hcomp

theorem Delivers.taken (hc : s.Consistent none) (hn : s.next? = some (t, s'))
    (h : s.Delivers u outcome) : s'.Delivers u outcome := by
  obtain ⟨w, rest, -, hw, hready, rfl, rfl⟩ := hc.next?_some hn
  obtain ⟨target, ht, hcomp, -⟩ := id h
  refine h.of_get? ((get?_taken s w.id rest u).trans (if_neg ?_))
  rintro rfl
  rw [hw] at ht
  cases ht
  rw [hready] at hcomp
  cases hcomp

theorem Delivers.spawn (h : s.Delivers u outcome) (frame : Frame) :
    (s.spawn frame).2.Delivers u outcome := by
  obtain ⟨target, ht, -⟩ := id h
  exact h.of_get? ((get?_spawn s frame u).trans (if_neg (Nat.ne_of_lt (get?_lt_size ht))))

theorem Delivers.addWaiter (h : s.Delivers u outcome) (waiter awaited : Nat) :
    (s.addWaiter waiter awaited).Delivers u outcome := by
  obtain ⟨target, ht, hs, hr, ho⟩ := h
  rw [Delivers, Scheduler.addWaiter, get?_modifyTask, ht]
  split
  · exact ⟨_, rfl, hs, hr, ho⟩
  · exact ⟨_, rfl, hs, hr, ho⟩

namespace Awaits

theorem attends (h : s.Awaits running a u) (ha : s.Attends s') : s'.Awaits running a u := by
  cases ha with
  | same => exact h
  | observes id =>
    obtain ⟨t, ht, hrest⟩ := h
    have hget : ∀ {i t}, s.get? i = some t → ∃ t', (s.modifyTask id fun t =>
        { t with observed := true }).get? i = some t' ∧ t'.id = t.id ∧ t'.state = t.state ∧
        t'.waiters = t.waiters ∧ t'.resumeWith = t.resumeWith := by
      intro i t ht
      rw [get?_modifyTask, ht]
      split <;> exact ⟨_, rfl, rfl, rfl, rfl, rfl⟩
    obtain ⟨t', ht', -, hs', -, hre'⟩ := hget ht
    refine ⟨t', ht', ?_⟩
    rw [hs', hre']
    rcases hrest with ⟨hs, target, hk | hk, hid, hw⟩ | ⟨hs, outcome, hre, hd⟩
    · obtain ⟨target', hk', hid', -, hw', -⟩ := hget hk
      exact .inl ⟨hs, target', .inl (hid' ▸ hk'), hid' ▸ hid, hw' ▸ hw⟩
    · exact .inl ⟨hs, target, .inr hk, hid, hw⟩
    · exact .inr ⟨hs, outcome, hre, hd.attends (.observes id)⟩

/-- What matters of the running task are its number and who waits for it. -/
theorem change (h : s.Awaits (some t) a u) (hid : t'.id = t.id) (hw : t'.waiters = t.waiters) :
    s.Awaits (some t') a u := by
  obtain ⟨v, hv, ⟨hs, target, hk | hk, htarget⟩ | hready⟩ := h
  · exact ⟨v, hv, .inl ⟨hs, target, .inl hk, htarget⟩⟩
  · cases hk
    exact ⟨v, hv, .inl ⟨hs, t', .inr rfl, hid ▸ hw ▸ htarget⟩⟩
  · exact ⟨v, hv, .inr hready⟩

theorem taken (hc : s.Consistent none) (hn : s.next? = some (t, s')) (h : s.Awaits none a u)
    (ha : a ≠ t.id) : s'.Awaits (some t) a u := by
  have hd {outcome : Outcome} (h : s.Delivers u outcome) : s'.Delivers u outcome := h.taken hc hn
  obtain ⟨w, rest, -, hw, hready, rfl, rfl⟩ := hc.next?_some hn
  have hget : ∀ {i}, i ≠ w.id →
      Scheduler.get? ⟨s.tasks.setIfInBounds w.id none, rest⟩ i = s.get? i := fun hi => by
    rw [get?_taken, if_neg (Ne.symm hi)]
  obtain ⟨v, hv, ⟨hs, target, hk | hk, hid, ha'⟩ | ⟨hs, outcome, hre, h⟩⟩ := h
  · refine ⟨v, (hget ha).trans hv, .inl ⟨hs, ?_⟩⟩
    by_cases hi : target.id = w.id
    · rw [hi, hw] at hk
      cases hk
      exact ⟨_, .inr rfl, hid, ha'⟩
    · exact ⟨target, .inl ((hget hi).trans hk), hid, ha'⟩
  · cases hk
  · exact ⟨v, (hget ha).trans hv, .inr ⟨hs, outcome, hre, hd h⟩⟩

theorem spawn (h : s.Awaits (some t) a u) (frame : Frame) :
    (s.spawn frame).2.Awaits (some t) a u := by
  have hget : ∀ {i v}, s.get? i = some v → (s.spawn frame).2.get? i = some v := fun hv => by
    rw [get?_spawn, if_neg (Nat.ne_of_lt (get?_lt_size hv)), hv]
  obtain ⟨v, hv, ⟨hs, target, hk, htarget⟩ | ⟨hs, outcome, hre, hd⟩⟩ := h
  · exact ⟨v, hget hv, .inl ⟨hs, target, hk.imp_left hget, htarget⟩⟩
  · exact ⟨v, hget hv, .inr ⟨hs, outcome, hre, hd.spawn frame⟩⟩

/-- The running task is put back, ready or suspended. -/
theorem stopped (h : s.Awaits (some t) a u) (hout : s.Absent t) (hid : t'.id = t.id)
    (hw : t'.waiters = t.waiters) : (s.putBack t').Awaits none a u := by
  have hget : ∀ {i v}, s.get? i = some v → (s.putBack t').get? i = some v := fun hv =>
    (hout.get?_putBack hid _).trans ((if_neg (hout.ne hv)).trans hv)
  obtain ⟨v, hv, ⟨hs, target, hk | hk, htarget⟩ | ⟨hs, outcome, hre, hd⟩⟩ := h
  · exact ⟨v, hget hv, .inl ⟨hs, target, .inl (hget hk), htarget⟩⟩
  · cases hk
    refine ⟨v, hget hv, .inl ⟨hs, t', .inl ?_, hid ▸ hw ▸ htarget⟩⟩
    rw [hout.get?_putBack hid, if_pos hid]
  · exact ⟨v, hget hv, .inr ⟨hs, outcome, hre, hd.stopped hout hid⟩⟩

theorem addWaiter (h : s.Awaits running a u) (waiter awaited : Nat) :
    (s.addWaiter waiter awaited).Awaits running a u := by
  have hget : ∀ {i t}, s.get? i = some t → ∃ t', (s.addWaiter waiter awaited).get? i = some t' ∧
      t'.id = t.id ∧ t'.state = t.state ∧ t.waiters ⊆ t'.waiters ∧
      t'.resumeWith = t.resumeWith := by
    intro i t ht
    rw [Scheduler.addWaiter, get?_modifyTask, ht]
    split
    · exact ⟨_, rfl, rfl, rfl, List.subset_append_left _ _, rfl⟩
    · exact ⟨_, rfl, rfl, rfl, List.Subset.refl _, rfl⟩
  obtain ⟨t, ht, hrest⟩ := h
  obtain ⟨t', ht', -, hs', -, hre'⟩ := hget ht
  refine ⟨t', ht', ?_⟩
  rw [hs', hre']
  rcases hrest with ⟨hs, target, hk | hk, hid, hw⟩ | ⟨hs, outcome, hre, hd⟩
  · obtain ⟨target', hk', hid', -, hw', -⟩ := hget hk
    exact .inl ⟨hs, target', .inl (hid' ▸ hk'), hid' ▸ hid, hw' hw⟩
  · exact .inl ⟨hs, target, .inr hk, hid, hw⟩
  · exact .inr ⟨hs, outcome, hre, hd.addWaiter _ _⟩

/-- When the awaited task ends, its outcome is handed on. -/
theorem ended (hc : s.Consistent (some t)) (h : s.Awaits (some t) a u) (o : Outcome) :
    (s.ended t o).Awaits none a u := by
  have hget := (hc.ended o).1
  obtain ⟨v, hv, h⟩ := h
  have hne := hc.absent.ne hv
  obtain ⟨hs, target, hk, hid, hw⟩ | ⟨hs, outcome, hre, hd⟩ := h
  · by_cases hat : a ∈ t.waiters
    · have htid : target.id = t.id := hc.waiters_unique hk (.inr rfl) hw hat
      refine ⟨woken o v, ?_, .inr ⟨rfl, o, rfl, (s.complete t o).1, ?_, rfl, rfl, ?_⟩⟩
      · rw [hget, if_neg hne, if_pos hat, hv, Option.map_some]
      · rw [hget, if_pos (hid.symm.trans htid)]
      · have hempty : t.waiters.isEmpty = false := by
          cases hwt : t.waiters with
          | nil =>
            rw [hwt] at hat
            cases hat
          | cons => rfl
        simp [Scheduler.complete, hempty]
    · have hk' : s.get? target.id = some target := hk.resolve_right fun ht => by
        cases ht
        exact hat hw
      refine ⟨v, ?_, .inl ⟨hs, ?_⟩⟩
      · rw [hget, if_neg hne, if_neg hat, hv]
      · have hne' := hc.absent.ne hk'
        by_cases htw : target.id ∈ t.waiters
        · refine ⟨woken o target, .inl ?_, hid, hw⟩
          exact (hget target.id).trans ((if_neg hne').trans ((if_pos htw).trans (by rw [hk']; rfl)))
        · exact ⟨target, .inl ((hget _).trans ((if_neg hne').trans ((if_neg htw).trans hk'))),
            hid, hw⟩
  · have hat : a ∉ t.waiters := fun hat => by
      rw [hc.suspended_of_mem hat hv] at hs
      cases hs
    refine ⟨v, ?_, .inr ⟨hs, outcome, hre, hd.ended hc o⟩⟩
    rw [hget, if_neg hne, if_neg hat, hv]

/-- One step of other tasks. -/
theorem tableStep (hs : TableStep s running resumed queued s' running')
    (hc : s.Consistent running) (h : s.Awaits running a u) (ha : a ∉ resumed) :
    s'.Awaits running' a u := by
  cases hs with
  | takes hn ht hr => exact (h.taken hc hn (by simpa using ha)).change (by rw [ht]) (by rw [ht])
  | @relays s' t f hn hr =>
    have hrelayed : s'.Awaits (some { t with resumeWith := none }) a u :=
      (h.taken hc hn (by simpa using ha)).change rfl rfl
    exact hrelayed.ended (TableStep.consistent_relayed hc hn) _
  | works ht hs => exact (h.attends hs).change (by rw [ht]) (by rw [ht])
  | spawns frame ht => exact (h.spawn frame).change (by rw [ht]) (by rw [ht])
  | yields ht hs =>
    exact (h.attends hs).stopped (hc.attends hs).absent (by rw [ht]) (by rw [ht])
  | waits hid hcomp ht hs =>
    subst hs
    exact (h.addWaiter _ _).stopped (hc.absent.addWaiter _ _) (by rw [ht]) (by rw [ht])
  | ends outcome ht hs =>
    exact ((h.attends hs).change (by rw [ht]) (by rw [ht])).ended
      (TableStep.consistent_changed hc hs ht) outcome

end Awaits

/-- A task that has completed keeps its outcome. -/
theorem Delivers.tableStep (hs : TableStep s running resumed queued s' running')
    (hc : s.Consistent running) (h : s.Delivers u outcome) : s'.Delivers u outcome := by
  cases hs with
  | takes hn ht hr => exact h.taken hc hn
  | relays hn hr => exact (h.taken hc hn).ended (TableStep.consistent_relayed hc hn) _
  | works ht hs => exact h.attends hs
  | spawns frame ht => exact h.spawn frame
  | yields ht hs => exact (h.attends hs).stopped (hc.attends hs).absent (by rw [ht])
  | waits hid hcomp ht hs =>
    subst hs
    exact (h.addWaiter _ _).stopped (hc.absent.addWaiter _ _) (by rw [ht])
  | ends outcome ht hs =>
    exact (h.attends hs).ended (TableStep.consistent_changed hc hs ht) outcome

end Scheduler

/-- A task that can go on has frames, and its faults have been blamed on instructions. -/
structure Task.Blames (t : Task) : Prop where
  frames : t.state ≠ .completed → t.frames ≠ []
  faults : ∀ f, t.resumeWith = some (.error f) ∨ t.result = some (.error f) →
    f.function.isSome = true

namespace Scheduler

variable {s s' : Scheduler} {t : Task}

def Blames (s : Scheduler) : Prop := ∀ i t, s.get? i = some t → t.Blames

theorem Blames.modifyTask (h : s.Blames) (id : Nat) {f : Task → Task}
    (hf : ∀ t, t.Blames → (f t).Blames) : (s.modifyTask id f).Blames := by
  intro i t ht
  rw [get?_modifyTask] at ht
  split at ht
  · obtain ⟨u, hu, rfl⟩ := Option.map_eq_some_iff.1 ht
    exact hf u (h i u hu)
  · exact h i t ht

theorem Blames.attends (h : s.Blames) (ha : s.Attends s') : s'.Blames := by
  cases ha with
  | same => exact h
  | observes id => exact h.modifyTask id fun _ ht => ⟨ht.frames, ht.faults⟩

theorem Blames.addWaiter (h : s.Blames) (waiter awaited : Nat) :
    (s.addWaiter waiter awaited).Blames :=
  h.modifyTask awaited fun _ ht => ⟨ht.frames, ht.faults⟩

theorem Blames.spawn (h : s.Blames) (frame : Frame) : (s.spawn frame).2.Blames := by
  intro i t ht
  rw [get?_spawn] at ht
  split at ht
  · cases ht
    refine ⟨fun _ => List.cons_ne_nil _ _, ?_⟩
    rintro f (h | h) <;> cases h
  · exact h i t ht

theorem Blames.putBack (h : s.Blames) (ht : t.Blames) : (s.putBack t).Blames := by
  intro i u hu
  rw [get?_putBack] at hu
  split at hu
  · cases hu
    exact ht
  · exact h i u hu

theorem Blames.ended (h : s.Blames) (hc : s.Consistent (some t)) (ht : t.resumeWith = none)
    {outcome : Outcome} (ho : ∀ f, outcome = .error f → f.function.isSome = true) :
    (s.ended t outcome).Blames := by
  have hf : ∀ f, some outcome = some (.error f) → f.function.isSome = true := fun f hf =>
    ho f (Option.some.inj hf)
  intro i u hu
  rw [(hc.ended outcome).1] at hu
  split at hu
  · cases hu
    refine ⟨fun hs => absurd rfl hs, fun f hfault => ?_⟩
    rcases hfault with hfault | hfault
    · cases ht.symm.trans hfault
    · exact hf f hfault
  · split at hu
    · rename_i hw
      obtain ⟨v, hv, rfl⟩ := Option.map_eq_some_iff.1 hu
      have hs := hc.suspended_of_mem hw hv
      refine ⟨fun _ => (h i v hv).frames (by rw [hs]; decide), fun f hfault => ?_⟩
      rcases hfault with hfault | hfault
      · exact hf f hfault
      · exact (h i v hv).faults f (.inr hfault)
    · exact h i u hu

end Scheduler

/-- A fault that is blamed already stays as it is. -/
theorem Fault.located_of_isSome {f : Fault} (h : f.function.isSome = true) (span : Option Span)
    (name : String) : f.located span name = f := by
  unfold located
  split
  · rename_i hn
    rw [hn] at h
    cases h
  · rfl

theorem Fault.isSome_located (f : Fault) (span : Option Span) (name : String) :
    (f.located span name).function.isSome = true := by
  unfold located
  split
  · rfl
  · rename_i h
    rw [h]
    rfl

/-- Why the running task cannot await a task that is not in the table. -/
def Running.refusal (s : Running) (u : Nat) : Malformed :=
  if u = s.task.id then .awaitsItself else .noTask u

namespace Exec

variable {x : Exec Flow} {s s' : Running} {g : Trap → Trap}

theorem adaptExcept_ok {flow : Flow} (h : x s = .ok flow s') :
    EStateM.adaptExcept g x s = .ok flow s' := by rw [EStateM.adaptExcept, h]

theorem adaptExcept_error {t : Trap} (h : x s = .error t s') :
    EStateM.adaptExcept g x s = .error (g t) s' := by rw [EStateM.adaptExcept, h]

variable {p : Linked} {f : FunctionCode} {v : Value} {rest : List Value} {u : Nat} {target : Task}

theorem step_await_value {w : Value} (hstack : s.task.stack = v :: rest)
    (hv : v.unboxed = .task u) (hne : u ≠ s.task.id) (ht : s.scheduler.get? u = some target)
    (hdone : target.isCompleted = true) (hr : target.result = some (.ok w)) :
    ∃ s', step p f .await s = .ok .goOn s' ∧
      s'.scheduler = s.scheduler.modifyTask u (fun t => { t with observed := true }) ∧
      s'.task = { s.task with stack := w :: rest } := by
  rw [step_await hstack, hv]
  dsimp only
  rw [if_neg hne, ht]
  dsimp only
  rw [if_pos hdone, hr]
  exact ⟨_, rfl, rfl, rfl⟩

theorem step_await_fault {g : Fault} (hstack : s.task.stack = v :: rest)
    (hv : v.unboxed = .task u) (hne : u ≠ s.task.id) (ht : s.scheduler.get? u = some target)
    (hdone : target.isCompleted = true) (hr : target.result = some (.error g)) :
    ∃ s', step p f .await s = .error (.fault g) s' ∧
      s'.scheduler = s.scheduler.modifyTask u (fun t => { t with observed := true }) ∧
      s'.task = { s.task with stack := rest } := by
  rw [step_await hstack, hv]
  dsimp only
  rw [if_neg hne, ht]
  dsimp only
  rw [if_pos hdone, hr]
  exact ⟨_, rfl, rfl, rfl⟩

theorem step_await_open (hstack : s.task.stack = v :: rest) (hv : v.unboxed = .task u)
    (hne : u ≠ s.task.id) (ht : s.scheduler.get? u = some target)
    (hdone : target.isCompleted = false) :
    ∃ s', step p f .await s = .ok .suspended s' ∧
      s'.scheduler = s.scheduler.addWaiter s.task.id u ∧
      s'.task = { s.task with stack := rest } := by
  rw [step_await hstack, hv]
  dsimp only
  rw [if_neg hne, ht]
  dsimp only
  rw [if_neg (by rw [hdone]; exact Bool.false_ne_true)]
  exact ⟨_, rfl, rfl, rfl⟩

/-- There is no task to be awaited. -/
theorem step_await_none (hstack : s.task.stack = v :: rest) (hv : v.unboxed = .task u)
    (h : u = s.task.id ∨ s.scheduler.get? u = none) :
    ∃ s', step p f .await s = .error (.fault (.of (.malformed (s.refusal u)))) s' ∧
      s'.scheduler = s.scheduler ∧ s'.task = { s.task with stack := rest } := by
  rw [step_await hstack, hv, Running.refusal]
  dsimp only
  by_cases hself : u = s.task.id
  · rw [if_pos hself, if_pos hself]
    exact ⟨_, rfl, rfl, rfl⟩
  · rw [if_neg hself, if_neg hself, h.resolve_left hself]
    exact ⟨_, rfl, rfl, rfl⟩

end Exec

namespace MachineState

variable {p : Linked} {a b : MachineState} {s : Running}

/-- Whatever the task that runs has come to, it is blamed on instructions. -/
structure Blames (s : MachineState) : Prop where
  table : s.machine.scheduler.Blames
  running : ∀ t, s.running = some t → t.Blames ∧ t.resumeWith = none

theorem Blames.of_idle {m : Machine} (h : m.scheduler.Blames) : (idle m).Blames := by
  refine ⟨h, fun t ht => ?_⟩
  cases ht

/-- What an instruction comes to, when its task goes on or fails. -/
def BlamesAfter : EStateM.Result Trap Running Flow → Prop
  | .ok (.finished _) _ | .error (.lost _) _ => True
  | .ok _ s => s.task.frames ≠ []
  | .error (.fault f) _ => f.function.isSome = true

theorem blames_next (hp : ∀ (id : Nat) (f : FunctionCode),
    p.module.functions[id]? = some f → f.Disciplined) (hl : (busy s).Levelled p)
    (hs : s.task.frames ≠ []) : BlamesAfter (Exec.next p s) := by
  obtain ⟨fr, callers, hfr⟩ := List.exists_cons_of_ne_nil hs
  obtain ⟨⟨f, l, i, hat⟩, -⟩ := hl.poised hp hfr
  have hw := works_next hp hl hfr hat
  cases hn : Exec.next p s with
  | ok flow s' =>
    rw [hn] at hw
    have frames {own : List Frame} (h : s'.task.frames = own) (hown : own ≠ []) :
        s'.task.frames ≠ [] := h ▸ hown
    cases hw with
    | goes hflow _ _ _ _ h _ =>
      have := frames (congrArg Task.frames h) (List.cons_ne_nil _ _)
      rcases hflow with rfl | rfl <;> exact this
    | spawns _ _ _ h _ | waits _ _ _ _ h _ | enters _ _ h _ =>
      exact frames (congrArg Task.frames h) (List.cons_ne_nil _ _)
    | returns hc h _ => exact frames (congrArg Task.frames h) hc
    | finishes _ _ _ => trivial
  | error t s' =>
    rw [Exec.next_apply hfr hat.code hat.instr] at hn
    cases hx : Exec.step p f i (s.withFrames ({ fr with ip := fr.ip + 1 } :: callers)) with
    | ok flow s'' =>
      rw [Exec.adaptExcept_ok hx] at hn
      cases hn
    | error t' s'' =>
      rw [Exec.adaptExcept_error hx] at hn
      cases hn
      cases t' with
      | fault f => exact f.isSome_located ..
      | lost type => trivial

theorem blames_step (hp : ∀ (id : Nat) (f : FunctionCode),
    p.module.functions[id]? = some f → f.Disciplined) (hl : a.Levelled p) (hsch : a.Scheduled)
    (h : a.Blames) (hs : a.step p = .ok b) : b.Blames := by
  obtain ⟨htable, hrunning⟩ := h
  have hc := hsch.consistent
  cases a with
  | idle m =>
    rw [step, takeTurn] at hs
    split at hs
    · cases hs
    · rename_i t s' hn
      dsimp only at hs
      have hct := Scheduler.TableStep.consistent_relayed hc hn
      obtain ⟨u, rest, -, hu, hready, rfl, rfl⟩ := Scheduler.Consistent.next?_some hc hn
      have hb := htable _ u hu
      have htaken : Scheduler.Blames ⟨m.scheduler.tasks.setIfInBounds u.id none, rest⟩ := by
        intro i v hv
        rw [Scheduler.get?_taken] at hv
        split at hv
        · cases hv
        · exact htable i v hv
      have hframes : u.frames ≠ [] := hb.frames (by rw [hready]; decide)
      split at hs <;> rename_i hre <;> cases hs
      · refine ⟨htaken, ?_⟩
        rintro _ ⟨⟩
        exact ⟨⟨fun _ => hframes, hb.faults⟩, hre⟩
      · refine ⟨htaken, ?_⟩
        rintro _ ⟨⟩
        refine ⟨⟨fun _ => hframes,
          fun f hf => hb.faults f (.inr (hf.resolve_left fun h => ?_))⟩, rfl⟩
        cases h
      · rename_i f
        refine .of_idle ?_
        rw [Running.scheduler_failWith]
        exact htaken.ended hct rfl fun g hg => by
          cases hg
          exact hb.faults f (.inl hre)
  | busy s =>
    obtain ⟨hown, hre⟩ := hrunning s.task rfl
    have hrun : s.task.state = .running := (hc.runs rfl).2.2
    have hframes : s.task.frames ≠ [] := hown.frames (by rw [hrun]; decide)
    have hafter := blames_next hp hl hframes
    have ht := Exec.tends_next p s
    rw [step] at hs
    -- the task as it is when it has done its work
    have hkept {t' : Task} (ht : t' = { s.task with frames := t'.frames, stack := t'.stack }) :
        t'.resumeWith = none ∧ ∀ (state : TaskState), t'.frames ≠ [] →
          ({ t' with state } : Task).Blames := by
      have hr : t'.resumeWith = s.task.resumeWith := by rw [ht]
      have hres : t'.result = s.task.result := by rw [ht]
      refine ⟨hr.trans hre, fun _ hf => ⟨fun _ => hf, ?_⟩⟩
      dsimp only
      rw [hr, hres]
      exact hown.faults
    have hends {t' : Task} {s' : Scheduler} {o : Outcome} (ha : s.scheduler.Attends s')
        (ht : t' = { s.task with frames := t'.frames, stack := t'.stack })
        (ho : ∀ f, o = .error f → f.function.isSome = true) : (s'.ended t' o).Blames :=
      (Scheduler.Blames.attends htable ha).ended (Scheduler.TableStep.consistent_changed hc ha ht)
        (hkept ht).1 ho
    cases hr : Exec.next p s with
    | ok flow s' =>
      rw [hr] at hs ht hafter
      have hrunning {s' : Running} (ht : s'.task =
          { s.task with frames := s'.task.frames, stack := s'.task.stack })
          (hf : s'.task.frames ≠ []) : ∀ t, (busy s').running = some t →
            t.Blames ∧ t.resumeWith = none := by
        rintro _ ⟨⟩
        exact ⟨(hkept ht).2 s'.task.state hf, (hkept ht).1⟩
      cases ht with
      | alone hflow ht ha =>
        cases flow with
        | goOn =>
          cases hs
          exact ⟨Scheduler.Blames.attends htable ha, hrunning ht hafter⟩
        | finished v =>
          cases hs
          refine .of_idle (hends ha ht fun f hf => ?_)
          cases hf
        | yielded =>
          cases hs
          exact .of_idle
            ((Scheduler.Blames.attends htable ha).putBack ((hkept ht).2 .ready hafter))
        | suspended => exact absurd rfl hflow
      | spawns ht ha =>
        cases hs
        exact ⟨by rw [machine, ha]; exact Scheduler.Blames.spawn htable _, hrunning ht hafter⟩
      | waits hid hcomp ht ha =>
        cases hs
        refine .of_idle (Scheduler.Blames.putBack ?_ ((hkept ht).2 .suspended hafter))
        rw [ha]
        exact Scheduler.Blames.addWaiter htable _ _
    | error t s' =>
      rw [hr] at hs ht hafter
      cases t with
      | lost type => cases hs
      | fault f =>
        cases hs
        cases ht with
        | trapped ht ha =>
          refine .of_idle ?_
          rw [Running.scheduler_failWith]
          exact hends ha ht fun g hg => by
            cases hg
            exact hafter

/-! Awaiting a task. -/

/-- The awaited task `u` came to this outcome, for good, and the task `a` that awaited it has got
it: it goes on in these frames with the value on top of these operands, or it has failed with the
fault. -/
structure Delivered (p : Linked) (b : MachineState) (a u : Nat) (frames : List Frame)
    (stack : List Value) (outcome : Outcome) : Prop where
  awaiter :
    match outcome with
    | .ok v => ∃ s, b = busy s ∧ s.task.id = a ∧ s.task.frames = frames ∧ s.task.stack = v :: stack
    | .error f => ∃ m t, b = idle m ∧ m.scheduler.get? a = some t ∧ t.state = .completed ∧
      t.result = some (.error f)
  final : ∀ k c, b.after p k = some c → c.machine.scheduler.Delivers u outcome

/-- Of two states of one run, one comes after the other. -/
theorem Reaches.ordered {start : MachineState} (ha : start.Reaches p a) (hb : start.Reaches p b) :
    (∃ k, a.after p k = some b) ∨ ∃ k, b.after p k = some a := by
  -- the machine leaves no choice, so that both are on one path
  have hunique : Relator.RightUnique (Steps p) := by
    intro s t t' ht ht'
    rw [Steps, show s.step p = .ok t from ht] at ht'
    exact Except.ok.inj ht'
  have hafter {s t : MachineState} (h : s.Reaches p t) : ∃ k, s.after p k = some t := by
    induction h using Relation.ReflTransGen.head_induction_on with
    | refl => exact ⟨0, rfl⟩
    | head hs _ ih =>
      obtain ⟨k, hk⟩ := ih
      refine ⟨k + 1, ?_⟩
      rw [after, show MachineState.step p _ = .ok _ from hs]
      exact hk
  exact (Relation.ReflTransGen.total_of_right_unique hunique ha hb).imp hafter hafter

/-- The final outcome is delivered early and late. -/
theorem Delivered.agrees {i j u : Nat} {frames frames' : List Frame} {stack stack' : List Value}
    {o o' : Outcome} (ha : a.Delivered p i u frames stack o)
    (hb : b.Delivered p j u frames' stack' o') {k : Nat} (hk : a.after p k = some b) : o' = o := by
  obtain ⟨target, ht, -, hr, -⟩ := ha.final k b hk
  obtain ⟨target', ht', -, hr', -⟩ := hb.final 0 b rfl
  rw [ht] at ht'
  cases ht'
  rw [hr] at hr'
  cases hr'
  rfl

theorem Scheduled.delivers {u n : Nat} {outcome : Outcome} (h : a.Scheduled)
    (hd : a.machine.scheduler.Delivers u outcome) (hb : a.after p n = some b) :
    b.machine.scheduler.Delivers u outcome := by
  induction n generalizing a with
  | zero =>
    cases hb
    exact hd
  | succ n ih =>
    obtain ⟨s, hs, hb, -, -⟩ := after_succ hb
    exact ih (h.step hs) (hd.tableStep (table_step hs) h.consistent) hb

/-- A task that waits goes on waiting until it is resumed. -/
theorem Scheduled.awaits {i u n : Nat} (h : a.Scheduled)
    (hw : a.machine.scheduler.Awaits a.running i u) (hb : a.after p n = some b)
    (hi : i ∉ a.resumptions p n) : b.machine.scheduler.Awaits b.running i u := by
  induction n generalizing a with
  | zero =>
    cases hb
    exact hw
  | succ n ih =>
    obtain ⟨s, hs, hb, hresumed, -⟩ := after_succ hb
    rw [hresumed, List.mem_append, not_or] at hi
    exact ih (h.step hs) (hw.tableStep (table_step hs) h.consistent hi.1) hb hi.2

variable {fr : Frame} {callers : List Frame} {f : FunctionCode} {v : Value} {rest : List Value}
  {u : Nat} {target : Task}

/-- A task that fails with an outcome that was delivered. -/
theorem Delivered.of_failWith {s : Running} {g : Fault} (hc : s.scheduler.Consistent (some s.task))
    (hsch : (idle (s.failWith p g)).Scheduled) (hd : s.scheduler.Delivers u (.error g))
    (frames : List Frame) (stack : List Value) :
    (idle (s.failWith p g)).Delivered p s.task.id u frames stack (.error g) := by
  refine ⟨⟨_, (s.scheduler.complete s.task (.error g)).1, rfl, ?_, rfl, rfl⟩, fun k c hk =>
    hsch.delivers ?_ hk⟩
  · rw [Running.scheduler_failWith, (hc.ended _).1, if_pos rfl]
  · rw [machine, Running.scheduler_failWith]
    exact hd.ended hc _

/-- The awaited task has completed. -/
theorem delivered_at_once (hsch : (busy s).Scheduled) (hb : (busy s).Blames)
    (hfr : s.task.frames = fr :: callers) (hf : p.module.functions[fr.function]? = some f)
    (hi : f.code[fr.ip]? = some .await) (hst : s.task.stack = v :: rest)
    (hv : v.unboxed = .task u) (ht : s.scheduler.get? u = some target)
    (hcomp : target.state = .completed) :
    ∃ b outcome, (busy s).step p = .ok b ∧
      b.Delivered p s.task.id u ({ fr with ip := fr.ip + 1 } :: callers) rest outcome := by
  have hc : s.scheduler.Consistent (some s.task) := hsch.consistent
  have hne : u ≠ s.task.id := hc.absent.ne ht
  obtain ⟨-, outcome, hr⟩ := hc.completed ht hcomp
  have hobs : (s.scheduler.modifyTask u fun t => { t with observed := true }).Delivers u
      outcome := by
    refine ⟨{ target with observed := true }, ?_, hcomp, hr, rfl⟩
    rw [Scheduler.get?_modifyTask, if_pos rfl, ht, Option.map_some]
  have hdone : target.isCompleted = true := by
    rw [Task.isCompleted, hcomp]
    rfl
  have hst' : (s.withFrames ({ fr with ip := fr.ip + 1 } :: callers)).task.stack = v :: rest := hst
  have hn := Exec.next_apply hfr hf hi
  cases outcome with
  | ok w =>
    obtain ⟨s', hx, hsched, htask⟩ :=
      Exec.step_await_value (p := p) (f := f) hst' hv hne ht hdone hr
    rw [Exec.adaptExcept_ok hx] at hn
    have hstep : (busy s).step p = .ok (busy s') := by rw [step, hn]
    refine ⟨_, .ok w, hstep, ⟨s', rfl, ?_, ?_, ?_⟩, fun k c hk =>
      (hsch.step hstep).delivers (hsched ▸ hobs : s'.scheduler.Delivers u (.ok w)) hk⟩ <;>
    rw [htask] <;> rfl
  | error g =>
    have hg : g.located (f.spanAt fr.ip) f.name = g :=
      Fault.located_of_isSome ((hb.table u target ht).faults g (.inr hr)) ..
    obtain ⟨s', hx, hsched, htask⟩ :=
      Exec.step_await_fault (p := p) (f := f) hst' hv hne ht hdone hr
    rw [Exec.adaptExcept_error hx, Trap.located, hg] at hn
    have hstep : (busy s).step p = .ok (idle (s'.failWith p g)) := by rw [step, hn]
    have hid : s'.task.id = s.task.id := by
      rw [htask]
      rfl
    have hc' : s'.scheduler.Consistent (some s'.task) := by
      rw [hsched, htask]
      exact (hc.observe u).change rfl
    exact ⟨_, .error g, hstep, hid ▸ Delivered.of_failWith hc' (hsch.step hstep)
      (hsched ▸ hobs) _ _⟩

/-- The awaited task has not completed: the task is suspended until it does. -/
theorem suspended_by_await (hsch : (busy s).Scheduled)
    (hfr : s.task.frames = fr :: callers) (hf : p.module.functions[fr.function]? = some f)
    (hi : f.code[fr.ip]? = some .await) (hst : s.task.stack = v :: rest)
    (hv : v.unboxed = .task u) (ht : s.scheduler.get? u = some target)
    (hopen : target.state ≠ .completed) :
    ∃ m t, (busy s).step p = .ok (idle m) ∧ m.scheduler.Awaits none s.task.id u ∧
      m.scheduler.get? s.task.id = some t ∧
      t.frames = { fr with ip := fr.ip + 1 } :: callers ∧ t.stack = rest := by
  have hc : s.scheduler.Consistent (some s.task) := hsch.consistent
  have hne : u ≠ s.task.id := hc.absent.ne ht
  have hdone : target.isCompleted = false := by simpa [Task.isCompleted] using hopen
  have hst' : (s.withFrames ({ fr with ip := fr.ip + 1 } :: callers)).task.stack = v :: rest := hst
  have hn := Exec.next_apply hfr hf hi
  obtain ⟨s', hx, hsched, htask⟩ := Exec.step_await_open (p := p) (f := f) hst' hv hne ht hdone
  rw [Exec.adaptExcept_ok hx] at hn
  have hstep : (busy s).step p = .ok (idle (s'.suspendAs .suspended)) := by rw [step, hn]
  have hid : s'.task.id = s.task.id := by
    rw [htask]
    rfl
  have hget : ∀ i, (s'.suspendAs .suspended).scheduler.get? i =
      if i = s.task.id then some { s'.task with state := .suspended } else s'.scheduler.get? i := by
    intro i
    change (s'.scheduler.putBack { s'.task with state := .suspended }).get? i = _
    rw [hsched]
    exact (hc.absent.addWaiter s.task.id u).get?_putBack
      (show ({ s'.task with state := .suspended } : Task).id = s.task.id from hid) i
  have htarget : s'.scheduler.get? u =
      some { target with waiters := target.waiters ++ [s.task.id] } := by
    rw [hsched]
    change (s.scheduler.addWaiter s.task.id u).get? u = _
    rw [Scheduler.addWaiter, Scheduler.get?_modifyTask, if_pos rfl, ht, Option.map_some]
  have hself := (hget s.task.id).trans (if_pos rfl)
  have hu : target.id = u := hc.id_eq ht
  refine ⟨_, _, hstep,
    ⟨_, hself, .inl ⟨rfl, { target with waiters := target.waiters ++ [s.task.id] },
    .inl ?_, hu, by simp⟩⟩, hself, ?_, ?_⟩
  · change Scheduler.get? _ target.id = _
    rw [hu, hget, if_neg hne, htarget, hu]
  · rw [htask]
    rfl
  · rw [htask]

theorem takeTurn_value {m : Machine} {t : Task} {s' : Scheduler}
    (hn : m.scheduler.next? = some (t, s')) (hre : t.resumeWith = some (.ok v)) :
    takeTurn p m = .ok (busy ⟨{ m with scheduler := s' },
      { t with stack := v :: t.stack, resumeWith := none }⟩) := by
  rw [takeTurn, hn]
  dsimp only
  rw [hre]

theorem takeTurn_fault {m : Machine} {t : Task} {s' : Scheduler} {g : Fault}
    (hn : m.scheduler.next? = some (t, s')) (hre : t.resumeWith = some (.error g)) :
    takeTurn p m = .ok (idle (Running.failWith p
      ⟨{ m with scheduler := s' }, { t with resumeWith := none }⟩ g)) := by
  rw [takeTurn, hn]
  dsimp only
  rw [hre]

/-- A task that has waited is resumed. -/
theorem delivered_later {m : Machine} {i : Nat} {t : Task} (hsch : (idle m).Scheduled)
    (hw : m.scheduler.Awaits none i u) (ht : m.scheduler.get? i = some t)
    (hi : i ∈ (idle m).resumed) :
    ∃ b outcome, (idle m).step p = .ok b ∧ b.Delivered p i u t.frames t.stack outcome := by
  have hc : m.scheduler.Consistent none := hsch.consistent
  obtain ⟨⟨t', s'⟩, hn, hid⟩ : ∃ next, m.scheduler.next? = some next ∧ next.1.id = i := by
    simpa [resumed] using hi
  obtain ⟨w, -, -, hget, hready, htw, -⟩ := hc.next?_some hn
  obtain rfl : w.id = i := by rw [← hid, htw]
  rw [hget] at ht
  cases ht
  obtain ⟨v, hv, h⟩ := hw
  rw [hget] at hv
  cases hv
  obtain ⟨hs, -⟩ | ⟨-, outcome, hre, hd⟩ := h
  · rw [hready] at hs
    cases hs
  · have hre' : t'.resumeWith = some outcome := by rw [htw, hre]
    cases outcome with
    | ok x =>
      have hstep := takeTurn_value (p := p) hn hre'
      refine ⟨_, .ok x, hstep, ⟨_, rfl, hid, ?_, ?_⟩, fun k c hk =>
        (hsch.step hstep).delivers (hd.taken hc hn) hk⟩ <;> rw [htw]
    | error g =>
      have hstep := takeTurn_fault (p := p) hn hre'
      refine ⟨_, .error g, hstep, hid ▸ Delivered.of_failWith
        (Scheduler.TableStep.consistent_relayed hc hn) (hsch.step hstep) (hd.taken hc hn) _ _⟩

/-- There is no task to be awaited, or it is the task itself. -/
theorem fails_by_await (hsch : (busy s).Scheduled)
    (hfr : s.task.frames = fr :: callers) (hf : p.module.functions[fr.function]? = some f)
    (hi : f.code[fr.ip]? = some .await) (hst : s.task.stack = v :: rest)
    (hv : v.unboxed = .task u) (h : u = s.task.id ∨ s.scheduler.get? u = none) :
    ∃ m t g, (busy s).step p = .ok (idle m) ∧ m.scheduler.get? s.task.id = some t ∧
      t.state = .completed ∧ t.result = some (.error g) ∧ g.cause = .malformed (s.refusal u) := by
  have hc : s.scheduler.Consistent (some s.task) := hsch.consistent
  have hst' : (s.withFrames ({ fr with ip := fr.ip + 1 } :: callers)).task.stack = v :: rest := hst
  obtain ⟨s', hx, hsched, htask⟩ := Exec.step_await_none (p := p) (f := f) hst' hv h
  have hn := Exec.next_apply hfr hf hi
  rw [Exec.adaptExcept_error hx, Trap.located] at hn
  generalize hg : (Fault.of _).located (f.spanAt fr.ip) f.name = g at hn
  have hstep : (busy s).step p = .ok (idle (s'.failWith p g)) := by rw [step, hn]
  have hc' : s'.scheduler.Consistent (some s'.task) := by
    rw [hsched, htask]
    exact hc.change rfl
  have hid : s'.task.id = s.task.id := by
    rw [htask]
    rfl
  refine ⟨_, (s'.scheduler.complete s'.task (.error g)).1, g, hstep, ?_, rfl, rfl, ?_⟩
  · rw [Running.scheduler_failWith, (hc'.ended _).1, if_pos hid.symm]
  · subst hg
    rfl

/-- How an await of the task `u` comes out. -/
inductive Awaited (p : Linked) (s : Running) (fr : Frame) (callers : List Frame) (rest : List Value)
    (u : Nat) : Prop
  /-- The task has completed, and its outcome is delivered in one step. -/
  | atOnce {target : Task} {outcome : Outcome} {b : MachineState}
    (ht : s.scheduler.get? u = some target) (hcomp : target.state = .completed)
    (hstep : (busy s).step p = .ok b)
    (hb : b.Delivered p s.task.id u ({ fr with ip := fr.ip + 1 } :: callers) rest outcome)
  /-- The awaiting task stays as it is until it is resumed, if ever, and then it is delivered the
  outcome in one step. -/
  | later {target : Task} {m : Machine}
    (ht : s.scheduler.get? u = some target) (hopen : target.state ≠ .completed)
    (hstep : (busy s).step p = .ok (idle m))
    (hwaits : ∀ n c, (idle m).after p n = some c → s.task.id ∉ (idle m).resumptions p n →
      (∃ t, c.machine.scheduler.get? s.task.id = some t ∧ t.state ≠ .completed ∧
        t.frames = { fr with ip := fr.ip + 1 } :: callers ∧ t.stack = rest) ∧
      (s.task.id ∈ c.resumed → ∃ b outcome, c.step p = .ok b ∧
        b.Delivered p s.task.id u ({ fr with ip := fr.ip + 1 } :: callers) rest outcome))
  /-- The task is the awaiting one, or not in the table. The awaiting task fails. -/
  | never {m : Machine} {t : Task} {g : Fault} (h : u = s.task.id ∨ s.scheduler.get? u = none)
    (hstep : (busy s).step p = .ok (idle m)) (ht : m.scheduler.get? s.task.id = some t)
    (hcomp : t.state = .completed) (hr : t.result = some (.error g))
    (hg : g.cause = .malformed (s.refusal u))

theorem awaited (hsch : (busy s).Scheduled) (hb : (busy s).Blames)
    (hfr : s.task.frames = fr :: callers) (hi : Exec.instr? p fr = some .await)
    (hst : s.task.stack = v :: rest) (hv : v.unboxed = .task u) :
    Awaited p s fr callers rest u := by
  obtain ⟨f, hf, hi⟩ := Option.bind_eq_some_iff.1 hi
  by_cases hself : u = s.task.id ∨ s.scheduler.get? u = none
  · obtain ⟨m, t, g, hstep, ht, hcomp, hr, hg⟩ := fails_by_await hsch hfr hf hi hst hv hself
    exact .never hself hstep ht hcomp hr hg
  · obtain ⟨target, ht⟩ := Option.ne_none_iff_exists'.1 fun h => hself (.inr h)
    by_cases hcomp : target.state = .completed
    · obtain ⟨b, outcome, hstep, hd⟩ := delivered_at_once hsch hb hfr hf hi hst hv ht hcomp
      exact .atOnce ht hcomp hstep hd
    · obtain ⟨m, t, hstep, hw, hget, hframes, hstack⟩ :=
        suspended_by_await hsch hfr hf hi hst hv ht hcomp
      refine .later ht hcomp hstep fun n c hc hn => ?_
      have hidle := hsch.step hstep
      have hw' := hidle.awaits hw hc hn
      obtain ⟨t', ht', hk⟩ := hidle.others hc hget hn
      have hframes' := hk.frames.trans hframes
      have hstack' := hk.stack.trans hstack
      refine ⟨⟨t', ht', ?_, hframes', hstack'⟩, fun hresumed => ?_⟩
      · obtain ⟨w, hget', h⟩ := hw'
        rw [ht'] at hget'
        cases hget'
        rcases h with ⟨hs, -⟩ | ⟨hs, -⟩ <;> rw [hs] <;> decide
      · cases c with
        | busy s' => cases hresumed
        | idle m' =>
          have := delivered_later (hidle.after hc) hw' ht' hresumed (p := p)
          rwa [hframes', hstack'] at this

end MachineState

namespace Linked

variable {p : Linked}

/-- An await of a task that is in the table comes out in one of two ways, at once and later. Both
deliver the one final outcome of the awaited task: the value at the same place among the operands,
or the same fault, blamed on the same instruction. Whatever awaits of the task a run comes to, early
and late ones, of one task and of others, they are all delivered the same. -/
theorem await_delivers {program : Program} {natives : List (String × Signature)} {typed : TProgram}
    (hcheck : program.check natives = .ok typed) (hcompile : typed.compile = .ok p.module)
    {name : String} {start : Machine} {frame : Frame} (hframe : p.entry name = .ok frame)
    {s : Running} (hs : (startState start frame).Reaches p (.busy s)) {fr : Frame}
    {callers : List Frame} (hfr : s.task.frames = fr :: callers)
    (hi : Exec.instr? p fr = some .await) {v : Value} {rest : List Value}
    (hstack : s.task.stack = v :: rest) {u : Nat} (hv : v.unboxed = .task u) :
    MachineState.Awaited p s fr callers rest u ∧
      ∀ (a a' : Nat) (frames frames' : List Frame) (stack stack' : List Value) (o o' : Outcome)
        (b b' : MachineState), (startState start frame).Reaches p b →
        (startState start frame).Reaches p b' → b.Delivered p a u frames stack o →
        b'.Delivered p a' u frames' stack' o' → o' = o := by
  have hp (id : Nat) (f : FunctionCode) (hf : p.module.functions[id]? = some f) : f.Disciplined :=
    TProgram.disciplined_compile hcheck hcompile hf
  have hblames : (MachineState.busy s).Levelled p ∧ (MachineState.busy s).Scheduled ∧
      (MachineState.busy s).Blames := by
    refine hs.preserves (I := fun s => s.Levelled p ∧ s.Scheduled ∧ s.Blames) ?_ ?_
    · rintro a b ⟨hl, hsch, hb⟩ hstep
      exact ⟨MachineState.levelled_step hp hl hstep, hsch.step hstep,
        MachineState.blames_step hp hl hsch hb hstep⟩
    · refine ⟨levelled_of_reaches hp hframe (.refl _), scheduled_startState start frame,
        .of_idle (Scheduler.Blames.spawn ?_ frame)⟩
      intro i t ht
      cases ht
  refine ⟨MachineState.awaited hblames.2.1 hblames.2.2 hfr hi hstack hv, ?_⟩
  intro a a' frames frames' stack stack' o o' b b' hreaches hreaches' hb hb'
  rcases hreaches.ordered hreaches' with ⟨k, hk⟩ | ⟨k, hk⟩
  · exact hb.agrees hb' hk
  · exact (hb'.agrees hb hk).symm

/-- Its main task awaits one that it has just started. -/
def awaitsOne : Program where
  items := [
    .function ⟨"main", [], some .int,
      [.ret (some (.await (.call (.name "one" none) [] none) none)) none], true, none⟩,
    .function ⟨"one", [], some .int, [.ret (some (.int 1 none)) none], true, none⟩]
  source := none

def checkedAwaitsOne : TProgram where
  structs := []
  functions := [{
    name := "main", params := [], ret := .int, isAsync := true, span := none
    body := [.ret (some (.mk (.await (.mk (.spawn "one" []) (.task .int) none)) .int none)) none] },
   { name := "one", params := [], ret := .int, isAsync := true, span := none
     body := [.ret (some (.mk (.int 1) .int none)) none] }]
  source := none

def compiledAwaitsOne : Module where
  functions := #[
    ⟨"main", 0, 0, #[], [], true, [], #[.spawn 1 0, .await, .ret, .const 0, .ret],
      #[.null], #[none, none, none, none, none]⟩,
    ⟨"one", 0, 0, #[], [], true, [], #[.const 0, .ret, .const 1, .ret],
      #[.int 1, .null], #[none, none, none, none]⟩]
  structs := #[]
  natives := #[]
  source := none

theorem check_awaitsOne : awaitsOne.check [] = .ok checkedAwaitsOne := by
  cbv

theorem compile_awaitsOne : checkedAwaitsOne.compile = .ok compiledAwaitsOne := by
  cbv

/-- The machine on which the program runs. -/
def awaitsOneLinked : Linked := ⟨compiledAwaitsOne, #[], .default⟩

/-- The task waits, and is delivered the value when the other one has returned it. -/
theorem awaitsOne_delivered :
    ∃ (s : Running) (fr : Frame) (k : Nat) (b : MachineState), s.task.frames = [fr] ∧
      s.task.stack = [.task 1] ∧ (MachineState.busy s).after awaitsOneLinked k = some b ∧
      b.Delivered awaitsOneLinked s.task.id 1 [{ fr with ip := fr.ip + 1 }] [] (.ok (.int 1)) := by
  let outer (ip : Nat) : Frame := ⟨0, ip, ⟨#[], [[]]⟩, [], 0, false⟩
  let inner (ip : Nat) : Frame := ⟨1, ip, ⟨#[], [[]]⟩, [], 0, false⟩
  let waiting : Task := ⟨0, .suspended, [outer 2], [], none, [], false, none⟩
  let working : Task := ⟨1, .running, [inner 0], [], none, [0], false, none⟩
  let pushed : Task := { working with frames := [inner 1], stack := [.int 1] }
  let ended : Task := ⟨1, .completed, [], [], some (.ok (.int 1)), [], true, none⟩
  let s : Running :=
    ⟨⟨⟨#[none, some ⟨1, .ready, [inner 0], [], none, [], false, none⟩], [1]⟩, "", #[]⟩,
    ⟨0, .running, [outer 1], [.task 1], none, [], false, none⟩⟩
  let m : Machine := ⟨⟨#[some waiting, some { working with state := .ready }], [1]⟩, "", #[]⟩
  let apart : Machine := ⟨⟨#[some waiting, none], []⟩, "", #[]⟩
  let m' : Machine :=
    ⟨⟨#[some { waiting with state := .ready, resumeWith := some (.ok (.int 1)) }, some ended], [0]⟩,
      "", #[]⟩
  let s' : Running :=
    ⟨⟨⟨#[none, some ended], []⟩, "", #[]⟩, { waiting with state := .running, stack := [.int 1] }⟩
  have hentry : awaitsOneLinked.entry "main" = .ok (outer 0) := by cbv
  have hs : (startState .empty (outer 0)).Reaches awaitsOneLinked (.busy s) :=
    .tail (.tail .refl rfl) rfl
  have hwaits : MachineState.step awaitsOneLinked (.busy s) = .ok (.idle m) := rfl
  -- the other task takes its turn, pushes its value and returns it
  have hturn : MachineState.step awaitsOneLinked (.idle m) = .ok (.busy ⟨apart, working⟩) := rfl
  have hpush : MachineState.step awaitsOneLinked (.busy ⟨apart, working⟩) =
      .ok (.busy ⟨apart, pushed⟩) := rfl
  have hret : MachineState.step awaitsOneLinked (.busy ⟨apart, pushed⟩) = .ok (.idle m') := rfl
  have hresumes : MachineState.step awaitsOneLinked (.idle m') = .ok (.busy s') := rfl
  have hafter : (MachineState.idle m).after awaitsOneLinked 3 = some (.idle m') := by
    simp only [MachineState.after, hturn, hpush, hret]
  have hnot : s.task.id ∉ (MachineState.idle m).resumptions awaitsOneLinked 3 := by
    simp only [MachineState.resumptions, hturn, hpush, hret]
    decide
  refine ⟨s, outer 1, 5, .busy s', rfl, rfl, ?_, ?_⟩
  · simp only [MachineState.after, hwaits, hturn, hpush, hret, hresumes]
  obtain ⟨hawaited, -⟩ :=
    await_delivers (p := awaitsOneLinked) check_awaitsOne compile_awaitsOne hentry hs
    (show s.task.frames = [outer 1] from rfl) rfl rfl rfl
  cases hawaited with
  | atOnce ht hcomp =>
    cases ht
    cases hcomp
  | never h => rcases h with h | h <;> cases h
  | later _ _ hstep hlater =>
    cases hwaits.symm.trans hstep
    obtain ⟨b, outcome, hb, hdelivered⟩ := (hlater 3 _ hafter hnot).2 (List.mem_singleton_self 0)
    cases hresumes.symm.trans hb
    cases outcome with
    | ok v =>
      obtain ⟨s'', hs'', -, -, hstack⟩ := hdelivered.awaiter
      cases hs''
      cases hstack
      exact hdelivered
    | error f =>
      obtain ⟨m, t, hm, -⟩ := hdelivered.awaiter
      cases hm

end Linked

end ScopedScript
