import ScopedScript.Proofs.Machine.HandleFlow
import ScopedScript.Proofs.Machine.Runs
import ScopedScript.Proofs.Machine.StandardAnswers
import ScopedScript.Proofs.Machine.TaskTable

/-!
# No deadlock

Tasks can be ranked so that every handle that a task holds names a task of lower rank, and every
task waits for one of lower rank. So waiting never closes a circle: when no task is ready, all have
completed.
-/

namespace ScopedScript

/-- The task holds handles of tasks of `K` only, its outcomes included, and its faults do not
concern waiting. -/
structure Task.Sound (K : Nat → Prop) (t : Task) : Prop where
  owns : t.Owns K
  value : ∀ v, t.resumeWith = some (.ok v) ∨ t.result = some (.ok v) → v.Within K
  fault : ∀ f, t.resumeWith = some (.error f) ∨ t.result = some (.error f) → f.Plain

theorem Task.Sound.mono {K K' : Nat → Prop} {t : Task} (h : t.Sound K) (hK : ∀ id, K id → K' id) :
    t.Sound K' :=
  ⟨h.owns.mono hK, fun v hv => (h.value v hv).mono hK, h.fault⟩

namespace Scheduler

/-- The tasks that one of rank `r` may hold handles of. -/
def Below (s : Scheduler) (rank : Nat → Nat) (r : Nat) (id : Nat) : Prop :=
  id < s.tasks.size ∧ rank id < r

theorem below_of_size {s s' : Scheduler} (h : s'.tasks.size = s.tasks.size)
    (rank : Nat → Nat) (r : Nat) : s'.Below rank r = s.Below rank r := by
  funext id
  rw [Below, Below, h]

/-- Handles and waiting lead to lower ranks. -/
def Ranked (s : Scheduler) (running : Option Task) (rank : Nat → Nat) : Prop :=
  ∀ u, s.Knows running u →
    u.Sound (s.Below rank (rank u.id)) ∧ ∀ w ∈ u.waiters, rank u.id < rank w

structure Orderly (s : Scheduler) (running : Option Task) : Prop where
  consistent : s.Consistent running
  ranked : ∃ rank, s.Ranked running rank

variable {s : Scheduler} {t u : Task} {i : Nat}

/-- When no task is ready and none runs, all have completed. -/
theorem Orderly.all_completed (h : s.Orderly none) (hr : s.ready = []) (hu : s.get? i = some u) :
    u.state = .completed := by
  obtain ⟨hc, rank, hrank⟩ := h
  -- a task that waits does so for one of lower rank, which has not completed either
  suffices H : ∀ n i u, rank i = n → s.get? i = some u → u.state ≠ .suspended by
    cases hs : u.state with
    | completed => rfl
    | ready =>
      have := hc.mem_ready.2 ⟨u, hu, hs⟩
      rw [hr] at this
      cases this
    | running => exact absurd hs (hc.resting hu)
    | suspended => exact absurd hs (H _ i u rfl hu)
  intro n
  induction n using Nat.strongRecOn with
  | ind n ih =>
    intro i u hn hu hs
    obtain ⟨v, hv, hi⟩ := hc.waits hu hs
    have hlt := (hrank v hv).2 i hi
    have hv' : s.get? v.id = some v := by
      rcases hv with hv | hv
      · exact hv
      · cases hv
    have hvs : v.state = .suspended := by
      cases hs' : v.state with
      | suspended => rfl
      | ready =>
        have := hc.mem_ready.2 ⟨v, hv', hs'⟩
        rw [hr] at this
        cases this
      | running => exact absurd hs' (hc.resting hv')
      | completed =>
        rw [(hc.completed hv' hs').1] at hi
        cases hi
    exact ih (rank v.id) (hn ▸ hlt) v.id v rfl hv' hvs

/-- The running task may change its frames and operands. -/
theorem Consistent.change (hc : s.Consistent (some t)) {t' : Task}
    (h : t' = { t with frames := t'.frames, stack := t'.stack, resumeWith := t'.resumeWith }) :
    s.Consistent (some t') :=
  hc.transfer rfl rfl (fun _ => rfl) (by rw [h]; rfl)

theorem Ranked.change {rank : Nat → Nat} (hr : s.Ranked (some t) rank) {t' : Task}
    (h : t' = { t with frames := t'.frames, stack := t'.stack, resumeWith := t'.resumeWith })
    (hre : t'.resumeWith = t.resumeWith ∨ t'.resumeWith = none)
    (ho : t'.Owns (s.Below rank (rank t.id))) : s.Ranked (some t') rank := by
  rintro u (hu | hu)
  · exact hr u (.inl hu)
  · cases hu
    obtain ⟨hs, hw⟩ := hr t (.inr rfl)
    have hid : t'.id = t.id := by rw [h]
    have hwaiters : t'.waiters = t.waiters := by rw [h]
    have hresult : t'.result = t.result := by rw [h]
    rw [hid, hwaiters]
    refine ⟨⟨ho, ?_, ?_⟩, hw⟩
    · rw [hresult]
      rcases hre with hre | hre <;> rw [hre]
      · exact hs.value
      · exact fun v hv => hs.value v (.inr (hv.resolve_left nofun))
    · rw [hresult]
      rcases hre with hre | hre <;> rw [hre]
      · exact hs.fault
      · exact fun f hf => hs.fault f (.inr (hf.resolve_left nofun))

/-- The first task of the queue begins its turn. -/
theorem Ranked.take {rank : Nat → Nat} (hc : s.Consistent none) (hr : s.Ranked none rank)
    (ht : s.get? i = some t) (rest : List Nat) :
    Scheduler.Ranked ⟨s.tasks.setIfInBounds i none, rest⟩ (some { t with state := .running })
      rank := by
  rintro u (hu | hu)
  · rw [below_of_size Array.size_setIfInBounds]
    rw [get?_taken] at hu
    split at hu
    · cases hu
    · exact hr u (.inl hu)
  · cases hu
    rw [below_of_size Array.size_setIfInBounds]
    obtain ⟨ho, hw⟩ := hr t (.inl (hc.id_eq ht ▸ ht))
    exact ⟨⟨ho.owns, ho.value, ho.fault⟩, hw⟩

theorem orderly_start {frame : Frame} (h : ∀ K, frame.Within K) :
    (Scheduler.empty.spawn frame).2.Orderly none := by
  refine ⟨consistent_start frame, fun _ => 0, ?_⟩
  rintro u (hu | hu)
  · rw [get?_spawn] at hu
    split at hu <;> cases hu
    refine ⟨⟨⟨?_, nofun⟩, nofun, nofun⟩, nofun⟩
    intro fr hfr
    obtain rfl : fr = frame := by simpa [Task.start] using hfr
    exact h _
  · cases hu

theorem Ranked.observe {running : Option Task} {rank : Nat → Nat} (hr : s.Ranked running rank)
    (id : Nat) : (s.modifyTask id fun t => { t with observed := true }).Ranked running rank := by
  intro u hu
  rw [below_of_size (size_modifyTask _ _ _)]
  rcases hu with hu | hu
  · rw [get?_modifyTask] at hu
    split at hu
    · obtain ⟨v, hv, rfl⟩ := Option.map_eq_some_iff.1 hu
      obtain ⟨hs, hw⟩ := hr v (.inl hv)
      exact ⟨⟨hs.owns, hs.value, hs.fault⟩, hw⟩
    · exact hr u (.inl hu)
  · exact hr u (.inr hu)

/-- A new task is ranked between the task that starts it and those whose handles it is given. -/
theorem Ranked.spawn {rank : Nat → Nat} (hc : s.Consistent (some t)) (hr : s.Ranked (some t) rank)
    {frame : Frame} (hf : frame.Within (s.Below rank (rank t.id))) :
    ∃ rank', (s.spawn frame).2.Ranked (some t) rank' ∧
      rank' s.tasks.size < rank' t.id ∧ ∀ id, id < s.tasks.size → rank id < rank t.id →
        rank' id < rank' t.id := by
  let rank' := fun i => if i = s.tasks.size then 2 * rank t.id + 1 else 2 * rank i + 2
  have hnew : rank' s.tasks.size = 2 * rank t.id + 1 := if_pos rfl
  have hold : ∀ {i}, i < s.tasks.size → rank' i = 2 * rank i + 2 := fun h =>
    if_neg (Nat.ne_of_lt h)
  have hlt := (hc.runs rfl).1
  have known : ∀ u, s.Knows (some t) u → u.id < s.tasks.size := by
    rintro u (hu | hu)
    · exact get?_lt_size hu
    · cases hu
      exact hlt
  have below : ∀ u, s.Knows (some t) u → ∀ id, s.Below rank (rank u.id) id →
      (s.spawn frame).2.Below rank' (rank' u.id) id := by
    rintro u hu id ⟨hid, hrk⟩
    rw [hold (known u hu), Below, size_spawn, hold hid]
    omega
  refine ⟨rank', ?_, ?_, ?_⟩
  · intro u hu
    have hu' : u = .start s.tasks.size frame ∨ s.Knows (some t) u := by
      rcases hu with hu | hu
      · rw [get?_spawn] at hu
        split at hu
        · cases hu
          exact .inl rfl
        · exact .inr (.inl hu)
      · exact .inr (.inr hu)
    rcases hu' with rfl | hu
    · refine ⟨⟨⟨?_, nofun⟩, nofun, nofun⟩, nofun⟩
      intro fr hfr
      obtain rfl : fr = frame := by simpa [Task.start] using hfr
      refine hf.mono fun id => ?_
      rintro ⟨hid, hrk⟩
      change id < _ ∧ rank' id < rank' s.tasks.size
      rw [size_spawn, hnew, hold hid]
      omega
    · obtain ⟨hs, hw⟩ := hr u hu
      refine ⟨hs.mono (below u hu), fun w hwu => ?_⟩
      obtain ⟨v, hv, -⟩ := hc.waiter hu hwu
      have := hw w hwu
      rw [hold (known u hu), hold (get?_lt_size hv)]
      omega
  · rw [hnew, hold hlt]
    omega
  · intro id hid hrk
    rw [hold hid, hold hlt]
    omega

theorem Orderly.yield (h : s.Orderly (some t)) :
    (s.putBack { t with state := .ready }).Orderly none := by
  obtain ⟨hc, rank, hr⟩ := h
  refine ⟨hc.yield, rank, ?_⟩
  rintro u (hu | hu)
  · rw [below_of_size (size_putBack _ _)]
    rw [get?_stopped hc (u := { t with state := .ready }) rfl] at hu
    split at hu
    · cases hu
      obtain ⟨hs, hw⟩ := hr t (.inr rfl)
      exact ⟨⟨hs.owns, hs.value, hs.fault⟩, hw⟩
    · exact hr u (.inl hu)
  · cases hu

theorem Orderly.suspend {rank : Nat → Nat} (hc : s.Consistent (some t))
    (hr : s.Ranked (some t) rank) {j : Nat} (hj : s.get? j = some u) (hu : u.state ≠ .completed)
    (hlt : rank j < rank t.id) :
    ((s.addWaiter t.id j).putBack { t with state := .suspended }).Orderly none := by
  refine ⟨hc.suspend hj hu, rank, ?_⟩
  have hsize : ((s.addWaiter t.id j).putBack { t with state := .suspended }).tasks.size =
      s.tasks.size := by rw [size_putBack, addWaiter, size_modifyTask]
  rintro v (hv | hv)
  · rw [below_of_size hsize]
    rw [get?_putBack] at hv
    split at hv
    · cases hv
      obtain ⟨hs, hw⟩ := hr t (.inr rfl)
      exact ⟨⟨hs.owns, hs.value, hs.fault⟩, hw⟩
    · rw [addWaiter, get?_modifyTask] at hv
      split at hv
      · rename_i hvj
        obtain ⟨w, hw, rfl⟩ := Option.map_eq_some_iff.1 hv
        rw [hvj, hj] at hw
        cases hw
        obtain ⟨hs, hw⟩ := hr u (.inl (hc.id_eq hj ▸ hj))
        refine ⟨⟨hs.owns, hs.value, hs.fault⟩, fun i hi => ?_⟩
        rcases List.mem_append.1 hi with hi | hi
        · exact hw i hi
        · rw [List.mem_singleton.1 hi]
          exact hc.id_eq hj ▸ hlt
      · exact hr v (.inl hv)
  · cases hv

theorem Orderly.complete {rank : Nat → Nat} (hc : s.Consistent (some t))
    (hr : s.Ranked (some t) rank) {outcome : Outcome}
    (hv : ∀ v, outcome = .ok v → v.Within (s.Below rank (rank t.id)))
    (hf : ∀ f, outcome = .error f → f.Plain) :
    ((s.complete t outcome).2.putBack (s.complete t outcome).1).Orderly none := by
  obtain ⟨hget, -, hsize⟩ := hc.table_complete outcome
  refine ⟨hc.complete outcome, rank, ?_⟩
  rintro u (hu | hu)
  · rw [below_of_size hsize]
    rw [hget] at hu
    split at hu
    · cases hu
      refine ⟨⟨⟨nofun, nofun⟩, ?_, ?_⟩, nofun⟩
      · rintro v (h | h)
        · exact (hr t (.inr rfl)).1.value v (.inl h)
        · exact hv v (Option.some.inj h)
      · rintro f (h | h)
        · exact (hr t (.inr rfl)).1.fault f (.inl h)
        · exact hf f (Option.some.inj h)
    · split at hu
      · rename_i hw
        obtain ⟨v, hv', rfl⟩ := Option.map_eq_some_iff.1 hu
        obtain ⟨hs, hws⟩ := hr v (.inl hv')
        have hlt := (hr t (.inr rfl)).2 _ hw
        refine ⟨⟨hs.owns, ?_, ?_⟩, hws⟩
        · rintro w (h | h)
          · refine (hv w (Option.some.inj h)).mono fun id hid => ⟨hid.1, ?_⟩
            exact Nat.lt_trans hid.2 hlt
          · exact hs.value w (.inr h)
        · rintro f (h | h)
          · exact hf f (Option.some.inj h)
          · exact hs.fault f (.inr h)
      · exact hr u (.inl hu)
  · cases hu

end Scheduler

/-- The tasks that the running task may hold handles of are others, and in the table. -/
theorem Scheduler.Below.other {s : Scheduler} {t : Task} {rank : Nat → Nat} {id : Nat}
    (hc : s.Consistent (some t)) (h : s.Below rank (rank t.id) id) :
    id ≠ t.id ∧ (s.get? id).isSome := by
  have hne : id ≠ t.id := by
    rintro rfl
    exact Nat.lt_irrefl _ h.2
  refine ⟨hne, (hc.present h.1).resolve_right ?_⟩
  rintro ⟨u, hu, rfl⟩
  cases hu
  exact hne rfl

/-- No circle of waiting has formed. -/
def MachineState.Orderly : MachineState → Prop
  | .idle m => m.scheduler.Orderly none
  | .busy s => s.scheduler.Orderly (some s.task)

namespace Running

variable {p : Linked} {s s' : Running}

theorem orderly_completeWith (rank : Nat → Nat) (hc : s.scheduler.Consistent (some s.task))
    (hr : s.scheduler.Ranked (some s.task) rank) {outcome : Outcome}
    (hv : ∀ v, outcome = .ok v → v.Within (s.scheduler.Below rank (rank s.task.id)))
    (hf : ∀ f, outcome = .error f → f.Plain) :
    (s.completeWith outcome).scheduler.Orderly none :=
  Scheduler.Orderly.complete hc hr hv hf

theorem orderly_failWith (rank : Nat → Nat) (hc : s.scheduler.Consistent (some s.task))
    (hr : s.scheduler.Ranked (some s.task) rank) {f : Fault} (hf : f.Plain) :
    (s.failWith p f).scheduler.Orderly none := by
  refine orderly_completeWith rank ?_ ?_ nofun fun g hg => ?_
  · rw [Machine.scheduler_unwind]
    exact hc
  · rw [Machine.scheduler_unwind]
    exact hr
  · cases hg
    exact hf

end Running

namespace Exec

variable {s s' : Running} {K : Nat → Prop} {rank : Nat → Nat}

theorem Local.task_eq (h : Local s K s') : s'.task =
    { s.task with
      frames := s'.task.frames, stack := s'.task.stack, resumeWith := s'.task.resumeWith } := by
  have hre : s'.task.resumeWith = s.task.resumeWith := by rw [h.task]
  rw [hre]
  exact h.task

/-- A change of the running task that is local leaves the table in order. -/
theorem Local.orderly (h : Local s (s.scheduler.Below rank (rank s.task.id)) s')
    (hc : s.scheduler.Consistent (some s.task)) (hr : s.scheduler.Ranked (some s.task) rank) :
    s'.scheduler.Consistent (some s'.task) ∧ s'.scheduler.Ranked (some s'.task) rank ∧
      s'.task.id = s.task.id := by
  rw [h.scheduler]
  refine ⟨hc.change h.task_eq, hr.change h.task_eq (.inl ?_) h.owns, ?_⟩ <;> rw [h.task]

end Exec

namespace MachineState

variable {p : Linked} {s s' : MachineState}

theorem orderly_takeTurn {m : Machine} (h : m.scheduler.Orderly none)
    (hs : takeTurn p m = .ok s') : s'.Orderly := by
  obtain ⟨hc, rank, hr⟩ := h
  unfold takeTurn at hs
  cases hready : m.scheduler.ready with
  | nil =>
    rw [Scheduler.next?, hready] at hs
    cases hs
  | cons i rest =>
    obtain ⟨t, ht, -⟩ := hc.mem_ready.1 (by rw [hready]; exact List.mem_cons_self ..)
    rw [Scheduler.next?_cons hready ht] at hs
    have hc' := hc.take hready ht
    have hr' := hr.take hc ht rest
    obtain ⟨hsound, -⟩ := hr' _ (.inr rfl)
    dsimp only at hs
    cases hre : t.resumeWith with
    | none =>
      rw [hre] at hs
      cases hs
      exact ⟨hre ▸ hc', rank, hre ▸ hr'⟩
    | some outcome =>
      rw [hre] at hs
      cases outcome with
      | ok v =>
        cases hs
        refine ⟨hc'.change rfl, rank, hr'.change rfl (.inr rfl) ⟨hsound.owns.1, ?_⟩⟩
        simp only [List.mem_cons]
        rintro w (rfl | hw)
        · exact hsound.value w (.inl hre)
        · exact hsound.owns.2 w hw
      | error f =>
        cases hs
        have ht' : ({ t with state := .running, resumeWith := none } : Task) =
            { t with
              state := .running, frames := t.frames, stack := t.stack, resumeWith := none } :=
          rfl
        exact Running.orderly_failWith rank (hc'.change ht')
          (hr'.change ht' (.inr rfl) hsound.owns) (hsound.fault f (.inl hre))

/-- What the machine makes of the answer to an instruction is orderly. -/
def OrderlyAfter (p : Linked) : EStateM.Result Trap Running Flow → Prop
  | .ok .goOn s => (busy s).Orderly
  | .ok (.finished v) s => (idle (s.completeWith (.ok v))).Orderly
  | .ok .yielded s => (idle (s.suspendAs .ready)).Orderly
  | .ok .suspended s => (idle (s.suspendAs .suspended)).Orderly
  | .error (.fault f) s => f.Plain ∧ (idle (s.failWith p f)).Orderly
  | .error (.lost _) _ => True

theorem orderly_effect {s : Running} {rank : Nat → Nat} (hc : s.scheduler.Consistent (some s.task))
    (hr : s.scheduler.Ranked (some s.task) rank) {r : EStateM.Result Trap Running Flow}
    (h : Exec.Effect s (s.scheduler.Below rank (rank s.task.id)) r) : OrderlyAfter p r := by
  obtain ⟨hsound, -⟩ := hr s.task (.inr rfl)
  cases h with
  | @stays flow s' h hf =>
    obtain ⟨hc', hr', hid⟩ := h.orderly hc hr
    cases flow with
    | goOn => exact ⟨hc', rank, hr'⟩
    | finished v =>
      refine Running.orderly_completeWith rank hc' hr' (fun w hw => ?_) nofun
      cases hw
      rw [h.scheduler, hid]
      exact hf
    | yielded => exact Scheduler.Orderly.yield ⟨hc', rank, hr'⟩
    | suspended => exact hf.elim
  | @trapped t s' h ht =>
    obtain ⟨hc', hr', -⟩ := h.orderly hc hr
    cases t with
    | fault f => exact ⟨ht, Running.orderly_failWith rank hc' hr' ht⟩
    | lost type => trivial
  | @spawns frame s' hf h =>
    obtain ⟨rank', hr', hnew, hold⟩ := hr.spawn hc hf
    have hK : ∀ id, s.scheduler.Below rank (rank s.task.id) id ∨ id = s.scheduler.tasks.size →
        (s.scheduler.spawn frame).2.Below rank' (rank' s.task.id) id := by
      rintro id (hid | rfl)
      · refine ⟨?_, hold id hid.1 hid.2⟩
        rw [Scheduler.size_spawn]
        exact Nat.lt_succ_of_lt hid.1
      · refine ⟨?_, hnew⟩
        rw [Scheduler.size_spawn]
        exact Nat.lt_succ_self _
    obtain ⟨hc'', hr'', -⟩ := (h.mono hK).orderly (hc.spawn frame) hr'
    exact ⟨hc'', rank', hr''⟩
  | @waits id target s' hid ht hcomp h =>
    have hc' := hc.change h.task_eq
    have hr' := hr.change h.task_eq (.inl (by rw [h.task])) h.owns
    have hsid : s'.task.id = s.task.id := by rw [h.task]
    have := Scheduler.Orderly.suspend hc' hr' ht (by simpa [Task.isCompleted] using hcomp)
      (hsid ▸ hid.2)
    change (s'.scheduler.putBack _).Orderly none
    rw [h.scheduler]
    change ((s.scheduler.addWaiter s.task.id id).putBack _).Orderly none
    rw [← hsid]
    exact this
  | @redeems id target v s' hid ht hv h =>
    obtain ⟨htarget, -⟩ := hr target (.inl (hc.id_eq ht ▸ ht))
    have hwithin := htarget.value v (.inr hv)
    rw [hc.id_eq ht] at hwithin
    have hsize := Scheduler.size_modifyTask s.scheduler id fun t => { t with observed := true }
    have hK : ∀ i, s.scheduler.Below rank (rank s.task.id) i ∨ i ∈ v.handles →
        (s.scheduler.modifyTask id fun t => { t with observed := true }).Below rank
          (rank s.task.id) i := by
      rintro i (hi | hi)
      · rw [Scheduler.below_of_size hsize]
        exact hi
      · rw [Scheduler.below_of_size hsize]
        exact ⟨(hwithin i hi).1, Nat.lt_trans (hwithin i hi).2 hid.2⟩
    obtain ⟨hc', hr', -⟩ := (h.mono hK).orderly (hc.observe id) (hr.observe id)
    exact ⟨hc', rank, hr'⟩
  | @relays id target f g s' hid ht hf hg h =>
    obtain ⟨htarget, -⟩ := hr target (.inl (hc.id_eq ht ▸ ht))
    have hplain : g.Plain := by
      rw [Fault.Plain, hg]
      exact htarget.fault f (.inr hf)
    have hsize := Scheduler.size_modifyTask s.scheduler id fun t => { t with observed := true }
    rw [← Scheduler.below_of_size hsize] at h
    obtain ⟨hc', hr', -⟩ := h.orderly (hc.observe id) (hr.observe id)
    exact ⟨hplain, Running.orderly_failWith rank hc' hr' hplain⟩
  | @forgets id target t s' hid ht hp h =>
    have hsize := Scheduler.size_modifyTask s.scheduler id fun t => { t with observed := true }
    rw [← Scheduler.below_of_size hsize] at h
    obtain ⟨hc', hr', -⟩ := h.orderly (hc.observe id) (hr.observe id)
    cases t with
    | fault f => exact ⟨hp, Running.orderly_failWith rank hc' hr' hp⟩
    | lost type => trivial

theorem orderly_next (hp : p.ForwardsHandles) {s : Running} (h : (busy s).Orderly) :
    OrderlyAfter p (Exec.next p s) := by
  obtain ⟨hc, rank, hr⟩ := h
  obtain ⟨hsound, -⟩ := hr s.task (.inr rfl)
  exact orderly_effect hc hr (Exec.effect_next (hp.answersWithin _) hsound.owns fun id hid =>
    hid.other hc)

theorem plain_of_orderly (hp : p.ForwardsHandles) {a : Running} (h : (busy a).Orderly) {f : Fault}
    {b : Running} (hs : Exec.next p a = .error (.fault f) b) : f.Plain := by
  have := orderly_next hp h
  rw [hs] at this
  exact this.1

theorem orderly_step (hp : p.ForwardsHandles) (h : s.Orderly) (hs : s.step p = .ok s') :
    s'.Orderly := by
  cases s with
  | idle m => exact orderly_takeTurn h hs
  | busy s =>
    have := orderly_next hp h
    rw [MachineState.step] at hs
    split at hs <;> rename_i hn <;> rw [hn] at this <;> cases hs
    · exact this
    · exact this
    · exact this
    · exact this
    · exact this.2

/-- An orderly machine that has settled has no ready task. -/
theorem Orderly.ready_eq_nil {m : Machine} (h : (idle m).Orderly)
    (hn : m.scheduler.next? = none) : m.scheduler.ready = [] := by
  cases hready : m.scheduler.ready with
  | nil => rfl
  | cons i rest =>
    obtain ⟨t, ht, -⟩ := h.consistent.mem_ready.1 (by rw [hready]; exact List.mem_cons_self ..)
    rw [Scheduler.next?_cons hready ht] at hn
    cases hn

/-- Without ready tasks, the whole table is completed tasks with plain outcomes. -/
theorem Orderly.completed_of_ready_eq_nil {m : Machine} (h : (idle m).Orderly)
    (hr : m.scheduler.ready = []) {i : Nat} (hi : i < m.scheduler.tasks.size) :
    ∃ t o, m.scheduler.get? i = some t ∧ t.state = .completed ∧ t.result = some o ∧
      ∀ f, o = .error f → f.Plain := by
  have hc : m.scheduler.Consistent none := h.consistent
  obtain ⟨t, ht⟩ := Option.isSome_iff_exists.1 <|
    (hc.present hi).resolve_right fun ⟨_, hrun, _⟩ => nomatch hrun
  have hs := Scheduler.Orderly.all_completed h hr ht
  obtain ⟨-, o, ho⟩ := hc.completed ht hs
  obtain ⟨rank, hrank⟩ := h.ranked
  obtain ⟨hsound, -⟩ := hrank t (.inl (hc.id_eq ht ▸ ht))
  refine ⟨t, o, ht, hs, ho, ?_⟩
  rintro f rfl
  exact hsound.fault f (.inr ho)

end MachineState

theorem Module.forwardsHandles_of_link {m : Module} {r : Registry} {config : MachineConfig}
    {p : Linked} (hr : ∀ b ∈ r.entries, b.ForwardsHandles) (h : m.link r config = .ok p) :
    p.ForwardsHandles :=
  fun b hb => hr b (Module.mem_builtins_of_link h hb)

namespace Linked

variable {p : Linked}

theorem within_entry {name : String} {frame : Frame} (h : p.entry name = .ok frame)
    (K : Nat → Prop) : frame.Within K := by
  obtain ⟨id, f, -, -, -, hf⟩ := entry_ok h
  exact (Frame.each_enter hf (by simp) (by simp)).2

theorem orderly_of_reaches (hp : p.ForwardsHandles) {name : String} {frame : Frame}
    (h : p.entry name = .ok frame) {m : Machine} {s : MachineState}
    (hs : (startState m frame).Reaches p s) : s.Orderly :=
  hs.preserves (fun _ _ ha hb => MachineState.orderly_step hp ha hb)
    (Scheduler.orderly_start (within_entry h))

/-- Whatever code a module has and whichever way its tasks hand their handles around, waiting
never closes a circle. -/
theorem deadlock_free {m : Module} {r : Registry} {config : MachineConfig} {p : Linked}
    (hr : ∀ b ∈ r.entries, b.ForwardsHandles) (hp : m.link r config = .ok p) (name : String)
    (start : Machine) :
    (∀ frame, p.entry name = .ok frame → ∀ s, (startState start frame).Reaches p s →
      (∀ m, s = .idle m → m.scheduler.ready = [] → ∀ id < m.scheduler.tasks.size,
        ∃ t, m.scheduler.get? id = some t ∧ t.state = .completed) ∧
      ∀ a f b, s = .busy a → Exec.next p a = .error (.fault f) b →
        f.cause ≠ .malformed .awaitsItself ∧ ∀ id, f.cause ≠ .malformed (.noTask id)) ∧
    ∀ steps f m, p.run steps name start = (.outcome (.error f), m) → f.cause ≠ .deadlock := by
  have hf := Module.forwardsHandles_of_link hr hp
  refine ⟨fun frame hframe s hs => ⟨?_, ?_⟩, ?_⟩
  · rintro m rfl hready id hid
    obtain ⟨t, o, ht, hst, -⟩ :=
      (orderly_of_reaches hf hframe hs).completed_of_ready_eq_nil hready hid
    exact ⟨t, ht, hst⟩
  · rintro a f b rfl hn
    have hplain := MachineState.plain_of_orderly hf (orderly_of_reaches hf hframe hs) hn
    constructor
    · intro hc
      rw [Fault.Plain, hc] at hplain
      cases hplain
    · intro id hc
      rw [Fault.Plain, hc] at hplain
      cases hplain
  · intro steps f m hrun hc
    rcases run_cases hrun with ⟨g, hg, he, -⟩ | ⟨frame, hframe, h⟩
    · cases he
      rcases entry_error hg with h | ⟨n, h⟩ | ⟨e, h⟩ <;> rw [hc] at h <;> cases h
    · rcases h with ⟨he, -⟩ | ⟨halt, hr, ⟨type, -, he⟩ | ⟨rfl, he⟩⟩
      · cases he
      · cases he
      · obtain ⟨s, hs, hstep⟩ := MachineState.reaches_of_run hr
        obtain ⟨rfl, hn⟩ := MachineState.step_settled hstep
        have horderly := orderly_of_reaches hf hframe hs
        obtain ⟨t, o, ht, -, ho, hplain⟩ := horderly.completed_of_ready_eq_nil
          (horderly.ready_eq_nil hn) horderly.consistent.started
        rw [ht, Option.bind_some, ho, Option.getD_some] at he
        cases he
        have hfault := hplain f rfl
        rw [Fault.Plain, hc] at hfault
        cases hfault

/-- Its main task awaits another one through a box. -/
def awaitsChild : Module where
  functions := #[
    ⟨"main", 0, 0, #[], [], false, [], #[.spawn 1 0, .box, .await, .ret], #[], #[]⟩,
    ⟨"child", 0, 0, #[], [], true, [], #[.yieldNow, .const 0, .ret], #[.int 7], #[]⟩]
  structs := #[]
  natives := #["print"]
  source := none

theorem link_awaitsChild :
    awaitsChild.link .standard .default = .ok ⟨awaitsChild, #[Builtin.print], .default⟩ := by
  simp [Module.link, awaitsChild]
  rfl

theorem awaitsChild_not_deadlocked :
    (run ⟨awaitsChild, #[Builtin.print], .default⟩ 12 "main" .empty).1 ≠
      .outcome (.error (.of .deadlock)) := fun h =>
  (deadlock_free Registry.forwardsHandles_standard link_awaitsChild "main" .empty).2 12 _ _
    (Prod.ext h rfl) rfl

end Linked

end ScopedScript
