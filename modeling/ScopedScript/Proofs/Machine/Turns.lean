import ScopedScript.Proofs.Machine.Deadlock
import ScopedScript.Proofs.Machine.FrameSteps
import ScopedScript.Proofs.Machine.Rebinding

/-!
# Turns

What one step does to the table of tasks, whatever the code: it resumes a task, lets the running
task work on its own, start a task or ask for an outcome, or ends the turn. Which tasks are queued
up by it and which is resumed is read off the state before it.
-/

namespace ScopedScript

namespace Exec

/-- What an instruction of the running task may do to the table of tasks. The task itself keeps all
but its frames and operands. -/
inductive Tends (s : Running) : EStateM.Result Trap Running Flow → Prop
  | alone {flow : Flow} {s' : Running} (hflow : flow ≠ .suspended)
    (ht : s'.task = { s.task with frames := s'.task.frames, stack := s'.task.stack })
    (hs : s.scheduler.Attends s'.scheduler) : Tends s (.ok flow s')
  | spawns {frame : Frame} {s' : Running}
    (ht : s'.task = { s.task with frames := s'.task.frames, stack := s'.task.stack })
    (hs : s'.scheduler = (s.scheduler.spawn frame).2) : Tends s (.ok .goOn s')
  | waits {id : Nat} {target : Task} {s' : Running} (hid : s.scheduler.get? id = some target)
    (hc : target.state ≠ .completed)
    (ht : s'.task = { s.task with frames := s'.task.frames, stack := s'.task.stack })
    (hs : s'.scheduler = s.scheduler.addWaiter s.task.id id) : Tends s (.ok .suspended s')
  | trapped {t : Trap} {s' : Running}
    (ht : s'.task = { s.task with frames := s'.task.frames, stack := s'.task.stack })
    (hs : s.scheduler.Attends s'.scheduler) : Tends s (.error t s')

variable {p : Linked} {s : Running}

theorem not_isCompleted {t : Task} (h : t.isCompleted = false) : t.state ≠ .completed := by
  intro hs
  rw [Task.isCompleted, hs] at h
  cases h

/-- Which handles the task has does not matter here. -/
theorem Effect.tends {K : Nat → Prop} {r : EStateM.Result Trap Running Flow} (h : Effect s K r) :
    Tends s r := by
  cases h with
  | stays h hf =>
    refine .alone ?_ h.task (h.scheduler ▸ .same)
    rintro rfl
    exact hf
  | trapped h _ => exact .trapped h.task (h.scheduler ▸ .same)
  | spawns _ h => exact .spawns h.task h.scheduler
  | waits _ ht hc h => exact .waits ht (not_isCompleted hc) h.task h.scheduler
  | redeems _ _ _ h => exact .alone Flow.noConfusion h.task (h.scheduler ▸ .observes _)
  | relays _ _ _ _ h | forgets _ _ _ h => exact .trapped h.task (h.scheduler ▸ .observes _)

/-- No matter whose handle it is that is awaited. -/
theorem tends_await (f : FunctionCode) : Tends s (step p f .await s) := by
  cases hstack : s.task.stack with
  | nil =>
    rw [step, await, bind_apply, pop, bind_apply, get_apply]
    simp only [hstack]
    exact .trapped rfl .same
  | cons v rest =>
    rw [step_await hstack]
    split
    · split
      · exact .trapped rfl .same
      · split
        · exact .trapped rfl .same
        · rename_i target ht
          dsimp only
          split
          · split
            · exact .alone Flow.noConfusion rfl (.observes _)
            · exact .trapped rfl (.observes _)
            · exact .trapped rfl (.observes _)
          · rename_i hc
            exact .waits ht (not_isCompleted (Bool.eq_false_iff.2 hc)) rfl rfl
    · exact .trapped rfl .same

theorem tends_step (p : Linked) (f : FunctionCode) (i : Instr) (s : Running) :
    Tends s (step p f i s) := by
  have here : Local s (fun _ => True) s :=
    ⟨rfl, rfl, fun _ _ => ⟨fun _ _ _ _ => trivial, fun _ _ _ _ _ => trivial⟩,
      fun _ _ _ _ => trivial⟩
  by_cases hm : movesTasks i = false
  · exact (Effect.of_triple (keeps_step p.answersWithin_all f hm) here).tends
  · cases i with
    | spawn function args => exact (effect_spawn p function args here).tends
    | await => exact tends_await f
    | _ => exact absurd rfl hm

theorem Tends.located {x : Exec Flow} {s' : Running} (h : Tends s (x s')) (span : Option Span)
    (name : String) :
    Tends s (EStateM.adaptExcept (fun t : Trap => t.located span name) x s') := by
  unfold EStateM.adaptExcept
  cases hx : x s' with
  | ok flow s'' =>
    rw [hx] at h
    exact h
  | error t s'' =>
    rw [hx] at h
    cases h with
    | trapped ht hs => exact .trapped ht hs

/-- The frames that the task had before do not matter. -/
theorem Tends.of_frames {frames : List Frame} {r : EStateM.Result Trap Running Flow}
    (h : Tends (s.withFrames frames) r) : Tends s r := by
  cases h with
  | alone hflow ht hs => exact .alone hflow ht hs
  | spawns ht hs => exact .spawns ht hs
  | waits hid hc ht hs => exact .waits hid hc ht hs
  | trapped ht hs => exact .trapped ht hs

theorem tends_next (p : Linked) (s : Running) : Tends s (next p s) := by
  cases hs : s.task.frames with
  | nil =>
    unfold next
    simp only [bind_apply, get_apply, hs]
    exact .trapped rfl .same
  | cons fr callers =>
    cases hf : p.module.functions[fr.function]? with
    | none =>
      unfold next
      simp only [bind_apply, get_apply, hs, functionCode_apply, hf]
      exact .trapped rfl .same
    | some f =>
      cases hi : f.code[fr.ip]? with
      | none =>
        unfold next
        simp only [bind_apply, get_apply, hs, functionCode_apply, hf, hi]
        exact .trapped rfl .same
      | some i =>
        rw [next_apply hs hf hi]
        exact ((tends_step p f i _).located _ _).of_frames

end Exec

namespace Scheduler

/-- The table after a task that ran has ended with an outcome. -/
def ended (s : Scheduler) (t : Task) (outcome : Outcome) : Scheduler :=
  (s.complete t outcome).2.putBack (s.complete t outcome).1

/-- What a step makes of the table and the task that runs: which task it resumes, and which it
queues up. -/
inductive TableStep : Scheduler → Option Task → List Nat → List Nat → Scheduler → Option Task → Prop
  | takes {s s' : Scheduler} {t t' : Task} (h : s.next? = some (t, s'))
    (ht : t' = { t with stack := t'.stack, resumeWith := none })
    (hr : t.resumeWith = none ∧ t'.stack = t.stack ∨
      ∃ v, t.resumeWith = some (.ok v) ∧ t'.stack = v :: t.stack) :
    TableStep s none [t.id] [] s' (some t')
  /-- A task that is handed a fault ends with it. -/
  | relays {s s' : Scheduler} {t : Task} {f : Fault} (h : s.next? = some (t, s'))
    (hr : t.resumeWith = some (.error f)) :
    TableStep s none [t.id] t.waiters (s'.ended { t with resumeWith := none } (.error f)) none
  | works {s s' : Scheduler} {t t' : Task}
    (ht : t' = { t with frames := t'.frames, stack := t'.stack }) (hs : s.Attends s') :
    TableStep s (some t) [] [] s' (some t')
  | spawns {s : Scheduler} {t t' : Task} (frame : Frame)
    (ht : t' = { t with frames := t'.frames, stack := t'.stack }) :
    TableStep s (some t) [] [s.tasks.size] (s.spawn frame).2 (some t')
  | yields {s s' : Scheduler} {t t' : Task}
    (ht : t' = { t with frames := t'.frames, stack := t'.stack }) (hs : s.Attends s') :
    TableStep s (some t) [] [t'.id] (s'.putBack { t' with state := .ready }) none
  | waits {s s' : Scheduler} {t t' target : Task} {id : Nat} (hid : s.get? id = some target)
    (hc : target.state ≠ .completed) (ht : t' = { t with frames := t'.frames, stack := t'.stack })
    (hs : s' = s.addWaiter t.id id) :
    TableStep s (some t) [] [] (s'.putBack { t' with state := .suspended }) none
  | ends {s s' : Scheduler} {t t' : Task} (outcome : Outcome)
    (ht : t' = { t with frames := t'.frames, stack := t'.stack }) (hs : s.Attends s') :
    TableStep s (some t) [] t'.waiters (s'.ended t' outcome) none

end Scheduler

theorem Running.scheduler_failWith (s : Running) (p : Linked) (f : Fault) :
    (s.failWith p f).scheduler = s.scheduler.ended s.task (.error f) := by
  rw [failWith, completeWith, Machine.scheduler_unwind]
  rfl

namespace MachineState

variable {p : Linked} {a b : MachineState}

/-- The task that runs, if one does. -/
def running : MachineState → Option Task
  | idle _ => none
  | busy s => some s.task

/-- The task whose turn the next step begins. -/
def resumed : MachineState → List Nat
  | idle m => (m.scheduler.next?.map fun next => next.1.id).toList
  | busy _ => []

/-- The tasks that the next step queues up: those that it starts, one that makes way for others, or
those that have waited for a task that ends. -/
def queued (p : Linked) : MachineState → List Nat
  | idle m =>
    match m.scheduler.next? with
    | some (t, _) =>
      match t.resumeWith with
      | some (.error _) => t.waiters
      | _ => []
    | none => []
  | busy s =>
    match Exec.next p s with
    | .ok .goOn s' =>
      List.range' s.scheduler.tasks.size (s'.scheduler.tasks.size - s.scheduler.tasks.size)
    | .ok .yielded s' => [s'.task.id]
    | .ok .suspended _ => []
    | .ok (.finished _) s' | .error (.fault _) s' => s'.task.waiters
    | .error (.lost _) _ => []

theorem size_attends {s s' : Scheduler} (h : s.Attends s') : s'.tasks.size = s.tasks.size := by
  cases h with
  | same => rfl
  | observes id => exact Scheduler.size_modifyTask ..

/-- What one step does to the table of tasks. -/
theorem table_step (h : a.step p = .ok b) :
    Scheduler.TableStep a.machine.scheduler a.running a.resumed (a.queued p) b.machine.scheduler
      b.running := by
  cases a with
  | idle m =>
    rw [step, takeTurn] at h
    split at h
    · cases h
    · rename_i t s' hn
      dsimp only at h
      simp only [resumed, queued, hn, Option.map_some, Option.toList_some]
      split at h <;> rename_i hr <;> cases h <;> simp only [hr]
      · exact .takes hn (by rw [← hr]) (.inl ⟨hr, rfl⟩)
      · exact .takes hn rfl (.inr ⟨_, hr, rfl⟩)
      · rename_i f
        have hs := Running.scheduler_failWith
          ⟨{ m with scheduler := s' }, { t with resumeWith := none }⟩ p f
        exact hs ▸ .relays hn hr
  | busy s =>
    have hn := Exec.tends_next p s
    rw [step] at h
    simp only [queued]
    cases hr : Exec.next p s with
    | ok flow s' =>
      rw [hr] at h hn
      cases hn with
      | alone hflow ht hs =>
        cases flow with
        | goOn =>
          cases h
          simp only [size_attends hs, Nat.sub_self, List.range'_zero]
          exact .works ht hs
        | finished v =>
          cases h
          exact .ends (.ok v) ht hs
        | yielded =>
          cases h
          exact .yields ht hs
        | suspended => exact absurd rfl hflow
      | spawns ht hs =>
        cases h
        simp only [hs, Scheduler.size_spawn, Nat.add_sub_cancel_left]
        exact hs ▸ .spawns _ ht
      | waits hid hc ht hs =>
        cases h
        exact .waits hid hc ht hs
    | error t s' =>
      rw [hr] at h hn
      cases hn with
      | trapped ht hs =>
        cases t with
        | lost type => cases h
        | fault f =>
          cases h
          have hf := s'.scheduler_failWith p f
          exact hf ▸ .ends (.error f) ht hs

end MachineState

end ScopedScript
