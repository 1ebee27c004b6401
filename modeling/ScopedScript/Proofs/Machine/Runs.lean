import Mathlib
import ScopedScript.Machine.Run

/-!
# States of a run

A run goes through the machine states that its first state reaches, and ends in the one that takes
no further step. What every step preserves holds in all of them.
-/

namespace ScopedScript

namespace MachineState

variable {p : Linked} {s s' : MachineState}

def Steps (p : Linked) (s s' : MachineState) : Prop := step p s = .ok s'

/-- Finitely many steps lead from one state to the other. -/
def Reaches (p : Linked) : MachineState → MachineState → Prop := Relation.ReflTransGen (Steps p)

theorem Reaches.refl (s : MachineState) : Reaches p s s := Relation.ReflTransGen.refl

theorem Reaches.step {s'' : MachineState} (h : Reaches p s s') (hs : step p s' = .ok s'') :
    Reaches p s s'' := Relation.ReflTransGen.tail h hs

theorem Reaches.preserves {I : MachineState → Prop}
    (hI : ∀ a b, I a → MachineState.step p a = .ok b → I b) (h : Reaches p s s') (hs : I s) :
    I s' := by
  induction h with
  | refl => exact hs
  | tail _ hstep ih => exact hI _ _ ih hstep

/-- A run that ends has reached a state without a step. -/
theorem reaches_of_run {n : Nat} {halt : Halt} {m : Machine}
    (h : run p n s = some (halt, m)) : ∃ s', Reaches p s s' ∧
    MachineState.step p s' = .error (halt, m) := by
  induction n generalizing s with
  | zero => cases h
  | succ n ih =>
    rw [run] at h
    split at h
    · rename_i s₁ hs
      obtain ⟨s', hr, he⟩ := ih h
      exact ⟨s', Relation.ReflTransGen.head hs hr, he⟩
    · rename_i halted hs
      cases h
      exact ⟨s, .refl s, hs⟩

theorem takeTurn_error {m m' : Machine} {halt : Halt} (h : takeTurn p m = .error (halt, m')) :
    halt = .settled ∧ m' = m ∧ m.scheduler.next? = none := by
  unfold takeTurn at h
  split at h
  · cases h
    exact ⟨rfl, rfl, ‹_›⟩
  · split at h <;> cases h

/-- A machine settles when no task runs and none is ready. -/
theorem step_settled {m : Machine} (h : MachineState.step p s = .error (.settled, m)) :
    s = .idle m ∧ m.scheduler.next? = none := by
  cases s with
  | idle m' =>
    obtain ⟨-, rfl, hn⟩ := takeTurn_error h
    exact ⟨rfl, hn⟩
  | busy s =>
    rw [MachineState.step] at h
    split at h <;> cases h

end MachineState

namespace Machine

variable {p : Linked} {m : Machine} {function : Nat} {kind : ReleaseKind} {slots : List Nat}

@[simp]
theorem scheduler_record : (m.record p function kind slots).scheduler = m.scheduler := by
  unfold record
  split <;> rfl

/-- Releasing what is live in all frames of a task is no matter of the scheduler. -/
theorem scheduler_unwind (frames : List Frame) (m : Machine) :
    (frames.foldl (fun m frame =>
      m.record p frame.function .unwind frame.bindings.exitAll.2) m).scheduler = m.scheduler := by
  induction frames generalizing m with
  | nil => rfl
  | cons frame rest ih => rw [List.foldl_cons, ih, scheduler_record]

@[simp]
theorem output_record : (m.record p function kind slots).output = m.output := by
  unfold record
  split <;> rfl

end Machine

namespace Linked

variable {p : Linked}

/-- The state in which a run starts the task of its entry function. -/
def startState (m : Machine) (frame : Frame) : MachineState :=
  .idle { m with scheduler := (Scheduler.empty.spawn frame).2 }

theorem entry_ok {name : String} {frame : Frame} (h : p.entry name = .ok frame) :
    ∃ id f, p.module.functionId? name = some id ∧ p.module.functions[id]? = some f ∧ f.arity = 0 ∧
      Frame.enter id f [] [] 0 false = .ok frame := by
  unfold entry at h
  split at h
  · cases h
  · rename_i id hid
    split at h
    · cases h
    · rename_i f hf
      split at h
      · cases h
      · split at h
        · cases h
          exact ⟨id, f, hid, hf, by omega, ‹_›⟩
        · cases h

theorem entry_error {name : String} {f : Fault} (h : p.entry name = .error f) :
    f.cause = .unknownEntry name ∨ (∃ n, f.cause = .entryArity name n) ∨
      ∃ e, f.cause = .malformed (.slot e) := by
  unfold entry at h
  split at h
  · cases h
    exact .inl rfl
  · split at h
    · cases h
      exact .inl rfl
    · split at h
      · cases h
        exact .inr (.inl ⟨_, rfl⟩)
      · split at h
        · cases h
        · cases h
          exact .inr (.inr ⟨_, rfl⟩)

/-- How a run ends: without a task, or in a state that its entry function reaches. -/
theorem run_cases {n : Nat} {name : String} {m m' : Machine} {e : RunEnd}
    (h : p.run n name m = (e, m')) :
    (∃ f, p.entry name = .error f ∧ e = .outcome (.error f) ∧ m' = m) ∨
    ∃ frame, p.entry name = .ok frame ∧
      ((e = .outOfSteps ∧ m' = m) ∨
        ∃ halt, (startState m frame).run p n = some (halt, m') ∧
          ((∃ type, halt = .lost type ∧ e = .lost type) ∨
            halt = .settled ∧ e = .outcome
              (((m'.scheduler.get? 0).bind Task.result).getD (.error (.of .deadlock))))) := by
  unfold run at h
  split at h
  · rename_i f hf
    cases h
    exact .inl ⟨f, hf, rfl, rfl⟩
  · rename_i frame hframe
    refine .inr ⟨frame, hframe, ?_⟩
    dsimp only at h
    split at h
    · cases h
      exact .inl ⟨rfl, rfl⟩
    · rename_i type m₁ hr
      cases h
      exact .inr ⟨_, hr, .inl ⟨type, rfl, rfl⟩⟩
    · rename_i m₁ hr
      refine .inr ⟨.settled, ?_⟩
      have hzero : (Scheduler.empty.spawn frame).1 = 0 := rfl
      rw [hzero] at h
      split at h <;> rename_i ho
      · cases h
        exact ⟨hr, .inr ⟨rfl, by rw [ho]; rfl⟩⟩
      · cases h
        exact ⟨hr, .inr ⟨rfl, by rw [ho]; rfl⟩⟩

end Linked

theorem Except.getElem?_mapM {f : α → Except ε β} {xs : List α} {ys : List β}
    (h : xs.mapM f = .ok ys) :
    ys.length = xs.length ∧ ∀ (i : Nat) (x : α), xs[i]? = some x →
    ∃ y, ys[i]? = some y ∧ f x = .ok y := by
  induction xs generalizing ys with
  | nil =>
    cases h
    exact ⟨rfl, nofun⟩
  | cons x xs ih =>
    rw [List.mapM_cons] at h
    cases hx : f x with
    | error e =>
      rw [hx] at h
      cases h
    | ok y =>
      rw [hx] at h
      cases hxs : xs.mapM f with
      | error e =>
        rw [hxs] at h
        cases h
      | ok zs =>
        rw [hxs] at h
        cases h
        obtain ⟨hlen, hget⟩ := ih hxs
        refine ⟨by simp [hlen], fun i w hw => ?_⟩
        cases i with
        | zero =>
          cases hw
          exact ⟨y, rfl, hx⟩
        | succ i => exact hget i w hw

/-- Linking keeps the module and takes the built-ins from the registry. -/
theorem Module.link_ok {m : Module} {r : Registry} {config : MachineConfig} {p : Linked}
    (h : m.link r config = .ok p) :
    p.module = m ∧ p.config = config ∧ p.builtins.size = m.natives.size ∧
      ∀ (i : Nat) (name : String), m.natives[i]? = some name →
        ∃ b, p.builtins[i]? = some b ∧ r.find? name = some b := by
  unfold link at h
  rw [Array.mapM_eq_mapM_toList] at h
  generalize hm : List.mapM (_ : String → Except Fault Builtin) m.natives.toList = found at h
  cases found with
  | error e => cases h
  | ok builtins =>
    cases h
    obtain ⟨hlen, hget⟩ := Except.getElem?_mapM hm
    refine ⟨rfl, rfl, by simpa using hlen, fun i name hname => ?_⟩
    obtain ⟨b, hb, hf⟩ := hget i name (by simpa using hname)
    refine ⟨b, by simpa using hb, ?_⟩
    split at hf
    · cases hf
      assumption
    · cases hf

/-- What a linked module can call is registered. -/
theorem Module.mem_builtins_of_link {m : Module} {r : Registry} {config : MachineConfig}
    {p : Linked} (h : m.link r config = .ok p) {b : Builtin} (hb : b ∈ p.builtins) :
    b ∈ r.entries := by
  obtain ⟨-, -, hsize, hget⟩ := link_ok h
  obtain ⟨i, hi, rfl⟩ := Array.getElem_of_mem hb
  obtain ⟨b, hb, hf⟩ := hget i m.natives[i] (Array.getElem?_eq_getElem (hsize ▸ hi))
  rw [Array.getElem?_eq_getElem hi] at hb
  cases hb
  exact List.mem_of_find?_eq_some hf

end ScopedScript
