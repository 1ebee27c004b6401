import ScopedScript.Proofs.Machine.Raising
import ScopedScript.Proofs.Machine.Runs

/-!
# Which runs are lost

Every instruction answers or raises a fault, whatever module it belongs to, with one exception: the
lookup of a field by name in a value of a struct type that the module does not have. A run is lost
exactly when it comes to such an instruction.
-/

namespace ScopedScript

/-- The next instruction of the running task looks a field up in a struct of a type that the module
does not have. -/
def Running.Strays (p : Linked) (s : Running) (type : Nat) : Prop :=
  p.module.structs[type]? = none ∧ ∃ frame callers f name v rest fields,
    s.task.frames = frame :: callers ∧ p.module.functions[frame.function]? = some f ∧
      f.code[frame.ip]? = some (.getFieldDynamic name) ∧
        s.task.stack = v :: rest ∧ v.unboxed = .struct type fields

namespace Exec

variable {p : Linked} {s s' : Running} {type : Nat}

/-- Every instruction but one raises faults only. -/
theorem faults_step {f : FunctionCode} {i : Instr} (hi : ∀ name, i ≠ .getFieldDynamic name) :
    Raises (fun t => ∃ g, t = .fault g) (step p f i) :=
  Admits.step ⟨fun _ _ => ⟨_, rfl⟩, fun _ _ => ⟨_, rfl⟩⟩ (fun _ _ => ⟨_, rfl⟩) (fun _ _ => ⟨_, rfl⟩)
    fun name hname => absurd hname (hi name)

theorem located_eq_lost {t : Trap} {span : Option Span} {name : String} :
    t.located span name = .lost type ↔ t = .lost type := by
  cases t <;> simp [Trap.located]

theorem adaptExcept_located_lost {x : Exec α} {span : Option Span} {name : String} :
    EStateM.adaptExcept (fun t : Trap => t.located span name) x s = .error (.lost type) s' ↔
      x s = .error (.lost type) s' := by
  unfold EStateM.adaptExcept
  cases x s <;> simp [located_eq_lost]

theorem step_getFieldDynamic_lost {f : FunctionCode} {name : String}
    (h : step p f (.getFieldDynamic name) s = .error (.lost type) s') :
    p.module.structs[type]? = none ∧
      ∃ v rest fields, s.task.stack = v :: rest ∧ v.unboxed = .struct type fields := by
  cases hstack : s.task.stack with
  | nil =>
    simp [step, goOn_apply, bind_apply, pop, get_apply, hstack, malformed, fail_apply] at h
  | cons v rest =>
    rw [step, goOn_pop hstack, push_getFieldDynamic (p := p)] at h
    unfold Reaction.ofFieldDynamic at h
    split at h
    · rename_i type' fields hv
      split at h
      · cases h
        exact ⟨‹_›, v, rest, fields, rfl, hv⟩
      · split at h
        · cases h
        · split at h <;> cases h
    · cases h

theorem exists_next_lost (h : s.Strays p type) : ∃ s', next p s = .error (.lost type) s' := by
  obtain ⟨hnone, frame, callers, f, name, v, rest, fields, hframes, hf, hi, hstack, hv⟩ := h
  have hreact : (Instr.getFieldDynamic name).react? p f frame.captures [v] =
      some ("", .lost type) := by
    simp [Instr.react?, Reaction.ofFieldDynamic, hv, hnone]
  rw [next_apply hframes hf hi]
  have hstep := step_react (s := s.withFrames ({ frame with ip := frame.ip + 1 } :: callers)) rfl
    hreact rfl hstack
  exact ⟨_, adaptExcept_located_lost.2 hstep⟩

/-- An instruction loses the run exactly when it looks up a field of a struct that is not there. -/
theorem next_lost_iff : (∃ s', next p s = .error (.lost type) s') ↔ s.Strays p type := by
  refine ⟨fun ⟨s', h⟩ => ?_, exists_next_lost⟩
  cases hframes : s.task.frames with
  | nil => simp [next, bind_apply, get_apply, hframes, malformed, fail_apply] at h
  | cons frame callers =>
    cases hf : p.module.functions[frame.function]? with
    | none =>
      simp [next, bind_apply, get_apply, hframes, functionCode_apply, hf, malformed,
        fail_apply] at h
    | some f =>
      cases hi : f.code[frame.ip]? with
      | none =>
        simp [next, bind_apply, get_apply, hframes, functionCode_apply, hf, hi, malformed,
          fail_apply] at h
      | some i =>
        rw [next_apply hframes hf hi, adaptExcept_located_lost] at h
        by_cases hfield : ∃ name, i = .getFieldDynamic name
        · obtain ⟨name, rfl⟩ := hfield
          obtain ⟨hnone, v, rest, fields, hstack, hv⟩ := step_getFieldDynamic_lost h
          exact ⟨hnone, frame, callers, f, name, v, rest, fields, hframes, hf, hi, hstack, hv⟩
        · obtain ⟨g, hg⟩ := (faults_step fun name hname => hfield ⟨name, hname⟩).error h
          cases hg

end Exec

namespace MachineState

variable {p : Linked} {s s' : MachineState} {type : Nat}

theorem step_lost_iff :
    (∃ m, MachineState.step p s = .error (.lost type, m)) ↔ ∃ r, s = .busy r ∧ r.Strays p type := by
  simp only [← Exec.next_lost_iff]
  cases s with
  | idle m =>
    constructor
    · rintro ⟨m', h⟩
      cases (takeTurn_error h).1
    · rintro ⟨r, hr, -⟩
      cases hr
  | busy r =>
    simp only [busy.injEq, exists_eq_left', MachineState.step]
    cases Exec.next p r with
    | ok flow r' => cases flow <;> simp
    | error t r' => cases t <;> simp

/-- What a state reaches, it comes to in finitely many steps. -/
theorem Reaches.run_eq (h : Reaches p s s') {n : Nat} {halted : Halt × Machine}
    (hrun : run p n s' = some halted) : ∃ k, run p k s = some halted := by
  induction h using Relation.ReflTransGen.head_induction_on with
  | refl => exact ⟨n, hrun⟩
  | head hstep _ ih =>
    obtain ⟨k, hk⟩ := ih
    refine ⟨k + 1, ?_⟩
    rw [run, show MachineState.step p _ = .ok _ from hstep]
    exact hk

end MachineState

namespace Linked

open MachineState

variable {p : Linked} {name : String} {m : Machine} {type : Nat}

/-- A run is lost exactly when it comes to a lookup of a field of a struct that is not there. -/
theorem run_lost_iff : (∃ n m', p.run n name m = (.lost type, m')) ↔
    ∃ frame s, p.entry name = .ok frame ∧ Reaches p (startState m frame) (.busy s) ∧
      s.Strays p type := by
  constructor
  · rintro ⟨n, m', h⟩
    obtain ⟨f, -, he, -⟩ | ⟨frame, hframe, ⟨he, -⟩ | ⟨halt, hrun, ⟨type', rfl, he⟩ | ⟨-, he⟩⟩⟩ :=
      run_cases h
    · cases he
    · cases he
    · cases he
      obtain ⟨s', hreach, hstep⟩ := reaches_of_run hrun
      obtain ⟨s, rfl, hs⟩ := step_lost_iff.1 ⟨m', hstep⟩
      exact ⟨frame, s, hframe, hreach, hs⟩
    · cases he
  · rintro ⟨frame, s, hframe, hreach, hs⟩
    obtain ⟨m', hstep⟩ := step_lost_iff.2 ⟨s, rfl, hs⟩
    have hone : MachineState.run p 1 (.busy s) = some (.lost type, m') := by
      rw [MachineState.run, hstep]
    obtain ⟨n, hrun⟩ := hreach.run_eq hone
    rw [startState] at hrun
    refine ⟨n, m', ?_⟩
    rw [Linked.run, hframe]
    simp only [hrun]

/-- Code that looks no field up by name is never lost, whatever else is wrong with it. -/
theorem run_ne_lost
    (h : ∀ f ∈ p.module.functions, ∀ i ∈ f.code, ∀ name, i ≠ .getFieldDynamic name)
    {n : Nat} {m' : Machine} : p.run n name m ≠ (.lost type, m') := by
  intro hrun
  obtain ⟨-, s, -, -, -, frame, -, f, field, -, -, -, -, hf, hi, -⟩ := run_lost_iff.1 ⟨n, m', hrun⟩
  exact h f (Array.mem_of_getElem? hf) _ (Array.mem_of_getElem? hi) field rfl

end Linked

end ScopedScript
