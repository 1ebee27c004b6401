import ScopedScript.Proofs.Compile.Heights
import ScopedScript.Proofs.Evaluation.Calls
import ScopedScript.Proofs.Machine.Turns

/-!
# Runs of compiled programs

A run of a compiled program that has nothing to do with tasks ends as the evaluation of its tree
does, or goes on for ever where no fuel is enough for the evaluation.
-/

namespace ScopedScript

open Evaluator

/-- A run ends like this where code does something that the compiler never lets it do. -/
def RunEnd.Internal (e : RunEnd) : Prop :=
  ∃ (f : Fault) (m : Malformed), e = .outcome (.error f) ∧ f.cause = .malformed m

/-! ## The only task of a run -/

/-- The task of an entry function, about to carry out its first instruction. -/
def Linked.begun (start : Machine) (first : Frame) : Running :=
  { start with scheduler := ⟨#[none], []⟩, task := { Task.start 0 first with state := .running } }

section

variable {p : Linked} {start : Machine} {first : Frame} {frames : List Frame} {stack : List Value}
  {written name : String} {s s' : Running} {n k : Nat}

theorem Linked.step_startState (p : Linked) (start : Machine) (first : Frame) :
    (startState start first).Steps p (.busy (begun start first)) := rfl

/-- When the only task has ended, so has the run. -/
theorem Running.Shows.completeWith (hs : (Linked.begun start first).Shows frames stack written s)
    (outcome : Outcome) : (MachineState.idle (s.completeWith outcome)).run p 1 =
        some (.settled, s.completeWith outcome) ∧
      RunEnd.ofHalt .settled (s.completeWith outcome) = .outcome outcome ∧
      (s.completeWith outcome).output = written := by
  have hended : (s.completeWith outcome).scheduler = s.scheduler.ended s.task outcome := rfl
  rw [hs.scheduler, hs.task] at hended
  refine ⟨MachineState.run_succ_of_error ?_, ?_, hs.output⟩
  · rw [MachineState.step, MachineState.takeTurn, hended]
    rfl
  · rw [RunEnd.ofHalt, hended]
    rfl

theorem Machine.output_unwind (frames : List Frame) (m : Machine) :
    (frames.foldl (fun m frame =>
      m.record p frame.function .unwind frame.bindings.exitAll.2) m).output = m.output := by
  induction frames generalizing m with
  | nil => rfl
  | cons frame rest ih => rw [List.foldl_cons, ih, output_record]

namespace Linked

/-- Where the only task comes to, the run ends as it does from there. -/
theorem endsWith_of_goes (hentry : p.entry name = .ok first) (h : (begun start first).Goes p n s)
    {halt : Halt} {m : Machine} (hrun : (MachineState.busy s).run p k = some (halt, m)) :
    p.EndsWith name start (.ofHalt halt m) m.output := by
  refine (endsWith_iff hentry).2 ⟨n + k + 1, halt, m, ?_, rfl, rfl⟩
  rw [MachineState.run_succ_of_steps (step_startState p start first), h.run k, hrun]

theorem endsWith_of_finished (hentry : p.entry name = .ok first)
    (h : (begun start first).Goes p n s) {v : Value} (hstep : Exec.next p s = .ok (.finished v) s')
    (hs : (begun start first).Shows frames stack written s') :
    p.EndsWith name start (.outcome (.ok v)) written := by
  obtain ⟨hrun, hend, hout⟩ := hs.completeWith (p := p) (.ok v)
  have h := endsWith_of_goes hentry h (k := 2) ((MachineState.run_succ_of_steps (by
    rw [MachineState.Steps, MachineState.step, hstep])).trans hrun)
  rwa [hend, hout] at h

theorem endsWith_of_fault (hentry : p.entry name = .ok first) (h : (begun start first).Goes p n s)
    {f : Fault} (hstep : Exec.next p s = .error (.fault f) s')
    (hs : (begun start first).Shows frames stack written s') :
    p.EndsWith name start (.outcome (.error f)) written := by
  let m := s'.task.frames.foldl
    (fun m frame => m.record p frame.function .unwind frame.bindings.exitAll.2) s'.toMachine
  have hs' : (begun start first).Shows frames stack written { s' with toMachine := m } :=
    ⟨hs.task, (Machine.scheduler_unwind _ _).trans hs.scheduler,
      (Machine.output_unwind _ _).trans hs.output⟩
  obtain ⟨hrun, hend, hout⟩ := hs'.completeWith (p := p) (.error f)
  have h := endsWith_of_goes hentry h (k := 2) ((MachineState.run_succ_of_steps (by
    rw [MachineState.Steps, MachineState.step, hstep]
    rfl)).trans hrun)
  rwa [hend, hout] at h

theorem endsWith_of_lost (hentry : p.entry name = .ok first) (h : (begun start first).Goes p n s)
    {type : Nat} (hstep : Exec.next p s = .error (.lost type) s')
    (hs : (begun start first).Shows frames stack written s') :
    p.EndsWith name start (.lost type) written := by
  have h := endsWith_of_goes hentry h (k := 1) (MachineState.run_succ_of_error (by
    rw [MachineState.step, hstep]))
  rwa [show s'.toMachine.output = written from hs.output] at h

theorem EndsWith.unique (hentry : p.entry name = .ok first) {e e' : RunEnd}
    {output output' : String} (h : p.EndsWith name start e output)
    (h' : p.EndsWith name start e' output') :
    e = e' ∧ output = output' := by
  obtain ⟨n, halt, k, hrun, rfl, rfl⟩ := (endsWith_iff hentry).1 h
  obtain ⟨n', halt', k', hrun', rfl, rfl⟩ := (endsWith_iff hentry).1 h'
  cases MachineState.run_unique hrun hrun'
  exact ⟨rfl, rfl⟩

theorem Diverges.not_endsWith {e : RunEnd} {output : String} (h : p.Diverges name start) :
    ¬ p.EndsWith name start e output := by
  rintro ⟨n, k, hrun, hne, -⟩
  have hn := h n
  rw [hrun] at hn
  exact hne hn

theorem run_outOfSteps (hentry : p.entry name = .ok first) (h : (begun start first).Goes p n s)
    (hk : k ≤ n) : (p.run k name start).1 = .outOfSteps := by
  have hnone : (startState start first).run p k = none := by
    cases k with
    | zero => rfl
    | succ k =>
      rw [MachineState.run_succ_of_steps (step_startState p start first)]
      exact h.run_none (Nat.le_of_succ_le hk)
  rw [run_of_entry hentry, hnone]

/-- What an evaluation of the entry function with so much fuel says of the run. -/
def Answers (p : Linked) (name : String) (start : Machine) (fuel : Nat) :
    EStateM.Result Stop String Value → Prop
  | .ok v written => p.EndsWith name start (.outcome (.ok v)) written
  | .error (.trap (.fault f)) written => p.EndsWith name start (.outcome (.error f)) written
  | .error (.trap (.lost type)) written => p.EndsWith name start (.lost type) written
  | .error .outOfFuel _ => (p.run fuel name start).1 = .outOfSteps
  | .error .misfit _ => ∃ e output, e.Internal ∧ p.EndsWith name start e output
  | .error .stuck _ => False

theorem answers_of_realizes {c : Seat} {r : EStateM.Result Stop String Value}
    (hentry : p.entry name = .ok first) (hexact : p.EntersExactly name start)
    (hc : p.module.functions[c.function]? = some c.code) (hcallers : c.callers = [])
    (hbox : c.box = false) (h : Realizes p (begun start first) n (begun start first)
      (c.Returns (begun start first) []) r) : p.Answers name start n r := by
  cases h with
  | @value k s v written h hq =>
    obtain ⟨s', hnext, hs'⟩ := hq.finish hc hcallers
    rw [hbox] at hnext
    exact endsWith_of_finished hentry h hnext hs'
  | @trap k s s' t written frames stack h ht hs =>
    cases t with
    | fault f => exact endsWith_of_fault hentry h ht hs
    | lost type => exact endsWith_of_lost hentry h ht hs
  | fuel h hk => exact run_outOfSteps hentry h hk
  | @misfit k s written h hm =>
    cases hm with
    | @enters s' hnext hs =>
      refine absurd (hexact first hentry _ _ ?_ (Running.step_of_next hnext)) hs
      exact .head (step_startState p start first) h.reaches
    | fails hnext hf hs => exact ⟨_, _, ⟨_, _, rfl, hf⟩, endsWith_of_fault hentry h hnext hs⟩

/-- The evaluation has an outcome, which is that of the run; or its fuel does not last, and neither
do so many steps; or the run ends in an internal fault. -/
theorem Answers.cases {w : Evaluator} {fuel : Nat}
    (h : p.Answers name start fuel (w.run fuel name start.output)) :
    (∃ e output, w.outcome? fuel name start.output = some (e, output) ∧
      p.EndsWith name start e output) ∨
      (w.Exhausts fuel name start.output ∧ (p.run fuel name start).1 = .outOfSteps) ∨
      ∃ e output, e.Internal ∧ p.EndsWith name start e output := by
  unfold outcome? Exhausts
  generalize w.run fuel name start.output = r at h
  match r, h with
  | .ok v written, h => exact .inl ⟨_, _, rfl, h⟩
  | .error (.trap (.fault f)) written, h => exact .inl ⟨_, _, rfl, h⟩
  | .error (.trap (.lost type)) written, h => exact .inl ⟨_, _, rfl, h⟩
  | .error .outOfFuel written, h => exact .inr (.inl ⟨⟨written, rfl⟩, h⟩)
  | .error .misfit written, h => exact .inr (.inr h)
  | .error .stuck written, h => exact h.elim

/-- The run ends as the evaluation does that has a value or is trapped, unless it ends in an
internal fault. It goes on for ever where the evaluation always runs out of fuel. -/
theorem ends_iff_of_answers {w : Evaluator} (hentry : p.entry name = .ok first)
    (h : ∀ fuel, p.Answers name start fuel (w.run fuel name start.output)) :
    (∀ e output, ¬ e.Internal →
      (p.EndsWith name start e output ↔ ∃ fuel,
        w.outcome? fuel name start.output = some (e, output))) ∧
      (p.Diverges name start ↔ ∀ fuel, w.Exhausts fuel name start.output) := by
  have hends {fuel : Nat} {e : RunEnd} {output : String}
      (he : w.outcome? fuel name start.output = some (e, output)) :
      p.EndsWith name start e output := by
    have h := h fuel
    unfold outcome? at he
    split at he <;> rename_i hr <;> rw [hr] at h <;> cases he <;> exact h
  constructor
  · intro e output he
    refine ⟨fun hend => ?_, fun ⟨fuel, hfuel⟩ => hends hfuel⟩
    -- as much fuel as the run takes steps
    obtain ⟨n, k, hrun, hne, -⟩ := id hend
    rcases (h n).cases with ⟨e', output', hout, hend'⟩ | ⟨-, hsteps⟩ | ⟨e', output',
      hinternal, hend'⟩
    · obtain ⟨rfl, rfl⟩ := hend.unique hentry hend'
      exact ⟨n, hout⟩
    · rw [hrun] at hsteps
      exact absurd hsteps hne
    · obtain ⟨rfl, -⟩ := hend.unique hentry hend'
      exact absurd hinternal he
  · refine ⟨fun hdiverges fuel => ?_, fun hexhausts n => ?_⟩
    · rcases (h fuel).cases with ⟨e, output, -, hend⟩ | ⟨hout, -⟩ | ⟨e, output, -, hend⟩
      · exact absurd hend hdiverges.not_endsWith
      · exact hout
      · exact absurd hend hdiverges.not_endsWith
    · obtain ⟨written, hout⟩ := hexhausts n
      have h := h n
      rw [hout] at h
      exact h

end Linked

end

/-! ## Entry functions -/

/-- The functions of a module have the names of the procedures. -/
theorem Tables.Numbered.functionId? {t : Tables} {p : TProgram} {m : Module} (h : t.Numbered p m)
    (name : String) : m.functionId? name = p.procedures.findIdx? fun q => q.name == name := by
  have hnames : m.functions.toList.map FunctionCode.name = p.procedures.map Procedure.name := by
    refine List.ext_getElem? fun i => ?_
    rw [List.getElem?_map, List.getElem?_map, Array.getElem?_toList]
    cases hq : p.procedures[i]? with
    | none =>
      rw [Array.getElem?_eq_none (h.size.trans_le (List.getElem?_eq_none_iff.1 hq))]
      rfl
    | some q =>
      obtain ⟨g, hg, -, hholds⟩ := h.procedure i q hq
      rw [hg, Option.map_some, Option.map_some, hholds.name]
  have hfind := congrArg (List.findIdx? fun n => n == name) hnames
  rw [List.findIdx?_map, List.findIdx?_map] at hfind
  rw [Module.functionId?, ← m.functions.toArray_toList, List.findIdx?_toArray]
  exact hfind

namespace Linked

section

variable {p : Linked} {typed : TProgram} {t : Tables} {name : String} {q : Procedure}

/-- A procedure that takes no arguments is an entry function, which starts out with no values in
scope. -/
theorem entry_of_procedure (ht : t.Numbered typed p.module)
    (hq : typed.procedures.find? (fun q => q.name == name) = some q)
    (hparams : q.body.params = []) :
    ∃ id g b, typed.procedures[id]? = some q ∧ p.module.functions[id]? = some g ∧
      Frame.enter id g [] [] 0 false = .ok ⟨id, 0, b, [], 0, false⟩ ∧
      p.entry name = .ok ⟨id, 0, b, [], 0, false⟩ := by
  obtain ⟨hname, id, hlt, rfl, hfirst⟩ := List.find?_eq_some_iff_getElem.1 hq
  have hget := List.getElem?_eq_getElem hlt
  have hid : p.module.functionId? name = some id := by
    rw [ht.functionId?]
    refine List.findIdx?_eq_some_iff_getElem.2 ⟨hlt, hname, fun j hj h => ?_⟩
    have := hfirst j hj
    rw [h] at this
    cases this
  obtain ⟨g, hg, -, hholds⟩ := ht.procedure id _ hget
  have hargs : ([] : List Value).length = typed.procedures[id].body.params.length := by
    rw [hparams]
    rfl
  obtain ⟨b, henter, -⟩ := Frame.models_enter hholds.body id [] 0 false hargs
  obtain ⟨_, -, hw⟩ := hholds.body
  refine ⟨id, g, b, hget, hg, henter, ?_⟩
  unfold entry
  simp only [hid, hg, henter, hw.arity, hparams, List.length_nil, ne_eq,
    not_true_eq_false, if_false]

end

/-- The compiler keeps the meaning of programs. When a program is accepted that has nothing to do
with tasks, a run of a procedure without parameters ends with a value or a fault, and has written a
text, just when the evaluation of the checked tree ends so and has written the text. It goes on for
ever just when no fuel is enough for the evaluation. Of runs that end in an internal fault nothing
is said, and in the run each frame has to be entered with as many arguments as its function has
parameters. -/
theorem meaning_preserved {p : Linked} {program : Program} {natives : List (String × Signature)}
    {typed : TProgram} (hcheck : program.check natives = .ok typed)
    (hcompile : typed.compile = .ok p.module) (hsequential : typed.Sequential) {name : String}
    {q : Procedure} (hq : typed.procedures.find? (fun q => q.name == name) = some q)
    (hparams : q.body.params = []) {start : Machine} (hexact : p.EntersExactly name start) :
    (∀ e output, ¬ e.Internal → (p.EndsWith name start e output ↔
      ∃ fuel, (Evaluator.mk p typed).outcome? fuel name start.output = some (e, output))) ∧
    (p.Diverges name start ↔ ∀ fuel, (Evaluator.mk p typed).Exhausts fuel name start.output) := by
  let w : Evaluator := ⟨p, typed⟩
  obtain ⟨t, ht⟩ := typed.compile_numbered hcompile hsequential.names
  obtain ⟨id, g, b, hproc, hg, henter, hentry⟩ := entry_of_procedure ht hq hparams
  let c : Seat := ⟨id, g, [], 0, false, []⟩
  let first : Frame := c.frame 0 b
  refine ends_iff_of_answers (w := w) hentry fun fuel => ?_
  have hcall := undertakes_call (w := w) (o := begun start first) ht hsequential
    (Program.check_looped hcheck) (Program.check_received hcheck) fuel
  have hstands : c.Stands (begun start first) 0 b [] start.output (begun start first) :=
    ⟨rfl, rfl, rfl⟩
  have hrun := hcall c q [] b [] start.output _ hproc hg (by rw [hparams]; rfl) henter hstands
  have heq : w.run fuel name start.output = w.call fuel q [] [] 1 start.output := by
    rw [Evaluator.run, show w.program = typed from rfl, hq, known_bind]
  rw [heq]
  exact answers_of_realizes hentry hexact hg rfl rfl hrun

/-- A call between the operands of an operator is evaluated, and so the machine comes to the sum. -/
theorem addsOne_preserved :
    Linked.EndsWith ⟨compiledAddsOne, #[], .default⟩ "main" .empty
      (.outcome (.ok (.int 2))) "" := by
  let p : Linked := ⟨compiledAddsOne, #[], .default⟩
  have hexact : p.EntersExactly "main" .empty := by
    intro first hfirst
    have hentry : p.entry "main" = .ok ⟨0, 0, ⟨#[], [[]]⟩, [], 0, false⟩ := by cbv
    rw [hentry] at hfirst
    cases hfirst
    -- the task takes its turn and pushes an operand, then the function is entered
    refine .of_step rfl (fun task => ?turn) (.of_step rfl (fun task => ?operand) (.head rfl ?call
      (.of_step rfl (fun task => ?constant)
        (.of_step rfl (fun task => ?back) (.of_step rfl (fun task => ?sum)
        (.of_step rfl (fun task => ?ends) (MachineState.alwaysEntersExactly_of_halt rfl)))))))
    case call =>
      intro task depth fr hnone hsome
      cases task with
      | succ task => cases hsome
      | zero =>
        rcases depth with _ | _ | depth
        · cases hnone
        · cases hsome
          exact ⟨_, [], [], 1, false, rfl, rfl, rfl⟩
        · cases hsome
    all_goals
      cases task with
      | zero => first | exact Nat.le_refl _ | exact Nat.le_succ _
      | succ task => exact Nat.le_refl 0
  have hfloats : checkedAddsOne.floats = [] := rfl
  have hsequential : checkedAddsOne.Sequential := ⟨by decide, rfl, by simp [hfloats]⟩
  have hq : checkedAddsOne.procedures.find? (fun q => q.name == "main") =
      some checkedAddsOne.procedures[0] := rfl
  obtain ⟨hends, -⟩ :=
    meaning_preserved (p := p) check_addsOne compile_addsOne hsequential hq rfl hexact
  have hvalue : (Evaluator.mk p checkedAddsOne).outcome? 3 "main" "" =
      some (.outcome (.ok (.int 2)), "") := by
    cbv
  have hinternal : ¬ (RunEnd.outcome (.ok (.int 2))).Internal := by
    rintro ⟨_, _, h, -⟩
    cases h
  exact (hends _ _ hinternal).2 ⟨3, hvalue⟩

end Linked

end ScopedScript
