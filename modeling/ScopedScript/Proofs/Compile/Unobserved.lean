import ScopedScript.Proofs.Compile.BareCompiled
import ScopedScript.Proofs.Compile.BareSteps
import ScopedScript.Proofs.Compile.UseAfterFree
import ScopedScript.Proofs.Typing.BareChecked

/-!
# Early releases are not observed

A run of a program and one of its bare form go side by side: each step of the first that is not a
`free` is one step of the second, and a `free` takes the first alone further. As the code in which a
`free` stands is finite, neither run can leave the other behind, so both end in the same way or not
at all.
-/

namespace ScopedScript

/-- The frame has been entered with as many arguments as its function has parameters. -/
def Frame.EnteredExactly (p : Linked) (fr : Frame) : Prop :=
  ∃ f args captures base box, p.module.functions[fr.function]? = some f ∧ args.length = f.arity ∧
    Frame.enter fr.function f args captures base box = .ok fr

theorem Frame.EnteredExactly.entered {p : Linked} {fr : Frame} (h : fr.EnteredExactly p) :
    fr.Entered p := by
  obtain ⟨f, args, captures, base, box, hf, -, he⟩ := h
  exact ⟨f, args, captures, base, box, hf, he⟩

/-- Where a frame of bare code was entered as one was that it keeps, it has got as many arguments.
-/
theorem Frame.EnteredExactly.kept {p : Linked} {fr fr' : Frame} (h : fr.EnteredExactly p)
    (hk : fr.Kept p.module fr') (h' : fr'.Entered p.bare) : fr'.EnteredExactly p.bare := by
  obtain ⟨f, args, captures, base, box, hf, hargs, he⟩ := h
  obtain ⟨f', args', captures', base', box', hf', he'⟩ := h'
  have hfunction : fr'.function = fr.function := by rw [hk.rest]
  rw [Linked.module_bare, Module.functions_bare, hfunction, hf] at hf'
  cases hf'
  refine ⟨f.bare, args', captures', base', box', ?_, ?_, he'⟩
  · rw [Linked.module_bare, Module.functions_bare, hfunction, hf]
    rfl
  · -- both have declared the slots of their arguments
    have hscopes := hk.bindings.scopes
    rw [(Frame.fresh_enter he).2.2, (Frame.fresh_enter he').2.2] at hscopes
    have hlength := congrArg (fun scopes : List (List Nat) => scopes.flatten.length) hscopes
    simp only [List.flatten_cons, List.flatten_nil, List.append_nil, List.length_reverse,
      List.length_range] at hlength
    exact hlength.trans hargs

/-! ## Frames of compiled code -/

/-- The frame is at an address that control comes to, and what it needs from there on is there. -/
def Frame.Sound (p : Linked) (fr : Frame) : Prop :=
  ∃ f l, p.module.functions[fr.function]? = some f ∧ f.Arrives fr.ip l ∧ ∀ n,
    Safe f n fr.ip fr.bindings

theorem Frame.Sound.step {p : Linked} {fr fr' : Frame} {es : List BindingEvent} (h : fr.Sound p)
    (hs : FrameStep p (some fr) es (some fr')) : fr'.Sound p := by
  cases hs with
  | stays => exact h
  | @moves _ g i _ b ip hg hi hb hip =>
    obtain ⟨f, l, hf, harrives, hsafe⟩ := h
    rw [hf] at hg
    cases hg
    have hret : i ≠ .ret := by
      rintro rfl
      cases hb with
      | same _ h => cases h
    refine ⟨_, _, hf, harrives.next hi ⟨hret, hip⟩, fun n => ?_⟩
    exact (hsafe (n + 1) i hi).2 _ b ip hb hip

section

variable {p : Linked} {program : Program} {natives : List (String × Signature)} {typed : TProgram}

theorem Frame.EnteredExactly.sound (hcheck : program.check natives = .ok typed)
    (hcompile : typed.compile = .ok p.module) {fr : Frame} (h : fr.EnteredExactly p) :
    fr.Sound p := by
  obtain ⟨f, args, captures, base, box, hf, hargs, he⟩ := h
  obtain ⟨t, ht⟩ := typed.compile_ok hcompile
  obtain ⟨body, hbody, hcode⟩ := ht.body_of_function hf
  refine ⟨f, ⟨0, 1⟩, hf, ?_, fun n => ?_⟩
  · rw [(Frame.enter_place he).2]
    exact .start
  · rw [(Frame.enter_place he).2]
    exact safe_body hcode (Program.check_looped hcheck body hbody) (mirrors_enter hcode hargs he) n

end

/-! ## States of runs -/

namespace MachineState

variable {p : Linked} {a a' b b' : MachineState}

/-- The frames that the step adds have got as many arguments as their functions have parameters. -/
def EntersExactly (p : Linked) (a b : MachineState) : Prop :=
  ∀ task depth fr, a.frameAt task depth = none → b.frameAt task depth = some fr →
    fr.EnteredExactly p

/-- Every task is where it belongs, and so is every frame. -/
structure Sound (p : Linked) (a : MachineState) : Prop where
  tidy : a.Tidy p
  frames : ∀ task depth fr, a.frameAt task depth = some fr → fr.Sound p

theorem Sound.step {program : Program} {natives : List (String × Signature)} {typed : TProgram}
    (hcheck : program.check natives = .ok typed) (hcompile : typed.compile = .ok p.module)
    (h : a.Sound p) (hs : a.Steps p b) (hnew : EntersExactly p a b) : b.Sound p := by
  have hadv := advance_step h.tidy hs
  refine ⟨hadv.tidy, fun task depth fr hfr => ?_⟩
  have hframe := hadv.frames task depth
  cases ha : a.frameAt task depth with
  | none => exact (hnew task depth fr ha hfr).sound hcheck hcompile
  | some old =>
    rw [ha, hfr] at hframe
    exact (h.frames task depth old ha).step hframe

theorem frameAt_innermost {s : Running} {fr : Frame} {callers : List Frame}
    (hs : s.task.frames = fr :: callers) : (busy s).frameAt s.task.id callers.length = some fr := by
  rw [frameAt, framesOf, if_pos rfl, hs, getElem?_reverse_cons, if_pos rfl]

theorem Kept.framesOf {m : Module} (h : Kept m a a') (task : Nat) :
    List.Forall₂ (Frame.Kept m) (a.framesOf task) (a'.framesOf task) := by
  have htable {s s' : Scheduler} (h : s.Kept m s') :
      List.Forall₂ (Frame.Kept m) (s.framesOf task) (s'.framesOf task) := by
    have ht := h.tasks task
    unfold Scheduler.framesOf
    generalize s.get? task = o, s'.get? task = o' at ht
    cases ht with
    | none => exact .nil
    | some ht => exact ht.frames
  cases h with
  | idle h => exact htable h.scheduler
  | busy h =>
    rw [MachineState.framesOf, MachineState.framesOf, h.task.id_eq]
    split
    · exact h.task.frames
    · exact htable h.machine.scheduler

theorem Kept.frameAt {m : Module} (h : Kept m a a') (task depth : Nat) :
    Option.Rel (Frame.Kept m) (a.frameAt task depth) (a'.frameAt task depth) := by
  have hget {frames frames' : List Frame} (h : List.Forall₂ (Frame.Kept m) frames frames')
      (i : Nat) : Option.Rel (Frame.Kept m) frames[i]? frames'[i]? := by
    induction h generalizing i with
    | nil => exact .none
    | cons hfr _ ih =>
      cases i with
      | zero => exact .some hfr
      | succ i => exact ih i
  exact hget (List.forall₂_reverse_iff.2 (h.framesOf task)) depth

/-- What a step adds in bare code is entered as exactly as what it adds in the code itself. -/
theorem EntersExactly.kept (ha : Kept p.module a a') (hb : Kept p.module b b') (ht : a'.Tidy p.bare)
    (hs : a'.Steps p.bare b') (h : EntersExactly p a b) : EntersExactly p.bare a' b' := by
  intro task depth fr' hnone hsome
  have hframe := (advance_step ht hs).frames task depth
  have hat := ha.frameAt task depth
  have hbt := hb.frameAt task depth
  rw [hnone] at hframe hat
  rw [hsome] at hframe hbt
  generalize eventsAt (a'.events p.bare) task depth = es at hframe
  generalize ho : a.frameAt task depth = o at hat
  generalize hn : b.frameAt task depth = n at hbt
  cases hat
  cases hbt with
  | some hfr =>
    cases hframe with
    | enters hentered => exact (h task depth _ ho hn).kept hfr hentered

/-- A state of the run of a program and one of the run of its bare form. -/
structure Paired (p : Linked) (a a' : MachineState) : Prop where
  kept : Kept p.module a a'
  sound : a.Sound p
  sound' : a'.Sound p.bare

/-- How much of the code of the innermost frame is left. -/
def rank (p : Linked) : MachineState → Nat
  | idle _ => 0
  | busy s =>
    match s.task.frames with
    | [] => 0
    | fr :: _ => ((p.module.functions[fr.function]?).map fun f => f.code.size - fr.ip).getD 0

/-- How the two runs go on: the first by a `free`, which comes nearer to the end of the code, or
both in the same way. -/
inductive Progress (p : Linked) (a a' : MachineState) : Prop
  | free (b : MachineState) (hs : a.Steps p b) (h : Kept p.module b a') (hr : b.rank p < a.rank p)
  | both (h : Ends p.module (MachineState.step p a) (MachineState.step p.bare a'))

theorem Paired.progress (hdisciplined : ∀ (id : Nat) (f : FunctionCode),
      p.module.functions[id]? = some f → f.Disciplined) (hp : ∀ b ∈ p.builtins, b.IgnoresCode)
    (h : Paired p a a') : Progress p a a' := by
  obtain ⟨hkept, hsound, hsound'⟩ := h
  cases hkept with
  | idle h => exact .both (ends_takeTurn h)
  | @busy s s' h =>
    cases hs : s.task.frames with
    | nil =>
      have hs' : s'.task.frames = [] := by
        have := h.task.frames
        rw [hs] at this
        cases hf : s'.task.frames with
        | nil => rfl
        | cons fr callers =>
          rw [hf] at this
          cases this
      refine .both ?_
      rw [step_noFrame hs, step_noFrame hs']
      exact .ok (.idle (h.failWith _))
    | cons fr callers =>
      obtain ⟨f, l, hf, harrives, hsafe⟩ := hsound.frames _ _ fr (frameAt_innermost hs)
      have hlt := (hdisciplined _ _ hf).inside _ _ harrives
      obtain ⟨i, hi⟩ : ∃ i, f.code[fr.ip]? = some i := ⟨_, Array.getElem?_eq_getElem hlt⟩
      have hmeets := (hsafe 1 i hi).1
      cases hstays : i.stays with
      | true =>
        obtain ⟨fr', callers', hs', hfr, -⟩ := Exec.kept_innermost h hs
        obtain ⟨f', -, hf', -, hsafe'⟩ := hsound'.frames _ _ fr' (frameAt_innermost hs')
        have hfunction : fr'.function = fr.function := by rw [hfr.rest]
        rw [Linked.module_bare, Module.functions_bare, hfunction, hf] at hf'
        cases hf'
        have hi' : f.bare.code[fr'.ip]? = some (i.retarget f.bareAddress) := by
          rw [hfr.address f hf]
          exact FunctionCode.code_bare hi hstays
        have hmeets' : i.Meets fr'.bindings := by
          have := (hsafe' 1 _ hi').1
          cases i <;> exact this
        exact .both (ends_busy (Exec.ends_next hp h hs hs' hf (hdisciplined _ _ hf).spans hi hstays
          hmeets hmeets'))
      | false =>
        obtain ⟨slot, rfl⟩ : ∃ slot, i = .free slot := by
          cases i <;> first | exact ⟨_, rfl⟩ | cases hstays
        obtain ⟨t, hn, ht, bindings, hframes⟩ := Exec.next_free h hs hf hi hmeets
        refine .free (.busy t) ?_ (.busy ht) ?_
        · rw [Steps, MachineState.step, hn]
        · simp only [rank, hs, hframes, hf, Option.map_some, Option.getD_some]
          omega

theorem run_succ_of_steps {n : Nat} (hs : a.Steps p b) : run p (n + 1) a = run p n b := by
  rw [run, show MachineState.step p a = .ok b from hs]

theorem run_succ_of_error {n : Nat} {halted : Halt × Machine}
    (hs : MachineState.step p a = .error halted) : run p (n + 1) a = some halted := by
  rw [run, hs]

/-- More steps do not change how a run ends. -/
theorem run_unique {n n' : Nat} {r r' : Halt × Machine} (h : run p n a = some r)
    (h' : run p n' a = some r') : r = r' := by
  induction n generalizing a n' with
  | zero => cases h
  | succ n ih =>
    cases n' with
    | zero => cases h'
    | succ n' =>
      cases hs : MachineState.step p a with
      | ok b =>
        rw [run_succ_of_steps hs] at h h'
        exact ih h h'
      | error halted =>
        rw [run_succ_of_error hs] at h h'
        cases h
        cases h'
        rfl

/-- All steps from the state on add frames with as many arguments as their functions have
parameters. -/
def AlwaysEntersExactly (p : Linked) (a : MachineState) : Prop :=
  ∀ b c, a.Reaches p b → b.Steps p c → EntersExactly p b c

theorem AlwaysEntersExactly.step (h : AlwaysEntersExactly p a) (hs : a.Steps p b) :
    AlwaysEntersExactly p b :=
  fun c d hc hd => h c d (Relation.ReflTransGen.head hs hc) hd

theorem alwaysEntersExactly_of_halt {halted : Halt × Machine}
    (hs : MachineState.step p a = .error halted) : AlwaysEntersExactly p a := by
  intro b c hb hc
  have hstuck : b = a := by
    rcases Relation.ReflTransGen.cases_head hb with rfl | ⟨d, hd, -⟩
    · rfl
    · rw [Steps, hs] at hd
      cases hd
  rw [hstuck, Steps, hs] at hc
  cases hc

/-- One step, and all steps after it. -/
theorem AlwaysEntersExactly.head (hs : a.Steps p b) (hnew : EntersExactly p a b)
    (h : AlwaysEntersExactly p b) : AlwaysEntersExactly p a := by
  intro c d hc hd
  rcases Relation.ReflTransGen.cases_head hc with rfl | ⟨e, he, hce⟩
  · rw [Steps, hs] at hd
    cases hd
    exact hnew
  · rw [Steps, hs] at he
    cases he
    exact h c d hce hd

/-- A step that adds no frame. -/
theorem AlwaysEntersExactly.of_step (hs : a.Steps p b)
    (hlength : ∀ task, (b.framesOf task).length ≤ (a.framesOf task).length)
    (h : AlwaysEntersExactly p b) : AlwaysEntersExactly p a := by
  refine .head hs (fun task depth fr hnone hsome => ?_) h
  rw [MachineState.frameAt, List.getElem?_eq_none_iff, List.length_reverse] at hnone
  rw [MachineState.frameAt, List.getElem?_eq_none
    (by rw [List.length_reverse]; exact (hlength task).trans hnone)] at hsome
  cases hsome

section

variable {program : Program} {natives : List (String × Signature)} {typed : TProgram}
  (hcheck : program.check natives = .ok typed) (hcompile : typed.compile = .ok p.module)
  (hp : ∀ b ∈ p.builtins, b.IgnoresCode)

include hcheck hcompile

theorem Paired.free (h : Paired p a a') (hs : a.Steps p b) (hk : Kept p.module b a')
    (hnew : AlwaysEntersExactly p a) : Paired p b a' :=
  ⟨hk, h.sound.step hcheck hcompile hs (hnew a b (.refl a) hs), h.sound'⟩

theorem Paired.both (h : Paired p a a') (hs : a.Steps p b) (hs' : a'.Steps p.bare b')
    (hk : Kept p.module b b') (hnew : AlwaysEntersExactly p a) : Paired p b b' := by
  have hexact := hnew a b (.refl a) hs
  refine ⟨hk, h.sound.step hcheck hcompile hs hexact, ?_⟩
  exact h.sound'.step (Program.check_bare hcheck)
    (TProgram.compile_bare (Program.check_looped hcheck) hcompile) hs'
    (hexact.kept h.kept hk h.sound'.tidy hs')

include hp

/-- When the first run ends, so does the second, in the same way. -/
theorem Paired.run (h : Paired p a a') (hnew : AlwaysEntersExactly p a) {n : Nat} {halt : Halt}
    {k : Machine} (hrun : MachineState.run p n a = some (halt, k)) :
    ∃ n' k', MachineState.run p.bare n' a' = some (halt, k') ∧ k.Kept p.module k' := by
  induction n generalizing a a' with
  | zero => cases hrun
  | succ n ih =>
    cases h.progress (fun _ _ => TProgram.disciplined_compile hcheck hcompile) hp with
    | free b hs hk _ =>
      rw [run_succ_of_steps hs] at hrun
      exact ih (h.free hcheck hcompile hs hk hnew) (hnew.step hs) hrun
    | both hends =>
      generalize hs : MachineState.step p a = r, hs' : MachineState.step p.bare a' = r' at hends
      cases hends with
      | ok hk =>
        rw [run_succ_of_steps hs] at hrun
        obtain ⟨n', k', hrun', hk'⟩ :=
          ih (h.both hcheck hcompile hs hs' hk hnew) (hnew.step hs) hrun
        exact ⟨n' + 1, k', (run_succ_of_steps hs').trans hrun', hk'⟩
      | error halt hk =>
        rw [run_succ_of_error hs] at hrun
        cases hrun
        exact ⟨1, _, run_succ_of_error hs', hk⟩

/-- When the first run goes on for ever, so does the second: between two of its steps, the first
comes to the end of the `free` instructions before it. -/
theorem Paired.endless (h : Paired p a a') (hnew : AlwaysEntersExactly p a)
    (hrun : ∀ n, MachineState.run p n a = none) (n' : Nat) :
    MachineState.run p.bare n' a' = none := by
  induction n' generalizing a a' with
  | zero => rfl
  | succ n' ih =>
    induction hr : a.rank p using Nat.strong_induction_on generalizing a with
    | _ r ihr =>
      cases h.progress (fun _ _ => TProgram.disciplined_compile hcheck hcompile) hp with
      | free b hs hk hlt =>
        have hrun' (n : Nat) : MachineState.run p n b = none :=
          (run_succ_of_steps hs).symm.trans (hrun (n + 1))
        exact ihr _ (hr ▸ hlt) (h.free hcheck hcompile hs hk hnew) (hnew.step hs) hrun' rfl
      | both hends =>
        generalize hs : MachineState.step p a = r, hs' : MachineState.step p.bare a' = r' at hends
        cases hends with
        | ok hk =>
          have hrun' (n : Nat) : MachineState.run p n _ = none :=
            (run_succ_of_steps hs).symm.trans (hrun (n + 1))
          rw [run_succ_of_steps hs']
          exact ih (h.both hcheck hcompile hs hs' hk hnew) (hnew.step hs) hrun'
        | error halt hk =>
          have := hrun 1
          rw [run_succ_of_error hs] at this
          cases this

end

end MachineState

/-! ## Runs -/

/-- How a run ends that halts with this machine. -/
def RunEnd.ofHalt (halt : Halt) (k : Machine) : RunEnd :=
  match halt with
  | .lost type => .lost type
  | .settled => .outcome (((k.scheduler.get? 0).bind Task.result).getD (.error (.of .deadlock)))

theorem RunEnd.ofHalt_ne (halt : Halt) (k : Machine) : ofHalt halt k ≠ .outOfSteps := by
  cases halt <;> exact fun h => by cases h

theorem RunEnd.ofHalt_kept {m : Module} {k k' : Machine} (h : k.Kept m k') (halt : Halt) :
    ofHalt halt k' = ofHalt halt k := by
  cases halt with
  | lost type => rfl
  | settled =>
    have hresult : (k'.scheduler.get? 0).bind Task.result =
        (k.scheduler.get? 0).bind Task.result := by
      have ht := h.scheduler.tasks 0
      generalize k.scheduler.get? 0 = o, k'.scheduler.get? 0 = o' at ht
      cases ht with
      | none => rfl
      | some ht => exact ht.result_eq
    rw [ofHalt, ofHalt, hresult]

namespace Linked

variable {p : Linked} {name : String} {start : Machine} {first : Frame}

/-- Given enough steps, the run of an entry function ends like this and has written this. -/
def EndsWith (p : Linked) (name : String) (start : Machine) (e : RunEnd) (output : String) : Prop :=
  ∃ n k, p.run n name start = (e, k) ∧ e ≠ .outOfSteps ∧ k.output = output

/-- The run of an entry function does not end, however many steps it is given. -/
def Diverges (p : Linked) (name : String) (start : Machine) : Prop :=
  ∀ n, (p.run n name start).1 = .outOfSteps

/-- In the run of an entry function each frame is entered with as many arguments as its function has
parameters. -/
def EntersExactly (p : Linked) (name : String) (start : Machine) : Prop :=
  ∀ first, p.entry name = .ok first → MachineState.AlwaysEntersExactly p (startState start first)

theorem run_of_entry_error {f : Fault} (h : p.entry name = .error f) (n : Nat) :
    p.run n name start = (.outcome (.error f), start) := by
  rw [run, h]

theorem run_of_entry (h : p.entry name = .ok first) (n : Nat) : p.run n name start =
    match (startState start first).run p n with
    | none => (.outOfSteps, start)
    | some (halt, k) => (.ofHalt halt k, k) := by
  rw [run, h, startState]
  dsimp only
  rw [show (Scheduler.empty.spawn first).1 = 0 from rfl]
  generalize MachineState.run p n _ = r
  cases r with
  | none => rfl
  | some halted =>
    obtain ⟨halt, k⟩ := halted
    cases halt with
    | lost type => rfl
    | settled =>
      dsimp only [RunEnd.ofHalt]
      cases (k.scheduler.get? 0).bind Task.result <;> rfl

theorem endsWith_iff (h : p.entry name = .ok first) {e : RunEnd} {output : String} :
    p.EndsWith name start e output ↔ ∃ n halt k, (startState start first).run p n = some (halt, k) ∧
      RunEnd.ofHalt halt k = e ∧ k.output = output := by
  constructor
  · rintro ⟨n, k, hrun, hne, hout⟩
    rw [run_of_entry h] at hrun
    cases hr : (startState start first).run p n with
    | none =>
      rw [hr] at hrun
      cases hrun
      exact absurd rfl hne
    | some halted =>
      obtain ⟨halt, k'⟩ := halted
      rw [hr] at hrun
      cases hrun
      exact ⟨n, halt, _, hr, rfl, hout⟩
  · rintro ⟨n, halt, k, hrun, rfl, hout⟩
    refine ⟨n, k, ?_, RunEnd.ofHalt_ne halt k, hout⟩
    rw [run_of_entry h, hrun]

theorem diverges_iff (h : p.entry name = .ok first) :
    p.Diverges name start ↔ ∀ n, (startState start first).run p n = none := by
  refine forall_congr' fun n => ?_
  rw [run_of_entry h]
  cases (startState start first).run p n with
  | none => exact ⟨fun _ => rfl, fun _ => rfl⟩
  | some halted =>
    obtain ⟨halt, k⟩ := halted
    exact ⟨fun h => absurd h (RunEnd.ofHalt_ne halt k), fun h => by cases h⟩

theorem entry_bare (p : Linked) (name : String) : p.bare.entry name = p.entry name := by
  unfold entry
  rw [module_bare, Module.functionId?_bare]
  cases p.module.functionId? name with
  | none => rfl
  | some id =>
    dsimp only
    rw [Module.functions_bare]
    cases p.module.functions[id]? <;> rfl

section

variable {program : Program} {natives : List (String × Signature)} {typed : TProgram}
  (hcheck : program.check natives = .ok typed) (hcompile : typed.compile = .ok p.module)

include hcheck hcompile

theorem sound_startState (hentry : p.entry name = .ok first) (start : Machine) :
    (startState start first).Sound p := by
  refine ⟨tidy_startState (entered_entry hentry) start, fun task depth fr hfr => ?_⟩
  have hframes : (startState start first).framesOf task = if task = 0 then [first] else [] :=
    Scheduler.framesOf_spawn Scheduler.empty first task
  have hexact : first.EnteredExactly p := by
    obtain ⟨id, f, -, hf, harity, he⟩ := entry_ok hentry
    have hid := (Frame.enter_place he).1
    exact ⟨f, [], [], 0, false, hid ▸ hf, harity.symm, hid ▸ he⟩
  rw [MachineState.frameAt, hframes] at hfr
  split at hfr
  · have hmem := List.mem_of_getElem? hfr
    rw [List.mem_reverse, List.mem_singleton] at hmem
    rw [hmem]
    exact hexact.sound hcheck hcompile
  · simp at hfr

theorem paired_startState (hentry : p.entry name = .ok first) (start : Machine) :
    MachineState.Paired p (startState start first) (startState start first) := by
  have hentry' : p.bare.entry name = .ok first := (entry_bare p name).trans hentry
  refine ⟨.idle ⟨?_, rfl⟩, sound_startState hcheck hcompile hentry start, ?_⟩
  · obtain ⟨id, f, -, -, -, he⟩ := entry_ok hentry
    have hempty : Scheduler.Kept p.module .empty .empty := ⟨rfl, rfl, fun _ => .none⟩
    exact (hempty.spawn (Exec.kept_enter he)).2
  · exact sound_startState (Program.check_bare hcheck)
      (TProgram.compile_bare (Program.check_looped hcheck) hcompile) hentry' start

/-- Runs of a linked program and of its bare form end in the same way or not at all. -/
theorem runs_bare (hp : ∀ b ∈ p.builtins, b.IgnoresCode) (hexact : p.EntersExactly name start) :
    (∀ e output, p.EndsWith name start e output ↔ p.bare.EndsWith name start e output) ∧
      (p.Diverges name start ↔ p.bare.Diverges name start) := by
  cases hentry : p.entry name with
  | error f =>
    have hentry' : p.bare.entry name = .error f := (entry_bare p name).trans hentry
    constructor
    · intro e output
      simp only [EndsWith, run_of_entry_error hentry, run_of_entry_error hentry']
    · simp only [Diverges, run_of_entry_error hentry, run_of_entry_error hentry']
  | ok first =>
    have hentry' : p.bare.entry name = .ok first := (entry_bare p name).trans hentry
    have hpaired := paired_startState hcheck hcompile hentry start
    have hnew := hexact first hentry
    have hends {n : Nat} {halt : Halt} {k : Machine}
        (hrun : (startState start first).run p n = some (halt, k)) :=
      hpaired.run hcheck hcompile hp hnew hrun
    have hendless := hpaired.endless hcheck hcompile hp hnew
    constructor
    · intro e output
      rw [endsWith_iff hentry, endsWith_iff hentry']
      constructor
      · rintro ⟨n, halt, k, hrun, rfl, rfl⟩
        obtain ⟨n', k', hrun', hk⟩ := hends hrun
        exact ⟨n', halt, k', hrun', RunEnd.ofHalt_kept hk halt, hk.output⟩
      · rintro ⟨n', halt', k', hrun', rfl, rfl⟩
        -- the first run cannot go on for ever, since the second ends
        by_cases hsome : ∃ n r, (startState start first).run p n = some r
        · obtain ⟨n, ⟨halt, k⟩, hrun⟩ := hsome
          obtain ⟨n'', k'', hrun'', hk⟩ := hends hrun
          cases MachineState.run_unique hrun' hrun''
          exact ⟨n, _, k, hrun, (RunEnd.ofHalt_kept hk _).symm, hk.output.symm⟩
        · push Not at hsome
          have := hendless (fun n => Option.eq_none_iff_forall_not_mem.2 fun r => hsome n r) n'
          rw [hrun'] at this
          cases this
    · rw [diverges_iff hentry, diverges_iff hentry']
      refine ⟨hendless, fun hrun' n => ?_⟩
      cases hrun : (startState start first).run p n with
      | none => rfl
      | some r =>
        obtain ⟨n', k', hrun'', -⟩ := hends hrun
        rw [hrun'] at hrun''
        cases hrun''

end

end Linked

/-- The bare form of a module names the same built-ins. -/
theorem Module.link_bare (m : Module) (r : Registry) (config : MachineConfig) :
    m.bare.link r config = (m.link r config).map Linked.bare := by
  have hm : m.bare.natives = m.natives := rfl
  unfold link
  rw [hm]
  cases m.natives.mapM (m := Except Fault) _ <;> rfl

namespace Program

/-- `free` and `collect` are not observed. The program without them is accepted as well, links where
the program does, and runs to the same outcome with the same output, or for ever where the program
does, in every run of the program in which frames are entered with as many arguments as their
functions have parameters. The built-ins of the host must not look at the code of the module. -/
theorem releases_unobserved {program : Program} {natives : List (String × Signature)}
    {typed : TProgram} {m : Module} (hcheck : program.check natives = .ok typed)
    (hcompile : typed.compile = .ok m) :
    program.bare.check natives = .ok typed.bare ∧ typed.bare.compile = .ok m.bare ∧
      ∀ (r : Registry) (config : MachineConfig), (∀ b ∈ r.entries, b.IgnoresCode) →
        (∀ f, m.link r config = .error f ↔ m.bare.link r config = .error f) ∧
        ∀ p, m.link r config = .ok p → ∃ p', m.bare.link r config = .ok p' ∧
          ∀ name start, p.EntersExactly name start →
            (∀ e output, p.EndsWith name start e output ↔ p'.EndsWith name start e output) ∧
              (p.Diverges name start ↔ p'.Diverges name start) := by
  refine ⟨check_bare hcheck, TProgram.compile_bare (check_looped hcheck) hcompile,
    fun r config hr => ⟨fun f => ?_, fun p hlink => ⟨p.bare, ?_, fun name start hexact => ?_⟩⟩⟩
  · rw [Module.link_bare]
    cases m.link r config with
    | error g => exact Iff.rfl
    | ok p => exact ⟨nofun, nofun⟩
  · rw [Module.link_bare, hlink]
    rfl
  · have hmodule := (Module.link_ok hlink).1
    rw [← hmodule] at hcompile
    exact Linked.runs_bare hcheck hcompile
      (fun b hb => hr b (Module.mem_builtins_of_link hlink hb)) hexact

/-- A binding is freed, and then not. -/
theorem freesOnce_unobserved :
    ∃ p', Linked.compiledFreesOnce.bare.link .standard .default = .ok p' ∧
    p'.EndsWith "main" .empty (.outcome (.ok .null)) "" := by
  let p : Linked := ⟨Linked.compiledFreesOnce, #[], .default⟩
  have hexact : p.EntersExactly "main" .empty := by
    intro first hfirst
    have hentry : p.entry "main" = .ok ⟨0, 0, ⟨#[.unbound], [[]]⟩, [], 0, false⟩ := by cbv
    rw [hentry] at hfirst
    cases hfirst
    -- the task takes its turn and carries out its five instructions
    refine .of_step rfl (fun task => ?_)
      (.of_step rfl (fun task => ?_) (.of_step rfl (fun task => ?_)
      (.of_step rfl (fun task => ?_) (.of_step rfl (fun task => ?_) (.of_step rfl (fun task => ?_)
        (MachineState.alwaysEntersExactly_of_halt rfl))))))
    all_goals
      cases task with
      | zero => first | exact Nat.le_refl 1 | exact Nat.zero_le 1
      | succ task => exact Nat.le_refl 0
  have hlink : Linked.compiledFreesOnce.link .standard .default = .ok p := by cbv
  obtain ⟨-, -, h⟩ := releases_unobserved Linked.check_freesOnce Linked.compile_freesOnce
  obtain ⟨-, hruns⟩ := h .standard .default Registry.ignoresCode_standard
  obtain ⟨p', hlink', hrun⟩ := hruns p hlink
  refine ⟨p', hlink', ((hrun "main" .empty hexact).1 _ _).1 ?_⟩
  refine ⟨7, _, by cbv, fun h => ?_, rfl⟩
  cases h

end Program

end ScopedScript
