import ScopedScript.Proofs.Machine.FrameSteps

/-!
# The instructions of one frame

Along a run a frame keeps its place until it is left. What it has carried out since it was entered
is a list of instructions, each of them at the place in the code that the one before it led to.
-/

namespace ScopedScript

namespace MachineState

/-- The instruction that the frame at a place carries out next, if it is its turn. -/
def executing? (p : Linked) (task depth : Nat) : MachineState → Option Instr
  | idle _ => none
  | busy s =>
    match s.task.frames with
    | [] => none
    | fr :: callers => if task = s.task.id ∧ depth = callers.length then Exec.instr? p fr else none

/-- A run has come from its first state to another one, and the frame at a place, if there is one,
has carried out these instructions since it was entered. -/
inductive Trace (p : Linked) (task depth : Nat) (first : MachineState) :
    MachineState → List Instr → Prop
  | start : Trace p task depth first first []
  | stays {a b : MachineState} {is : List Instr} (h : Trace p task depth first a is)
    (hs : a.Steps p b) (ha : (a.frameAt task depth).isSome) (hb : (b.frameAt task depth).isSome) :
    Trace p task depth first b (is ++ (a.executing? p task depth).toList)
  | vacant {a b : MachineState} {is : List Instr} (h : Trace p task depth first a is)
    (hs : a.Steps p b)
    (hn : a.frameAt task depth = none ∨ b.frameAt task depth = none) : Trace p task depth first b []

variable {p : Linked} {task depth : Nat} {first a b : MachineState} {is : List Instr} {s : Running}

theorem Trace.reaches (h : Trace p task depth first a is) : first.Reaches p a := by
  induction h with
  | start => exact .refl _
  | stays _ hs _ _ ih => exact ih.step hs
  | vacant _ hs _ ih => exact ih.step hs

theorem executing?_busy {fr : Frame} {callers : List Frame} (hs : s.task.frames = fr :: callers) :
    (busy s).executing? p task depth =
      if task = s.task.id ∧ depth = callers.length then Exec.instr? p fr else none := by
  simp only [executing?, hs]

/-- It is the instruction at which the frame stands. -/
theorem instr?_of_executing? {fr : Frame} {i : Instr} (h : a.executing? p task depth = some i)
    (hfr : a.frameAt task depth = some fr) : Exec.instr? p fr = some i := by
  cases a with
  | idle m => cases h
  | busy s =>
    cases hs : s.task.frames with
    | nil =>
      simp only [executing?, hs] at h
      cases h
    | cons fr' callers =>
      rw [executing?_busy hs] at h
      split at h
      · rename_i hplace
        rw [frameAt, framesOf, if_pos hplace.1, hs, getElem?_reverse_cons, if_pos hplace.2] at hfr
        cases hfr
        exact h
      · cases h

/-! ## One step -/

/-- The frame has carried out its next instruction and is still there. -/
structure Executes (p : Linked) (fr : Frame) (i : Instr) (fr' : Frame) : Prop where
  function : fr'.function = fr.function
  stays : i ≠ .ret
  goes : i.Goes (fr.ip + 1) fr'.ip
  code : ∃ f, p.module.functions[fr.function]? = some f ∧ f.code[fr.ip]? = some i

theorem Executes.instr? {fr fr' : Frame} {i : Instr} (h : Executes p fr i fr') :
    Exec.instr? p fr = some i := by
  obtain ⟨f, hf, hi⟩ := h.code
  rw [Exec.instr?, hf, Option.bind_some, hi]

/-- What becomes of the frames of the running task when the innermost one is `fr`. -/
inductive Onward (p : Linked) (fr : Frame) (callers : List Frame) : List Frame → Prop
  | ended : Onward p fr callers []
  | left : Onward p fr callers callers
  | moved {i : Instr} {fr' : Frame} (h : Executes p fr i fr') : Onward p fr callers (fr' :: callers)
  | called {i : Instr} {fr' : Frame} (new : Frame) (h : Executes p fr i fr') :
    Onward p fr callers (new :: fr' :: callers)

/-- Only the innermost frame can have moved. -/
theorem Onward.frame {fr old new : Frame} {callers frames : List Frame}
    (h : Onward p fr callers frames) (ha : (fr :: callers).reverse[depth]? = some old)
    (hb : frames.reverse[depth]? = some new) :
    depth ≠ callers.length ∧ new = old ∨ depth = callers.length ∧ old = fr ∧ ∃ i,
    Executes p fr i new := by
  rw [getElem?_reverse_cons] at ha
  by_cases hd : depth = callers.length
  · rw [if_pos hd] at ha
    cases ha
    refine .inr ⟨hd, rfl, ?_⟩
    cases h with
    | ended => simp at hb
    | left => simp [hd] at hb
    | moved h =>
      rw [getElem?_reverse_cons, if_pos hd] at hb
      cases hb
      exact ⟨_, h⟩
    | called _ h =>
      rw [getElem?_reverse_cons, if_neg (by simp [hd]), getElem?_reverse_cons, if_pos hd] at hb
      cases hb
      exact ⟨_, h⟩
  · rw [if_neg hd] at ha
    have hlt : depth < callers.length := by simpa using (List.getElem?_eq_some_iff.1 ha).1
    refine .inl ⟨hd, ?_⟩
    cases h with
    | ended => simp at hb
    | left => exact Option.some.inj (hb.symm.trans ha)
    | moved _ =>
      rw [getElem?_reverse_cons, if_neg hd] at hb
      exact Option.some.inj (hb.symm.trans ha)
    | called _ _ =>
      rw [getElem?_reverse_cons, if_neg (by simp; omega), getElem?_reverse_cons, if_neg hd] at hb
      exact Option.some.inj (hb.symm.trans ha)

/-- The frames of the other tasks stay as they are; where there were none, a task may have begun. -/
def Others (a b : MachineState) (own : Nat) : Prop :=
  ∀ task, task ≠ own → b.framesOf task = a.framesOf task ∨ a.framesOf task = []

theorem others_failWith {s' : Running} (h : s'.scheduler.Tidy p (some s'.task))
    (hid : s'.task.id = s.task.id) (ho : ∀ i, s'.scheduler.framesOf i = s.scheduler.framesOf i)
    (f : Fault) :
    (idle (s'.failWith p f)).framesOf s.task.id = [] ∧
      Others (busy s) (idle (s'.failWith p f)) s.task.id := by
  obtain ⟨-, hfr, -⟩ := failWith_spec h f
  refine ⟨by rw [hfr, if_pos hid.symm], fun task htask => .inl ?_⟩
  rw [hfr, if_neg (hid ▸ htask), ho, framesOf, if_neg htask]

theorem onward_step {fr : Frame} {callers : List Frame} (h : (busy s).Tidy p)
    (hs : s.task.frames = fr :: callers) (hb : (busy s).Steps p b) :
    Onward p fr callers (b.framesOf s.task.id) ∧ Others (busy s) b s.task.id := by
  rw [Steps, step] at hb
  rcases Exec.treads_next (p := p) hs with ⟨t, hn⟩ | ⟨f, i, hf, hi, hn⟩
  · rw [hn] at hb
    cases t with
    | lost type => cases hb
    | fault f =>
      cases hb
      obtain ⟨hown, hothers⟩ := others_failWith (s := s) h rfl (fun _ => rfl) f
      exact ⟨hown ▸ .ended, hothers⟩
  · have hknown := known_of_tidy h hs hf { fr with ip := fr.ip + 1 } rfl
    -- the task goes on with these frames, or makes way for others
    have hkept {s' : Running} (hid : s'.task.id = s.task.id)
        (hfr : Onward p fr callers s'.task.frames)
        (ho : ∀ i, i ≠ s.task.id → s'.scheduler.framesOf i = s.scheduler.framesOf i ∨
          s.scheduler.framesOf i = []) :
        Onward p fr callers ((busy s').framesOf s.task.id) ∧
        Others (busy s) (busy s') s.task.id := by
      refine ⟨by rw [framesOf, if_pos hid.symm]; exact hfr, fun task htask => ?_⟩
      rw [framesOf, framesOf, hid, if_neg htask, if_neg htask]
      exact ho task htask
    generalize Exec.next p s = r at hn hb
    cases hn with
    | @fails t s' hl =>
      cases t with
      | lost type => cases hb
      | fault f =>
        cases hb
        obtain ⟨htidy, hid, -, hother⟩ := leads_spec hl h hknown
        obtain ⟨hown, hothers⟩ := others_failWith htidy hid hother f
        exact ⟨hown ▸ .ended, hothers⟩
    | @goes flow s' _ bd ip hflow hb' hip hl =>
      obtain ⟨htidy, hid, hfr, hother⟩ := leads_spec hl h (known_of_tidy h hs hf _ rfl)
      have hret : i ≠ .ret := by
        rintro rfl
        cases hb'
        contradiction
      have hmoved : Onward p fr callers s'.task.frames := hfr ▸ .moved ⟨rfl, hret, hip, f, hf, hi⟩
      have hbusy := hkept hid hmoved fun i _ => .inl (hother i)
      cases flow with
      | goOn =>
        cases hb
        exact hbusy
      | finished v => exact absurd rfl (hflow v)
      | yielded =>
        cases hb
        obtain ⟨-, hsame⟩ := suspendAs_spec htidy .ready (by decide)
        exact ⟨hsame s.task.id ▸ hbusy.1, fun task htask => hsame task ▸ hbusy.2 task htask⟩
      | suspended =>
        cases hb
        obtain ⟨-, hsame⟩ := suspendAs_spec htidy .suspended (by decide)
        exact ⟨hsame s.task.id ▸ hbusy.1, fun task htask => hsame task ▸ hbusy.2 task htask⟩
    | @enters new s' hcall hnew hl =>
      cases hb
      obtain ⟨g, -, -, -, -, hg, -⟩ := id hnew
      obtain ⟨-, hid, hfr, hother⟩ := leads_spec hl h fun x hx => by
        rcases List.mem_cons.1 hx with rfl | hx
        · exact ⟨g, hg⟩
        · exact hknown x hx
      have hgoes : i ≠ .ret ∧ i.Goes (fr.ip + 1) (fr.ip + 1) := by
        cases i <;> cases hcall <;> exact ⟨by simp, rfl⟩
      exact hkept hid (hfr ▸ .called new ⟨rfl, hgoes.1, hgoes.2, f, hf, hi⟩) fun i _ =>
        .inl (hother i)
    | @leaves flow s' hret hflow hl =>
      obtain ⟨htidy, hid, hfr, hother⟩ := leads_spec hl h fun g hg =>
        hknown g (List.mem_cons_of_mem _ hg)
      rcases hflow with ⟨rfl, v, rfl⟩ | ⟨-, rfl⟩
      · cases hb
        have hcomplete := framesOf_completeWith htidy (.ok v)
        refine ⟨by rw [hcomplete, if_pos hid.symm]; exact .ended, fun task htask => .inl ?_⟩
        rw [hcomplete, if_neg (hid ▸ htask), hother, framesOf, if_neg htask]
      · cases hb
        exact hkept hid (hfr ▸ .left) fun i _ => .inl (hother i)
    | @spawns function n new s' hspawn hnew hl =>
      subst hspawn
      cases hb
      obtain ⟨-, hid, hfr, hother⟩ := leads_spec hl (h.spawn hnew) hknown
      have hgoes : Instr.spawn function n ≠ .ret ∧
          (Instr.spawn function n).Goes (fr.ip + 1) (fr.ip + 1) := ⟨by simp, rfl⟩
      refine hkept hid (hfr ▸ .moved ⟨rfl, hgoes.1, hgoes.2, f, hf, hi⟩) fun i _ => ?_
      rw [hother, Scheduler.framesOf_spawn]
      split
      · rename_i hsize
        exact .inr (hsize ▸ framesOf_size _)
      · exact .inl rfl

/-- A turn that begins leaves the frames alone, but for those of a task that fails at once. -/
theorem framesOf_takeTurn {m : Machine} (h : (idle m).Tidy p) (hs : takeTurn p m = .ok b)
    (task : Nat) : b.framesOf task = (idle m).framesOf task ∨ b.framesOf task = [] := by
  unfold takeTurn at hs
  cases hn : m.scheduler.next? with
  | none =>
    rw [hn] at hs
    cases hs
  | some turn =>
    obtain ⟨t, sch⟩ := turn
    simp only [hn] at hs
    cases hre : t.resumeWith with
    | none =>
      rw [hre] at hs
      cases hs
      exact .inl ((turn_spec h hn rfl rfl rfl).2 task)
    | some outcome =>
      rw [hre] at hs
      cases outcome with
      | ok v =>
        cases hs
        exact .inl ((turn_spec h hn rfl rfl rfl).2 task)
      | error f =>
        cases hs
        have hturn :
            (busy { m with scheduler := sch, task := { t with resumeWith := none } }).Tidy p ∧
              ∀ task,
                framesOf (busy { m with
                  scheduler := sch, task := { t with resumeWith := none } }) task =
                (idle m).framesOf task :=
          turn_spec h hn rfl rfl rfl
        obtain ⟨-, hfr, -⟩ := failWith_spec hturn.1 f
        rw [hfr]
        split
        · exact .inr rfl
        · rename_i htask
          rw [← hturn.2 task, framesOf, if_neg htask]
          exact .inl rfl

/-- A frame that stays where it is has carried out an instruction in its turn, and nothing
otherwise. -/
theorem frame_step {fr fr' : Frame} (h : a.Tidy p) (hs : a.Steps p b)
    (ha : a.frameAt task depth = some fr) (hb : b.frameAt task depth = some fr') :
    a.executing? p task depth = none ∧ fr' = fr ∨
      ∃ i, a.executing? p task depth = some i ∧ Executes p fr i fr' := by
  rw [frameAt] at ha hb
  cases a with
  | idle m =>
    refine .inl ⟨rfl, ?_⟩
    rcases framesOf_takeTurn h hs task with he | he <;> rw [he] at hb
    · exact Option.some.inj (hb.symm.trans ha)
    · simp at hb
  | busy s =>
    cases hfr : s.task.frames with
    | nil =>
      rw [Steps, step_noFrame hfr] at hs
      cases hs
      obtain ⟨hown, hothers⟩ :=
        others_failWith (s := s) h rfl (fun _ => rfl) (.of (.malformed .noFrame))
      refine .inl ⟨by simp only [executing?, hfr], ?_⟩
      by_cases htask : task = s.task.id
      · rw [htask, hown] at hb
        simp at hb
      · rcases hothers task htask with he | he
        · rw [he] at hb
          exact Option.some.inj (hb.symm.trans ha)
        · rw [he] at ha
          simp at ha
    | cons fr₀ callers =>
      obtain ⟨hown, hothers⟩ := onward_step h hfr hs
      have hnone : ¬ (task = s.task.id ∧ depth = callers.length) →
          (busy s).executing? p task depth = none := by
        intro hne
        rw [executing?_busy hfr, if_neg hne]
      by_cases htask : task = s.task.id
      · subst htask
        rw [framesOf, if_pos rfl, hfr] at ha
        rcases hown.frame ha hb with ⟨hd, rfl⟩ | ⟨hd, rfl, i, hi⟩
        · exact .inl ⟨hnone fun h => hd h.2, rfl⟩
        · refine .inr ⟨i, ?_, hi⟩
          rw [executing?_busy hfr, if_pos ⟨rfl, hd⟩]
          exact hi.instr?
      · refine .inl ⟨hnone fun h => htask h.1, ?_⟩
        rcases hothers task htask with he | he
        · rw [he] at hb
          exact Option.some.inj (hb.symm.trans ha)
        · rw [he] at ha
          simp at ha

/-! ## Runs -/

/-- What holds of a frame that has been entered, and is kept by each instruction of its own, holds
of it with all that it has carried out. -/
theorem Trace.preserves {I : List Instr → Frame → Prop} (hfirst : first.Tidy p)
    (hstart : ∀ fr, first.frameAt task depth = some fr → I [] fr)
    (henter : ∀ fr, fr.Entered p → I [] fr)
    (hstep : ∀ is fr i fr', I is fr → Executes p fr i fr' → I (is ++ [i]) fr')
    (h : Trace p task depth first a is) {fr : Frame} (ha : a.frameAt task depth = some fr) :
    I is fr := by
  induction h generalizing fr with
  | start => exact hstart fr ha
  | stays h hs hsome _ ih =>
    obtain ⟨old, hold⟩ := Option.isSome_iff_exists.1 hsome
    have htidy := tidy_of_reaches hfirst h.reaches
    rcases frame_step htidy hs hold ha with ⟨hn, rfl⟩ | ⟨i, hi, he⟩
    · rw [hn, Option.toList_none, List.append_nil]
      exact ih hold
    · rw [hi]
      exact hstep _ _ i fr (ih hold) he
  | @vacant b c _ h hs hn _ =>
    have hframe := (advance_step (tidy_of_reaches hfirst h.reaches) hs).frames task depth
    rcases hn with hn | hn
    · rw [hn, ha] at hframe
      generalize eventsAt _ _ _ = es at hframe
      cases hframe with
      | enters hnew => exact henter fr hnew
    · rw [hn] at ha
      cases ha

end MachineState

theorem Linked.frameAt_startState {frame fr : Frame} {m : Machine} {task depth : Nat}
    (h : (startState m frame).frameAt task depth = some fr) : fr = frame := by
  rw [MachineState.frameAt, startState, MachineState.framesOf, Scheduler.framesOf_spawn] at h
  split at h
  · exact List.mem_singleton.1 (List.mem_reverse.1 (List.mem_of_getElem? h))
  · rename_i ht
    rw [show Scheduler.empty.framesOf task = [] from rfl] at h
    simp at h

end ScopedScript
