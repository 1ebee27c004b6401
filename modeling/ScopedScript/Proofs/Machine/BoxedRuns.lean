import ScopedScript.Proofs.Machine.BoxedResults

/-!
# Runs that differ in a box

While a frame that boxes its result has not been left, the machine takes the steps that it takes
without the box, in which other tasks may run as well. When the frame is left, the states differ in
the value that it hands to its caller, and when its task fails they do not differ any more.
-/

namespace ScopedScript

/-! ## The end of a turn -/

section

variable {k : Nat} {callers l l' : List Frame}

theorem Scheduler.Consistent.ne_running {sch : Scheduler} {t u : Task}
    (hc : sch.Consistent (some t)) {i : Nat} (hu : sch.get? i = some u) : u.id ≠ t.id :=
  hc.id_eq hu ▸ hc.ne hu

/-- When the task is not in the table, the tables are the same. -/
theorem Scheduler.Reframed.eq {sch sch' : Scheduler}
    (h : sch.Reframed (Frame.BoxingIn k callers) sch')
    (hk : ∀ i t, sch.get? i = some t → t.id ≠ k) : sch' = sch := by
  obtain ⟨tasks, ready⟩ := sch
  obtain ⟨tasks', ready'⟩ := sch'
  obtain rfl : ready' = ready := h.ready
  refine congrArg (Scheduler.mk · ready') (Array.ext h.size fun i hi' hi => ?_)
  have hrel := h.tasks i
  have hget : Scheduler.get? ⟨tasks, ready'⟩ i = tasks[i] := by
    rw [Scheduler.get?, Array.getElem?_eq_getElem hi, Option.join_some]
  have hget' : Scheduler.get? ⟨tasks', ready'⟩ i = tasks'[i] := by
    rw [Scheduler.get?, Array.getElem?_eq_getElem hi', Option.join_some]
  rw [hget, hget'] at hrel
  generalize ho : tasks[i] = o, tasks'[i] = o' at hrel
  cases hrel with
  | none => rfl
  | @some t t' ht =>
    rcases ht.frames with ⟨hid, -⟩ | ⟨-, hframes⟩
    · exact absurd hid (hk i t (hget.trans ho))
    · rw [ht.rest, hframes]

theorem Machine.Reframed.eq {m m' : Machine} (h : m.Reframed (Frame.BoxingIn k callers) m')
    (hk : ∀ i t, m.scheduler.get? i = some t → t.id ≠ k) : m' = m := by
  have hsch := h.scheduler.eq hk
  have houtput := h.output
  have hreleases := h.releases
  cases m
  cases m'
  simp_all

/-- Unwinding does not look at boxes. -/
theorem Frame.Boxing.foldl_record (h : Frame.Boxing callers l l') (p : Linked) (m : Machine) :
    l'.foldl (fun m frame => m.record p frame.function .unwind frame.bindings.exitAll.2) m =
      l.foldl (fun m frame => m.record p frame.function .unwind frame.bindings.exitAll.2) m := by
  induction h generalizing m with
  | here fr => rfl
  | above fr _ ih => exact ih _

namespace Running.Reframed

variable {s s' : Running} (h : s.Reframed (Frame.BoxingIn k callers) s')

include h

theorem suspendAs (state : TaskState) :
    (s.suspendAs state).Reframed (Frame.BoxingIn k callers) (s'.suspendAs state) where
  scheduler :=
    h.machine.scheduler.putBack (h.task.map (g := fun t => { t with state }) (fun _ => rfl)
    (fun _ => rfl) fun _ _ => rfl)
  output := h.machine.output
  releases := h.machine.releases

theorem completeWith (hid : s.task.id ≠ k) (outcome : Outcome) :
    (s.completeWith outcome).Reframed (Frame.BoxingIn k callers) (s'.completeWith outcome) := by
  obtain ⟨ht, hs⟩ := h.machine.scheduler.complete h.task (.other hid []) outcome
  exact ⟨hs.putBack ht, h.machine.output, h.machine.releases⟩

/-- The task fails, and the frames it had do not matter any more. -/
theorem failWith_self (hid : s.task.id = k) (hcons : s.scheduler.Consistent (some s.task))
    (p : Linked) (f : Fault) : s'.failWith p f = s.failWith p f := by
  have hrest : s'.task = { s.task with frames := s'.task.frames } := h.task.rest
  have hmachine : s'.toMachine = s.toMachine := h.machine.eq fun _ _ ht =>
    hid ▸ hcons.ne_running ht
  obtain ⟨-, hframes⟩ : s.task.id = k ∧ Frame.Boxing callers s.task.frames s'.task.frames :=
    h.task.frames.resolve_right fun hne => hne.1 hid
  rw [failWith, failWith, hmachine, hframes.foldl_record, Running.completeWith,
    Running.completeWith, hrest]
  rfl

theorem failWith_other (hid : s.task.id ≠ k) (p : Linked) (f : Fault) :
    (s.failWith p f).Reframed (Frame.BoxingIn k callers) (s'.failWith p f) := by
  have hframes : s'.task.frames = s.task.frames :=
    (h.task.frames.resolve_left fun heq => hid heq.1).2
  have unwound (l : List Frame) {m m' : Machine} (hm : m.Reframed (Frame.BoxingIn k callers) m') :
      (l.foldl (fun m frame =>
          m.record p frame.function .unwind frame.bindings.exitAll.2) m).Reframed
        (Frame.BoxingIn k callers)
        (l.foldl (fun m frame =>
          m.record p frame.function .unwind frame.bindings.exitAll.2) m') := by
    induction l generalizing m m' with
    | nil => exact hm
    | cons fr rest ih => exact ih (hm.record p _ _ _)
  rw [failWith, failWith, hframes]
  let unwinding (s : Running) (l : List Frame) : Running := { s with
    toMachine := l.foldl (fun m frame => m.record p frame.function .unwind frame.bindings.exitAll.2)
      s.toMachine }
  have hdone : (unwinding s s.task.frames).Reframed (Frame.BoxingIn k callers)
      (unwinding s' s.task.frames) :=
    ⟨unwound s.task.frames h.machine, h.task⟩
  exact hdone.completeWith hid _

end Running.Reframed

end

/-! ## Steps and runs -/

namespace MachineState

/-- The second state is the first, but a frame of the task `k` boxes its result. -/
inductive Boxing (k : Nat) (callers : List Frame) : MachineState → MachineState → Prop
  | idle {m m' : Machine} (h : m.Reframed (Frame.BoxingIn k callers) m') :
    Boxing k callers (idle m) (idle m')
  | busy {s s' : Running} (h : s.Reframed (Frame.BoxingIn k callers) s') :
    Boxing k callers (busy s) (busy s')

/-- The step with which two such states cease to differ in the box: the frame hands its result to
its caller, or its task fails, or the run ends before that. -/
inductive Parts (p : Linked) (k : Nat) (callers : List Frame) (a a' : MachineState) : Prop
  | returns (s : Running) (v : Value) (l : List Value) (hid : s.task.id = k)
    (hs : s.task.frames = callers) (ha : a.step p = .ok (busy (s.withStack (v :: l))))
    (ha' : a'.step p = .ok (busy (s.withStack (v.boxed :: l))))
  | fails (m : Machine) (t : Task) (f : Fault) (ht : m.scheduler.get? k = some t)
    (hr : t.result = some (.error f)) (ha : a.step p = .ok (idle m))
    (ha' : a'.step p = .ok (idle m))
  | halts (halt : Halt) (m m' : Machine) (h : m.Reframed (Frame.BoxingIn k callers) m')
    (ha : a.step p = .error (halt, m)) (ha' : a'.step p = .error (halt, m'))

/-- For `n` steps the two differ in the box alone, or until they cease to. -/
def HandsBack (p : Linked) (k : Nat) (callers : List Frame) :
    Nat → MachineState → MachineState → Prop
  | 0, a, a' => a.Boxing k callers a'
  | n + 1, a, a' => a.Boxing k callers a' ∧ (a.Parts p k callers a' ∨
      ∃ b b', a.step p = .ok b ∧ a'.step p = .ok b' ∧ HandsBack p k callers n b b')

variable {p : Linked} {k : Nat} {callers : List Frame} {a a' : MachineState} {s s' : Running}

/-- A step by which the running task fails. -/
theorem parts_or_failed (h : s.Reframed (Frame.BoxingIn k callers) s')
    (hcons : s.scheduler.Consistent (some s.task)) (f : Fault)
    (ha : a.step p = .ok (idle (s.failWith p f))) (ha' : a'.step p = .ok (idle (s'.failWith p f))) :
    a.Parts p k callers a' ∨ ∃ b b', a.step p = .ok b ∧ a'.step p = .ok b' ∧
    b.Boxing k callers b' := by
  by_cases hid : s.task.id = k
  · refine .inl (.fails _ (s.scheduler.complete s.task (.error f)).1 f ?_ rfl ha ?_)
    · rw [Running.scheduler_failWith, (hcons.ended _).1, if_pos hid.symm]
    · rw [ha', h.failWith_self hid hcons]
  · exact .inr ⟨_, _, ha, ha', .idle (h.failWith_other hid p f)⟩

theorem parts_or_turn {m m' : Machine} (h : m.Reframed (Frame.BoxingIn k callers) m')
    (hcons : m.scheduler.Consistent none) :
    (idle m).Parts p k callers (idle m') ∨
      ∃ b b', (idle m).step p = .ok b ∧ (idle m').step p = .ok b' ∧ b.Boxing k callers b' := by
  have hnext := h.scheduler.next?
  cases hn : m.scheduler.next? with
  | none =>
    rw [hn] at hnext
    have hn' : m'.scheduler.next? = none := by
      generalize m'.scheduler.next? = o at hnext
      cases hnext
      rfl
    refine .inl (.halts .settled m m' h ?_ ?_)
    · rw [step, takeTurn, hn]
    · rw [step, takeTurn, hn']
  | some turn =>
    obtain ⟨t, sch⟩ := turn
    rw [hn] at hnext
    obtain ⟨t', sch', hn', ht, hsch⟩ : ∃ t' sch', m'.scheduler.next? = some (t', sch') ∧
        t.Reframed (Frame.BoxingIn k callers) t' ∧
        sch.Reframed (Frame.BoxingIn k callers) sch' := by
      generalize m'.scheduler.next? = o at hnext
      cases hnext with
      | some hturn => exact ⟨_, _, rfl, hturn⟩
    have hmachine : Machine.Reframed (Frame.BoxingIn k callers) { m with scheduler := sch }
        { m' with scheduler := sch' } := ⟨hsch, h.output, h.releases⟩
    have hresumed : Running.Reframed (Frame.BoxingIn k callers)
        { m with scheduler := sch, task := { t with resumeWith := none } }
        { m' with scheduler := sch', task := { t' with resumeWith := none } } :=
      ⟨hmachine, ht.map (g := fun t => { t with resumeWith := none }) (fun _ => rfl) (fun _ => rfl)
        fun _ _ => rfl⟩
    have htaken : Running.Reframed (Frame.BoxingIn k callers) { m with scheduler := sch, task := t }
        { m' with scheduler := sch', task := t' } := ⟨hmachine, ht⟩
    rcases hr : t.resumeWith with - | f | v
    · refine .inr ⟨_, _, ?_, ?_, .busy htaken⟩
      · rw [step, takeTurn, hn]
        simp only [hr]
      · rw [step, takeTurn, hn']
        simp only [ht.resumeWith_eq, hr]
    · refine parts_or_failed hresumed ?_ f ?_ ?_
      · exact Scheduler.TableStep.consistent_relayed hcons hn
      · rw [step, takeTurn, hn]
        simp only [hr]
      · rw [step, takeTurn, hn']
        simp only [ht.resumeWith_eq, hr]
    · refine .inr ⟨_, _, ?_, ?_, .busy (hresumed.withStack (v :: t.stack))⟩
      · rw [step, takeTurn, hn]
        simp only [hr]
        rfl
      · rw [step, takeTurn, hn']
        simp only [ht.resumeWith_eq, hr, ht.stack_eq]
        rfl

theorem parts_or_instruction (h : s.Reframed (Frame.BoxingIn k callers) s')
    (hsch : (busy s).Scheduled) (hc : callers ≠ []) (hk : k < s.scheduler.tasks.size) :
    (busy s).Parts p k callers (busy s') ∨
      ∃ b b', (busy s).step p = .ok b ∧ (busy s').step p = .ok b' ∧ b.Boxing k callers b' := by
  have hagrees := Exec.agrees_next p h hc hk
  generalize hn : Exec.next p s = r, hn' : Exec.next p s' = r' at hagrees
  cases hagrees with
  | goesOn h =>
    refine .inr ⟨_, _, ?_, ?_, .busy h⟩
    · rw [step, hn]
    · rw [step, hn']
  | stops hflow h =>
    rcases hflow with rfl | rfl
    · refine .inr ⟨_, _, ?_, ?_, .idle (h.suspendAs .ready)⟩
      · rw [step, hn]
      · rw [step, hn']
    · refine .inr ⟨_, _, ?_, ?_, .idle (h.suspendAs .suspended)⟩
      · rw [step, hn]
      · rw [step, hn']
  | finished v hid h =>
    refine .inr ⟨_, _, ?_, ?_, .idle (h.completeWith hid (.ok v))⟩
    · rw [step, hn]
    · rw [step, hn']
  | @error t s₁ s₁' h =>
    cases t with
    | lost type =>
      refine .inl (.halts (.lost type) _ _ h.machine ?_ ?_)
      · rw [step, hn]
      · rw [step, hn']
    | fault f =>
      have hcons : s₁.scheduler.Consistent (some s₁.task) := by
        have htends := Exec.tends_next p s
        rw [hn] at htends
        cases htends with
        | trapped ht hs => exact Scheduler.TableStep.consistent_changed hsch.consistent hs ht
      refine parts_or_failed h hcons f ?_ ?_
      · rw [step, hn]
      · rw [step, hn']
  | @returned v l s₁ s₁' hid hs htask h =>
    have hstep : (busy s).step p = .ok (busy (s₁.withStack (v :: l))) := by rw [step, hn]
    have hcons : s₁.scheduler.Consistent (some (s₁.withStack (v :: l)).task) :=
      (hsch.step hstep).consistent
    have hsame : s₁' = s₁ := by
      have hmachine := h.eq fun _ _ ht => hid ▸ hcons.ne_running ht
      cases s₁
      cases s₁'
      cases hmachine
      cases htask
      rfl
    refine .inl (.returns s₁ v l hid hs hstep ?_)
    rw [step, hn', hsame]

theorem parts_or_step (h : a.Boxing k callers a') (hsch : a.Scheduled) (hc : callers ≠ [])
    (hk : k < a.machine.scheduler.tasks.size) :
    a.Parts p k callers a' ∨ ∃ b b', a.step p = .ok b ∧ a'.step p = .ok b' ∧
    b.Boxing k callers b' := by
  cases h with
  | idle h => exact parts_or_turn h hsch.consistent
  | busy h => exact parts_or_instruction h hsch hc hk

/-- States that differ in a box go on to do so until the frame hands back its result. -/
theorem handsBack (h : a.Boxing k callers a') (hsch : a.Scheduled) (hc : callers ≠ [])
    (hk : k < a.machine.scheduler.tasks.size) (n : Nat) : HandsBack p k callers n a a' := by
  induction n generalizing a a' with
  | zero => exact h
  | succ n ih =>
    refine ⟨h, (parts_or_step h hsch hc hk).imp_right fun ⟨b, b', hb, hb', hbox⟩ =>
      ⟨b, b', hb, hb', ?_⟩⟩
    exact ih hbox (hsch.step hb) (hk.trans_le ((table_step hb).size_le hsch.consistent))

end MachineState

end ScopedScript
