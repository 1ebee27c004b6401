import ScopedScript.Proofs.Compile.Awaiting
import ScopedScript.Proofs.Compile.Modes
import ScopedScript.Proofs.Machine.References

/-!
# Only the outermost frame suspends

In code of an accepted program no async function is ever entered but in the first frame of a task:
calls name functions that are not async, values refer to such functions only, and a call through
`any` refuses async functions. As only async functions wait, a task that stops between two
instructions has one frame.
-/

namespace ScopedScript

open Exec

variable {p : Linked} {S : Nat → Prop} {s : Running} {fr : Frame} {callers : List Frame}
  {ops rest : List Value} {f : FunctionCode} {i : Instr}

/-- What the task has refers to functions of `S` only, and so do its frames but for the outermost.
-/
structure Task.Within (S : Nat → Prop) (t : Task) : Prop where
  contents : t.Each (Value.Refers S)
  inner : ∀ id ∈ (t.frames.map Frame.function).dropLast, S id

/-- As `Within`, of a task that does not run: it has no inner frames. -/
def Task.Rests (S : Nat → Prop) (t : Task) : Prop := t.Within S ∧ t.frames.length ≤ 1

/-- The running task and those of the table are as said. -/
def Running.Within (S : Nat → Prop) (s : Running) : Prop :=
  s.scheduler.Each (Task.Rests S) ∧ s.task.Within S

theorem Task.Within.of_eq {t t' : Task} (h : t.Within S) (hf : t'.frames = t.frames)
    (hs : t'.stack = t.stack) (hr : t'.result = t.result) (hw : t'.resumeWith = t.resumeWith) :
    t'.Within S where
  contents := ⟨hf ▸ h.contents.frames, hs ▸ h.contents.stack, hr ▸ h.contents.result,
    hw ▸ h.contents.resume⟩
  inner := hf ▸ h.inner

theorem Task.Rests.of_eq {t t' : Task} (h : t.Rests S) (hf : t'.frames = t.frames)
    (hs : t'.stack = t.stack) (hr : t'.result = t.result) (hw : t'.resumeWith = t.resumeWith) :
    t'.Rests S := ⟨h.1.of_eq hf hs hr hw, hf ▸ h.2⟩

theorem Task.rests_start {frame : Frame} (h : frame.Each (Value.Refers S)) (id : Nat) :
    (Task.start id frame).Rests S :=
  ⟨⟨⟨List.forall_mem_singleton.2 h, nofun, nofun, nofun⟩, nofun⟩, le_rfl⟩

/-- A task that has completed has nothing but its result. -/
theorem Task.rests_completed {t : Task} (hf : t.frames = []) (hs : t.stack = [])
    (hr : ∀ v, t.result = some (.ok v) → v.Refers S)
    (hw : ∀ v, t.resumeWith = some (.ok v) → v.Refers S) : t.Rests S :=
  ⟨⟨⟨hf ▸ nofun, hs ▸ nofun, hr, hw⟩, hf ▸ nofun⟩, hf ▸ Nat.zero_le 1⟩

namespace Running.Within

/-- The innermost frame works on its operands and bindings. -/
theorem works (h : s.Within S) (hs : s.task.frames = fr :: callers) {g : Frame} {l : List Value}
    {s' : Running} (ht : s'.task = { s.task with frames := g :: callers, stack := l })
    (hsch : s'.scheduler.Each (Task.Rests S)) (hf : g.function = fr.function)
    (he : g.Each (Value.Refers S)) (hstack : ∀ v ∈ l, v.Refers S) : s'.Within S := by
  refine ⟨hsch, ?_⟩
  rw [ht]
  have hc := h.2.contents
  refine ⟨⟨?_, hstack, hc.result, hc.resume⟩, ?_⟩
  · exact List.forall_mem_cons.2 ⟨he, fun c hc' =>
      hc.frames c (by rw [hs]; exact List.mem_cons_of_mem _ hc')⟩
  · have := h.2.inner
    rw [hs] at this
    rwa [List.map_cons, hf]

theorem frame (h : s.Within S) (hs : s.task.frames = fr :: callers) : fr.Each (Value.Refers S) :=
  h.2.contents.frames fr (by simp [hs])

theorem operands (h : s.Within S) (hstack : s.task.stack = ops.reverse ++ rest) :
    (∀ v ∈ ops, v.Refers S) ∧ ∀ v ∈ rest, v.Refers S := by
  have := h.2.contents.stack
  rw [hstack, List.forall_mem_append] at this
  exact ⟨fun v hv => this.1 v (List.mem_reverse.2 hv), this.2⟩

/-- A frame that has callers is of a function of `S`. -/
theorem inner (h : s.Within S) (hs : s.task.frames = fr :: callers) (hc : callers ≠ []) :
    S fr.function := by
  refine h.2.inner _ ?_
  rw [hs, List.map_cons, List.dropLast_cons_of_ne_nil (by simpa using hc)]
  exact List.mem_cons_self

end Running.Within

/-- What an instruction makes of a machine whose tasks are as said. A task that stops has one frame.
-/
def Running.WithinAfter (S : Nat → Prop) (s : Running) : EStateM.Result Trap Running Flow → Prop
  | .ok .goOn s' => s'.Within S
  | .ok (.finished v) s' => s'.Within S ∧ v.Refers S
  | .ok .yielded s' | .ok .suspended s' => s'.Within S ∧ s'.task.frames.length ≤ 1
  | .error _ s' => s'.scheduler.Each (Task.Rests S) ∧ s'.task.resumeWith = s.task.resumeWith

namespace Running.WithinAfter

/-- A fault leaves the other tasks alone. -/
theorem fail (h : s.Within S) {c : FaultCause} {s' : Running} (hsch : s'.scheduler = s.scheduler)
    (hw : s'.task.resumeWith = s.task.resumeWith) : s.WithinAfter S (Exec.fail c s') :=
  ⟨hsch ▸ h.1, hw⟩

theorem of_perform (h : s.Within S) (hs : s.task.frames = fr :: callers) (w : String) {r : Reaction}
    (hr : r.Refers S) (hrest : ∀ v ∈ rest, v.Refers S) :
    s.WithinAfter S (perform p r ((s.withStack rest).writing w)) := by
  cases r with
  | value v =>
    refine h.works hs (g := fr) (l := v :: rest) ?_ h.1 rfl (h.frame hs)
      (List.forall_mem_cons.2 ⟨hr, hrest⟩)
    rw [← hs]
    rfl
  | fails cause => exact .fail h rfl rfl
  | lost type => exact ⟨h.1, rfl⟩
  | enter function args captures box =>
    obtain ⟨hf, ha, hc⟩ := hr
    rw [perform, goOn_apply, enter_apply]
    by_cases hdepth : p.config.maxCallDepth ≤ ((s.withStack rest).writing w).task.frames.length
    · rw [if_pos hdepth]
      exact .fail h rfl rfl
    · rw [if_neg hdepth]
      cases hg : p.module.functions[function]? with
      | none => exact .fail h rfl rfl
      | some g =>
        cases hn : Frame.enter function g args captures
          ((s.withStack rest).writing w).task.stack.length box with
        | error e =>
          simp only [hn]
          exact .fail h rfl rfl
        | ok new =>
          simp only [hn]
          obtain ⟨hfun, hnew⟩ := Frame.each_enter hn ha hc
          refine ⟨h.1, ⟨⟨?_, hrest, h.2.contents.result, h.2.contents.resume⟩, ?_⟩⟩
          · exact List.forall_mem_cons.2 ⟨hnew, h.2.contents.frames⟩
          · have hinner := h.2.inner
            change ∀ id ∈ ((new :: s.task.frames).map Frame.function).dropLast, S id
            rw [List.map_cons, List.dropLast_cons_of_ne_nil (by simp [hs]), hfun]
            exact List.forall_mem_cons.2 ⟨hf, hinner⟩

theorem of_rebind {act : BindingM (Option Value × Option (ReleaseKind × List Nat))}
    (h : s.Within S) (hs : s.task.frames = fr :: callers) (hr : i.rebind? ops = some act)
    (hstack : s.task.stack = ops.reverse ++ rest) : s.WithinAfter S (Exec.step p f i s) := by
  obtain ⟨hops, hrest⟩ := h.operands hstack
  rw [step_rebind hs hr hstack]
  cases ha : act fr.bindings with
  | error e b => exact ⟨h.1, rfl⟩
  | ok r b =>
    obtain ⟨v, released⟩ := r
    obtain ⟨hb, hv⟩ := Instr.each_rebind hr ha (h.frame hs).2 hops
      fun _ _ _ _ hn hv => Value.Refers.setPath? hn hv
    refine h.works hs (g := { fr with bindings := b }) (l := v.toList ++ rest)
      (Running.task_releasing ..) ?_ rfl ⟨(h.frame hs).1, hb⟩ ?_
    · rw [Running.scheduler_releasing]
      exact h.1
    · exact List.forall_mem_append.2 ⟨fun w hw => hv w (Option.mem_toList.1 hw), hrest⟩

/-- The task that awaits gets a result that is as said, or stops with its one frame. -/
theorem of_await {v : Value} (h : s.Within S) (hs : s.task.frames = [fr])
    (hstack : s.task.stack = v :: rest) : s.WithinAfter S (Exec.step p f .await s) := by
  have hrest : ∀ w ∈ rest, w.Refers S := fun w hw => h.2.contents.stack w (by simp [hstack, hw])
  have hobserved (id : Nat) : (s.scheduler.modifyTask id fun t => { t with observed := true }).Each
      (Task.Rests S) :=
    h.1.modifyTask (g := fun t => { t with observed := true })
      (fun u hu => hu.of_eq rfl rfl rfl rfl) id
  rw [step_await hstack]
  cases v.unboxed with
  | task id =>
    dsimp only
    split
    · exact .fail h rfl rfl
    · cases ht : s.scheduler.get? id with
      | none => exact .fail h rfl rfl
      | some target =>
        dsimp only
        cases target.isCompleted with
        | false =>
          refine ⟨h.works hs (g := fr) (l := rest) ?_ ?_ rfl (h.frame hs) hrest, ?_⟩
          · rw [← hs]
            rfl
          · exact h.1.modifyTask (g := fun t => { t with waiters := t.waiters ++ [s.task.id] })
              (fun u hu => hu.of_eq rfl rfl rfl rfl) id
          · exact (congrArg List.length hs).le
        | true =>
          simp only [if_true]
          rcases hr : target.result with - | g | w
          · exact ⟨hobserved id, rfl⟩
          · exact ⟨hobserved id, rfl⟩
          · refine h.works hs (g := fr) (l := w :: rest) ?_ (hobserved id) rfl (h.frame hs) ?_
            · rw [← hs]
              rfl
            · exact List.forall_mem_cons.2 ⟨(h.1 id target ht).1.contents.result w hr, hrest⟩
  | _ => exact .fail h rfl rfl

theorem step (h : s.Within S) (hs : s.task.frames = fr :: callers) (hp : p.ForwardsFunctions S)
    (hS : ∀ id g, p.module.functions[id]? = some g → g.isAsync = false → S id)
    (hi : i.Waits S f.isAsync) (hf : S fr.function → f.isAsync = false)
    (hn : ops.length = i.pops) (hstack : s.task.stack = ops.reverse ++ rest) :
    s.WithinAfter S (Exec.step p f i s) := by
  obtain ⟨hops, hrest⟩ := h.operands hstack
  -- the frame goes on with other operands, at this address or elsewhere
  have goes {ip : Nat} {l : List Value} {s' : Running}
      (ht : s'.task = { s.task with frames := { fr with ip } :: callers, stack := l })
      (hsch : s'.scheduler = s.scheduler) (hst : ∀ v ∈ l, v.Refers S) : s'.Within S :=
    h.works hs ht (hsch ▸ h.1) rfl (show fr.Each _ from h.frame hs) hst
  have same : s.task.frames = { fr with ip := fr.ip } :: callers := hs
  -- what waits is async, and so its frame is the outermost
  have alone (ha : f.isAsync = true) : callers = [] := by
    by_contra hc
    rw [hf (h.inner hs hc)] at ha
    cases ha
  have one_eq (h : ops.length = 1) : ∃ v, ops = [v] ∧ s.task.stack = v :: rest := by
    obtain ⟨v, rfl⟩ := List.length_eq_one_iff.1 h
    exact ⟨v, rfl, hstack⟩
  have jumps {target : Nat} {wanted : Bool} (hi : i = .jumpIfFalse target ∧ wanted = false ∨
      i = .jumpIfTrue target ∧ wanted = true) (hn : ops.length = 1) :
      s.WithinAfter S (Exec.step p f i s) := by
    obtain ⟨v, -, hv⟩ := one_eq hn
    rw [step_jumpIf hi hs hv]
    cases v.unboxed with
    | bool b =>
      dsimp only
      split
      · exact goes rfl rfl hrest
      · exact goes (by rw [← same]; rfl) rfl hrest
    | _ => exact .fail h rfl rfl
  by_cases hreact : i.reacts = true
  · obtain ⟨w, r, hr⟩ : ∃ w r, i.react? p f fr.captures ops = some (w, r) :=
      Instr.exists_react hreact hn
    rw [step_react hs hr hn hstack]
    refine .of_perform h hs w
      (Instr.refers_react hr hp (h.frame hs).1 hops (fun id n hid => ?_) hS) hrest
    rcases hid with rfl | rfl <;> exact hi
  by_cases hbind : i.binds = true
  · obtain ⟨act, hr⟩ := Instr.exists_rebind hbind hn
    exact .of_rebind h hs hr hstack
  cases i with
  | pop =>
    obtain ⟨v, -, hv⟩ := one_eq hn
    rw [step_pop hv]
    exact goes (by rw [← same]; rfl) rfl hrest
  | dup =>
    obtain ⟨v, rfl, hv⟩ := one_eq hn
    have hv' := hops v (by simp)
    rw [step_dup hv]
    exact goes (l := v :: v :: rest) (by rw [← same]; rfl) rfl
      (List.forall_mem_cons.2 ⟨hv', List.forall_mem_cons.2 ⟨hv', hrest⟩⟩)
  | jump target =>
    rw [step_jump target hs]
    exact goes rfl rfl h.2.contents.stack
  | jumpIfFalse target => exact jumps (.inl ⟨rfl, rfl⟩) hn
  | jumpIfTrue target => exact jumps (.inr ⟨rfl, rfl⟩) hn
  | ret =>
    obtain ⟨v, rfl, hv⟩ := one_eq hn
    have hv' : (if fr.boxResult then v.boxed else v).Refers S := by
      split
      · exact Value.refers_boxed.2 (hops v (by simp))
      · exact hops v (by simp)
    have hbelow : ∀ w ∈ rest.drop (rest.length - fr.stackBase), w.Refers S :=
      fun w hw => hrest w (List.mem_of_mem_drop hw)
    have hcallers : ∀ c ∈ callers, c.Each (Value.Refers S) :=
      fun c hc => h.2.contents.frames c (by simp [hs, hc])
    -- without the frame
    have left {stack : List Value} {released : Option (ReleaseKind × List Nat)}
        (hst : ∀ w ∈ stack, w.Refers S) :
        (((s.withStack stack).withFrames callers).releasing p fr.function released).Within S := by
      refine ⟨?_, ?_⟩
      · rw [Running.scheduler_releasing]
        exact h.1
      · rw [Running.task_releasing]
        refine ⟨⟨hcallers, hst, h.2.contents.result, h.2.contents.resume⟩, fun id hid => ?_⟩
        refine h.2.inner id ?_
        rw [hs, List.map_cons]
        cases callers with
        | nil => cases hid
        | cons c outer => exact List.mem_cons_of_mem _ hid
    rw [step_ret hs hv]
    dsimp only
    split
    · exact ⟨left hbelow, hv'⟩
    · exact left (List.forall_mem_cons.2 ⟨hv', hbelow⟩)
  | spawn function n =>
    obtain rfl : ops.length = n := hn
    rw [step_spawn function ops hstack]
    cases hg : p.module.functions[function]? with
    | none => exact .fail h rfl rfl
    | some g =>
      dsimp only
      cases he : Frame.enter function g ops [] 0 false with
      | error e => exact .fail h rfl rfl
      | ok new =>
        have hnew := (Frame.each_enter he hops nofun).2
        refine h.works hs (g := fr) (l := .task s.scheduler.tasks.size :: rest) ?_
          (h.1.spawn fun id => Task.rests_start hnew id) rfl (h.frame hs) ?_
        · rw [← hs]
          rfl
        · exact List.forall_mem_cons.2 ⟨Value.refers_of_nil rfl, hrest⟩
  | await =>
    obtain ⟨v, -, hv⟩ := one_eq hn
    obtain rfl := alone hi
    exact .of_await h hs hv
  | yieldNow =>
    obtain rfl := alone hi
    exact ⟨h, (congrArg List.length hs).le⟩
  | _ => first | exact absurd rfl hreact | exact absurd rfl hbind

theorem located {x : Exec Flow} {s' : Running} (h : s.WithinAfter S (x s')) (span : Option Span)
    (name : String) :
    s.WithinAfter S (EStateM.adaptExcept (fun t : Trap => t.located span name) x s') := by
  unfold EStateM.adaptExcept
  cases hx : x s' with
  | ok flow r =>
    rw [hx] at h
    exact h
  | error t r =>
    rw [hx] at h
    exact h

end Running.WithinAfter

/-! ## Steps -/

/-- A task that ends leaves the table with its outcome alone. -/
theorem Scheduler.Each.complete {sch : Scheduler} (h : sch.Each (Task.Rests S)) {t : Task}
    {outcome : Outcome} (ho : ∀ v, outcome = .ok v → v.Refers S)
    (hw : ∀ v, t.resumeWith = some (.ok v) → v.Refers S) :
    ((sch.complete t outcome).2.putBack (sch.complete t outcome).1).Each (Task.Rests S) := by
  refine (h.wakeAll (fun u hu => ?_) t.waiters).putBack ?_
  · exact ⟨⟨⟨hu.1.contents.frames, hu.1.contents.stack, hu.1.contents.result,
      fun v hv => ho v (Option.some.inj hv)⟩, hu.1.inner⟩, hu.2⟩
  · exact Task.rests_completed rfl rfl (fun v hv => ho v (Option.some.inj hv)) hw

theorem Running.each_failWith {g : Fault} (h : s.scheduler.Each (Task.Rests S))
    (hw : ∀ v, s.task.resumeWith = some (.ok v) → v.Refers S) :
    (s.failWith p g).scheduler.Each (Task.Rests S) := by
  rw [Running.scheduler_failWith]
  exact h.complete nofun hw

namespace MachineState

/-- All tasks are as said. -/
def Within (S : Nat → Prop) : MachineState → Prop
  | idle m => m.scheduler.Each (Task.Rests S)
  | busy s => s.Within S

theorem within_takeTurn {m : Machine} {b : MachineState} (h : (idle m).Within S)
    (hs : takeTurn p m = .ok b) : b.Within S := by
  unfold takeTurn at hs
  split at hs
  · cases hs
  · rename_i t sch hn
    obtain ⟨hsch, u, hu, rfl⟩ := Scheduler.Each.take h hn
    have ht : Task.Within S { u with state := .running } := hu.1.of_eq rfl rfl rfl rfl
    dsimp only at hs
    split at hs
    · cases hs
      exact ⟨hsch, ht⟩
    · rename_i v hv
      cases hs
      exact ⟨hsch,
        ⟨ht.contents.frames, List.forall_mem_cons.2 ⟨ht.contents.resume v hv, ht.contents.stack⟩,
        ht.contents.result, nofun⟩, ht.inner⟩
    · cases hs
      exact Running.each_failWith hsch nofun

/-- What the next instruction leaves, in a module whose code waits in async functions only. -/
theorem within_next (hd : ∀ (id : Nat) (f : FunctionCode),
    p.module.functions[id]? = some f → f.Disciplined) (hl : (busy s).Levelled p)
    (hcode : ∀ (id : Nat) (f : FunctionCode), p.module.functions[id]? = some f →
      ∀ (ip : Nat) (i : Instr), f.code[ip]? = some i → i.Waits p.module.Sync f.isAsync)
    (hp : p.ForwardsFunctions p.module.Sync) (h : s.Within p.module.Sync) :
    s.WithinAfter p.module.Sync (Exec.next p s) := by
  cases hs : s.task.frames with
  | nil =>
    have hnext : Exec.next p s = .error (.fault (.of (.malformed .noFrame))) s := by
      unfold Exec.next
      simp only [Exec.bind_apply, Exec.get_apply, hs]
      rfl
    rw [hnext]
    exact ⟨h.1, rfl⟩
  | cons fr callers =>
    obtain ⟨⟨f, l, i, hat⟩, -⟩ := hl.poised hd hs
    have hops : (s.task.stack.take i.pops).reverse.length = i.pops := by
      have := hat.operands
      have := hat.fits.operands
      rw [List.length_reverse, List.length_take]
      omega
    have hstack : s.task.stack = (s.task.stack.take i.pops).reverse.reverse ++
        s.task.stack.drop i.pops := by
      rw [List.reverse_reverse, List.take_append_drop]
    have hnext : (s.withFrames ({ fr with ip := fr.ip + 1 } :: callers)).Within p.module.Sync :=
      h.works hs rfl h.1 rfl (show fr.Each _ from h.frame hs) h.2.contents.stack
    have hstep := Running.WithinAfter.step (f := f) hnext rfl hp
      (fun id g hg ha g' hg' => by
        rw [hg] at hg'
        exact Option.some.inj hg' ▸ ha)
      (hcode _ f hat.code _ i hat.instr) (fun hS => hS f hat.code) hops hstack
    rw [Exec.next_apply hs hat.code hat.instr]
    exact hstep.located _ _

theorem within_step (hd : ∀ (id : Nat) (f : FunctionCode),
    p.module.functions[id]? = some f → f.Disciplined)
    (hcode : ∀ (id : Nat) (f : FunctionCode), p.module.functions[id]? = some f →
      ∀ (ip : Nat) (i : Instr), f.code[ip]? = some i → i.Waits p.module.Sync f.isAsync)
    (hp : p.ForwardsFunctions p.module.Sync) {a b : MachineState} (hl : a.Levelled p)
    (h : a.Within p.module.Sync) (hs : a.step p = .ok b) : b.Within p.module.Sync := by
  cases a with
  | idle m => exact within_takeTurn h hs
  | busy s =>
    have hnext := within_next hd hl hcode hp h
    rw [step] at hs
    split at hs <;> rename_i hn <;> rw [hn] at hnext <;> cases hs
    · exact hnext
    · exact hnext.1.1.complete (fun v hv => by cases hv; exact hnext.2) hnext.1.2.contents.resume
    · exact hnext.1.1.putBack ⟨hnext.1.2.of_eq rfl rfl rfl rfl, hnext.2⟩
    · exact hnext.1.1.putBack ⟨hnext.1.2.of_eq rfl rfl rfl rfl, hnext.2⟩
    · refine Running.each_failWith hnext.1 fun v hv => ?_
      rw [hnext.2] at hv
      exact h.2.contents.resume v hv

/-- A task in an inner frame goes on running, unless it fails. -/
theorem keeps_running (hd : ∀ (id : Nat) (f : FunctionCode),
    p.module.functions[id]? = some f → f.Disciplined) (hl : (busy s).Levelled p)
    (hnext : s.WithinAfter S (Exec.next p s)) (hframes : 2 ≤ s.task.frames.length)
    {b : MachineState} (hs : (busy s).step p = .ok b) :
    (∃ s', b = busy s' ∧ s'.task.id = s.task.id) ∨
      ∃ m t f, b = idle m ∧ m.scheduler.get? s.task.id = some t ∧ t.state = .completed ∧
        t.result = some (.error f) := by
  obtain ⟨fr, callers, hfr⟩ := List.exists_cons_of_length_pos (Nat.zero_lt_of_lt hframes)
  obtain ⟨⟨f, l, i, hat⟩, -⟩ := hl.poised hd hfr
  have hw := works_next hd hl hfr hat
  rw [hfr, List.length_cons] at hframes
  rw [step] at hs
  cases hn : Exec.next p s with
  | ok flow s' =>
    rw [hn] at hw hnext hs
    cases hw with
    | goes hflow _ _ _ _ htask _ =>
      rcases hflow with rfl | rfl
      · cases hs
        exact .inl ⟨_, rfl, by rw [htask]⟩
      · have := hnext.2
        rw [htask] at this
        simp only [List.length_cons] at this
        omega
    | spawns _ _ _ htask _ =>
      cases hs
      exact .inl ⟨_, rfl, by rw [htask]⟩
    | waits _ _ _ _ htask _ =>
      have := hnext.2
      rw [htask] at this
      simp only [List.length_cons] at this
      omega
    | enters _ _ htask _ =>
      cases hs
      exact .inl ⟨_, rfl, by rw [htask]⟩
    | returns _ htask _ =>
      cases hs
      exact .inl ⟨_, rfl, by rw [htask]⟩
    | finishes hc _ _ =>
      subst hc
      simp at hframes
  | error t s' =>
    rw [hn] at hw hs
    cases t with
    | lost type => cases hs
    | fault g =>
      cases hs
      cases hw with
      | fails _ htask hsch =>
        have hid : s'.task.id = s.task.id := by rw [htask]
        have hcons : s'.scheduler.Consistent (some s'.task) := by
          refine (hl.1.attends hsch).consistent.change ?_
          have hre : s'.task.resumeWith = none := by
            rw [htask]
            exact hl.2
          rw [hre, ← hl.2]
          exact htask
        refine .inr ⟨_, (s'.scheduler.complete s'.task (.error g)).1, g, rfl, ?_, rfl, rfl⟩
        rw [Running.scheduler_failWith, (hcons.ended _).1, if_pos hid.symm]

theorem Within.framesOf {a : MachineState} (h : a.Within S) {task : Nat}
    (ht : 2 ≤ (a.framesOf task).length) : ∃ s, a = busy s ∧ s.task.id = task := by
  -- a task of the table has one frame at most
  have table {sch : Scheduler} (hsch : sch.Each (Task.Rests S))
      (ht : 2 ≤ (sch.framesOf task).length) : False := by
    rw [Scheduler.framesOf] at ht
    cases hget : sch.get? task with
    | none =>
      rw [hget] at ht
      exact absurd ht (by simp)
    | some t =>
      have hframes := (hsch task t hget).2
      rw [hget] at ht
      exact absurd (hframes.trans_lt ht) (lt_irrefl _)
  cases a with
  | idle m => exact (table h ht).elim
  | busy s =>
    rw [MachineState.framesOf] at ht
    split at ht
    · rename_i hid
      exact ⟨s, rfl, hid.symm⟩
    · exact (table h.1 ht).elim

end MachineState

namespace Linked

/-- In a run of an accepted program the tasks are as said of the functions that are not async. -/
theorem within_of_reaches {program : Program} {natives : List (String × Signature)}
    {typed : TProgram} (hcheck : program.check natives = .ok typed)
    (hcompile : typed.compile = .ok p.module) (hnames : (typed.functions.map TFunction.name).Nodup)
    (hp : p.ForwardsFunctions p.module.Sync) {name : String} {frame : Frame}
    (hframe : p.entry name = .ok frame) {start : Machine} {a : MachineState}
    (ha : (startState start frame).Reaches p a) : a.Levelled p ∧ a.Within p.module.Sync := by
  have hd (id : Nat) (f : FunctionCode) (hf : p.module.functions[id]? = some f) : f.Disciplined :=
    TProgram.disciplined_compile hcheck hcompile hf
  refine ha.preserves (I := fun a => a.Levelled p ∧ a.Within p.module.Sync) ?_ ?_
  · rintro b c ⟨hl, hw⟩ hstep
    exact ⟨MachineState.levelled_step hd hl hstep, MachineState.within_step hd
      (fun id f hf ip i hi => TProgram.waits_compile hcheck hcompile hnames hf hi) hp hl hw hstep⟩
  · obtain ⟨id, f, -, -, -, he⟩ := entry_ok hframe
    refine ⟨levelled_of_reaches hd hframe (.refl _), ?_⟩
    exact Scheduler.Each.spawn (s := .empty) (fun i t ht => by simp at ht)
      (Task.rests_start (Frame.each_enter he nofun nofun).2)

/-- Only the outermost frame of a task suspends. A task that awaits or yields has one frame, of an
async function; a task with inner frames is the one that runs, and it goes on running unless it
fails. The built-ins must not hand out async functions as values. -/
theorem only_outermost_suspends {program : Program} {natives : List (String × Signature)}
    {typed : TProgram} (hcheck : program.check natives = .ok typed)
    (hcompile : typed.compile = .ok p.module) (hnames : (typed.functions.map TFunction.name).Nodup)
    (hp : p.ForwardsFunctions p.module.Sync) {name : String} {frame : Frame}
    (hframe : p.entry name = .ok frame) {start : Machine} {a : MachineState}
    (ha : (startState start frame).Reaches p a) :
    (∀ s fr callers, a = .busy s → s.task.frames = fr :: callers →
      Exec.instr? p fr = some .await ∨ Exec.instr? p fr = some .yieldNow →
        callers = [] ∧ ∃ f, p.module.functions[fr.function]? = some f ∧ f.isAsync = true) ∧
    (∀ task, 2 ≤ (a.framesOf task).length → ∃ s, a = .busy s ∧ s.task.id = task) ∧
    ∀ s b, a = .busy s → 2 ≤ s.task.frames.length → a.step p = .ok b →
      (∃ s', b = .busy s' ∧ s'.task.id = s.task.id) ∨
        ∃ m t f, b = .idle m ∧ m.scheduler.get? s.task.id = some t ∧ t.state = .completed ∧
          t.result = some (.error f) := by
  have hd (id : Nat) (f : FunctionCode) (hf : p.module.functions[id]? = some f) : f.Disciplined :=
    TProgram.disciplined_compile hcheck hcompile hf
  have hcode (id : Nat) (f : FunctionCode) (hf : p.module.functions[id]? = some f)
      (ip : Nat) (i : Instr) (hi : f.code[ip]? = some i) : i.Waits p.module.Sync f.isAsync :=
    TProgram.waits_compile hcheck hcompile hnames hf hi
  have h := within_of_reaches hcheck hcompile hnames hp hframe ha
  refine ⟨?_, fun task ht => h.2.framesOf ht, ?_⟩
  · rintro s fr callers rfl hfr hi
    obtain ⟨⟨f, l, i, hat⟩, -⟩ := h.1.poised hd hfr
    have hinstr : Exec.instr? p fr = some i := by
      rw [Exec.instr?, hat.code]
      exact hat.instr
    have hwaits := hcode _ f hat.code _ i hat.instr
    have hasync : f.isAsync = true := by
      rw [hinstr] at hi
      rcases hi with hi | hi <;> cases hi <;> exact hwaits
    refine ⟨?_, f, hat.code, hasync⟩
    by_contra hc
    rw [h.2.inner hfr hc f hat.code] at hasync
    cases hasync
  · rintro s b rfl hframes hstep
    exact MachineState.keeps_running hd h.1 (MachineState.within_next hd h.1 hcode hp h.2)
      hframes hstep

/-- Its main task calls one function, which calls a built-in, and then awaits another. -/
def callsAndAwaits : Program where
  items := [
    .function ⟨"main", [], some .int,
      [.eval (.call (.name "one" none) [] none) none,
       .ret (some (.await (.call (.name "two" none) [] none) none)) none], true, none⟩,
    .function ⟨"one", [], some .int,
      [.ret (some (.call (.name "abs" none) [.int 1 none] none)) none], false, none⟩,
    .function ⟨"two", [], some .int, [.ret (some (.int 2 none)) none], true, none⟩]
  source := none

def checkedCallsAndAwaits : TProgram where
  structs := []
  functions := [{
    name := "main", params := [], ret := .int, isAsync := true, span := none
    body := [.eval (.mk (.call (.function "one") []) .int none) none,
      .ret (some (.mk (.await (.mk (.spawn "two" []) (.task .int) none)) .int none)) none] },
   { name := "one", params := [], ret := .int, isAsync := false, span := none
     body := [.ret (some (.mk (.call (.native "abs") [.mk (.int 1) .int none]) .int none)) none] },
   { name := "two", params := [], ret := .int, isAsync := true, span := none
     body := [.ret (some (.mk (.int 2) .int none)) none] }]
  source := none

def compiledCallsAndAwaits : Module where
  functions := #[
    ⟨"main", 0, 0, #[], [], true, [],
      #[.call 1 0, .pop, .spawn 2 0, .await, .ret, .const 0, .ret],
      #[.null], #[none, none, none, none, none, none, none]⟩,
    ⟨"one", 0, 0, #[], [], false, [], #[.const 0, .callNative 0 1, .ret, .const 1, .ret],
      #[.int 1, .null], #[none, none, none, none, none]⟩,
    ⟨"two", 0, 0, #[], [], true, [], #[.const 0, .ret, .const 1, .ret],
      #[.int 2, .null], #[none, none, none, none]⟩]
  structs := #[]
  natives := #["abs"]
  source := none

theorem check_callsAndAwaits :
    callsAndAwaits.check [("abs", Builtin.abs.signature)] = .ok checkedCallsAndAwaits := by
  cbv

theorem compile_callsAndAwaits : checkedCallsAndAwaits.compile = .ok compiledCallsAndAwaits := by
  cbv

/-- The machine on which the program runs. -/
def callsAndAwaitsLinked : Linked := ⟨compiledCallsAndAwaits, #[Builtin.abs], .default⟩

theorem callsAndAwaits_suspends :
    ∃ (s : Running) (fr : Frame) (callers : List Frame), s.task.frames = fr :: callers ∧
      Exec.instr? callsAndAwaitsLinked fr = some .await ∧ callers = [] := by
  let first : Frame := ⟨0, 0, ⟨#[], [[]]⟩, [], 0, false⟩
  have hentry : callsAndAwaitsLinked.entry "main" = .ok first := by cbv
  -- the call has returned, and the task has been started that is awaited
  have hsteps : ∃ s, (startState .empty first).Reaches callsAndAwaitsLinked (.busy s) ∧
      s.task.frames = [{ first with ip := 3 }] :=
    ⟨_, .tail (.tail (.tail (.tail (.tail (.tail (.tail .refl rfl) rfl) rfl) rfl) rfl) rfl) rfl,
      rfl⟩
  obtain ⟨s, hs, hframes⟩ := hsteps
  have hp : callsAndAwaitsLinked.ForwardsFunctions callsAndAwaitsLinked.module.Sync :=
    forwardsFunctions_of_scalars fun b hb => by
      rw [Array.mem_singleton.1 hb]
      exact Builtin.answersScalars_abs
  exact ⟨s, _, _, hframes, rfl,
    ((only_outermost_suspends check_callsAndAwaits compile_callsAndAwaits
    (by decide) hp hentry hs).1 s _ _ rfl hframes (.inl rfl)).1⟩

end Linked

end ScopedScript
