import ScopedScript.Proofs.Machine.Frames

/-!
# Frames through steps

A frame is known by its task and by the number of its callers. One step of the machine leaves such a
place alone, lets the frame there carry out an instruction, enters a frame there or leaves the one
that is there.
-/

namespace ScopedScript

/-- An event of the frame with `depth` callers in a task. -/
structure FrameEvent where
  task : Nat
  depth : Nat
  function : Nat
  event : BindingEvent
deriving DecidableEq, Repr

/-- The log entry for an event, if it is a release. -/
def FrameEvent.release? (p : Linked) (e : FrameEvent) : Option Release :=
  e.event.release? ((p.module.functions[e.function]?).getD default)

/-- The events of one place, in order. -/
def eventsAt (es : List FrameEvent) (task depth : Nat) : List BindingEvent :=
  (es.filter fun e => e.task = task ∧ e.depth = depth).map FrameEvent.event

theorem eventsAt_append (es fs : List FrameEvent) (task depth : Nat) :
    eventsAt (es ++ fs) task depth = eventsAt es task depth ++ eventsAt fs task depth := by
  simp [eventsAt]

namespace Frame

variable {fr : Frame}

/-- The slots that the arguments of a fresh frame are bound to are declared in it. -/
def entering (fr : Frame) : List BindingEvent :=
  .entered :: fr.bindings.scopes.flatten.reverse.map .declared

/-- What is live in the frame is released when the frame is left. -/
def leaving (fr : Frame) (kind : ReleaseKind) : List BindingEvent :=
  fr.bindings.exitAll.2.map (.released · kind) ++ [.left]

/-- Events of a frame, at its place. -/
def place (fr : Frame) (task depth : Nat) (es : List BindingEvent) : List FrameEvent :=
  es.map fun e => ⟨task, depth, fr.function, e⟩

theorem eventsAt_place (task depth : Nat) (es : List BindingEvent) (task' depth' : Nat) :
    eventsAt (fr.place task depth es) task' depth' =
      if task = task' ∧ depth = depth' then es else [] := by
  by_cases h : task = task' ∧ depth = depth'
  · simp [eventsAt, place, h, List.filter_map, Function.comp_def]
  · rw [if_neg h]
    simp only [eventsAt, place, List.map_eq_nil_iff, List.filter_eq_nil_iff, List.mem_map]
    rintro e ⟨b, -, rfl⟩
    simpa using h

end Frame

/-- All frames of a failed task are left, innermost first. -/
def unwinding (task : Nat) : List Frame → List FrameEvent
  | [] => []
  | fr :: callers => fr.place task callers.length (fr.leaving .unwind) ++ unwinding task callers

namespace Scheduler

/-- The frames of a task of the table, innermost first. -/
def framesOf (s : Scheduler) (task : Nat) : List Frame := ((s.get? task).map Task.frames).getD []

end Scheduler

/-- The events of a frame that was entered with `depth` callers, if the task has one. -/
def entered (task depth : Nat) : List Frame → List FrameEvent
  | new :: callers => if callers.length = depth then new.place task depth new.entering else []
  | [] => []

namespace Exec

/-- The instruction that a frame is at. -/
def instr? (p : Linked) (fr : Frame) : Option Instr :=
  (p.module.functions[fr.function]?).bind fun f => f.code[fr.ip]?

/-- What an instruction that succeeds does to the bindings of its own frame. -/
def localEvents (fr : Frame) : Instr → List BindingEvent
  | .declare slot => [.declared slot]
  | .move slot => [.released slot .moved]
  | .free slot => [.released slot .explicit]
  | .exitScope =>
    (Bindings.releaseAll fr.bindings.slots (fr.bindings.scopes.headD [])).2.map
      (.released · .scopeExit)
  | .ret => fr.leaving .scopeExit
  | _ => []

/-- The events of the frame that an instruction enters, if it does. The task had `depth` frames. -/
def newEvents (depth : Nat) (s s' : Running) : Instr → List FrameEvent
  | .spawn _ _ => entered s.scheduler.tasks.size 0 (s'.scheduler.framesOf s.scheduler.tasks.size)
  | i => if i.isCall then entered s.task.id depth s'.task.frames else []

theorem newEvents_of_isCall {i : Instr} (hi : i.isCall = true) (depth : Nat) (s s' : Running) :
    newEvents depth s s' i = entered s.task.id depth s'.task.frames := by
  cases i with
  | spawn function args => cases hi
  | _ => simp only [newEvents, hi, if_true]

/-- The events of the next instruction of the running task. -/
def events (p : Linked) (s : Running) : List FrameEvent :=
  match s.task.frames with
  | [] => []
  | fr :: callers =>
    match next p s, instr? p fr with
    | .error (.fault _) s', _ => unwinding s'.task.id s'.task.frames
    | .error (.lost _) _, _ | .ok _ _, none => []
    | .ok _ s', some i =>
      fr.place s.task.id callers.length (localEvents fr i) ++
        newEvents (callers.length + 1) s s' i

end Exec

namespace MachineState

/-- The frames of a task, innermost first. -/
def framesOf : MachineState → Nat → List Frame
  | idle m, task => m.scheduler.framesOf task
  | busy s, task => if task = s.task.id then s.task.frames else s.scheduler.framesOf task

def frameAt (s : MachineState) (task depth : Nat) : Option Frame :=
  (s.framesOf task).reverse[depth]?

/-- The events of the next step. -/
def events (p : Linked) : MachineState → List FrameEvent
  | idle m =>
    match m.scheduler.next? with
    | some (t, _) =>
      match t.resumeWith with
      | some (.error _) => unwinding t.id t.frames
      | _ => []
    | none => []
  | busy s => Exec.events p s

end MachineState

/-- What a step does to the frame at a place, if there is one. -/
inductive FrameStep (p : Linked) : Option Frame → List BindingEvent → Option Frame → Prop
  | stays (fr : Option Frame) : FrameStep p fr [] fr
  | moves {fr : Frame} {f : FunctionCode} {i : Instr} {es : List BindingEvent} {b : Bindings}
    {ip : Nat} (hf : p.module.functions[fr.function]? = some f) (hi : f.code[fr.ip]? = some i)
    (hb : i.Rebinds fr.bindings es b) (hip : i.Goes (fr.ip + 1) ip) :
    FrameStep p (some fr) es (some { fr with bindings := b, ip })
  | enters {new : Frame} (hn : new.Entered p) : FrameStep p none new.entering (some new)
  | leaves (fr : Frame) (kind : ReleaseKind) : FrameStep p (some fr) (fr.leaving kind) none

/-! Frames in the table of tasks. -/

theorem getElem?_reverse_cons (fr : Frame) (callers : List Frame) (depth : Nat) :
    (fr :: callers).reverse[depth]? =
      if depth = callers.length then some fr else callers.reverse[depth]? := by
  rw [List.reverse_cons, List.getElem?_append]
  simp only [List.length_reverse]
  split
  · rw [if_neg (by omega)]
  · split
    · rename_i h
      simp [h]
    · rw [List.getElem?_eq_none (by simp; omega), List.getElem?_eq_none (by simp; omega)]

theorem eventsAt_unwinding (task : Nat) (frames : List Frame) (task' depth : Nat) :
    eventsAt (unwinding task frames) task' depth =
      if task = task' then ((frames.reverse[depth]?).map (Frame.leaving · .unwind)).getD []
      else [] := by
  induction frames with
  | nil => simp [unwinding, eventsAt]
  | cons fr callers ih =>
    rw [unwinding, eventsAt_append, Frame.eventsAt_place, ih, getElem?_reverse_cons]
    by_cases ht : task = task'
    · by_cases hd : depth = callers.length
      · simp [ht, hd]
      · simp [ht, hd, Ne.symm hd]
    · simp [ht]

namespace Scheduler

variable {s s' : Scheduler} {t : Task} {i : Nat}

/-- The table has the same tasks with the same frames, and no more of them have completed. -/
def Carries (s s' : Scheduler) : Prop :=
  s'.tasks.size = s.tasks.size ∧ ∀ i,
    (s'.get? i).map (fun t => (t.id, t.frames)) = (s.get? i).map (fun t => (t.id, t.frames)) ∧
    ∀ t', s'.get? i = some t' → t'.state = .completed →
    ∃ t, s.get? i = some t ∧ t.state = .completed

theorem SameTasks.carries (h : s.SameTasks s') : s.Carries s' := by
  refine ⟨h.1, fun i => ⟨?_, fun t' ht' hs => ?_⟩⟩
  · have := congrArg (Option.map fun c : Nat × TaskState × List Frame => (c.1, c.2.2)) (h.2 i)
    rwa [Option.map_map, Option.map_map] at this
  · have := congrArg (Option.map fun c : Nat × TaskState × List Frame => c.2.1) (h.2 i)
    rw [Option.map_map, Option.map_map, ht', Option.map_some] at this
    obtain ⟨t, ht, hst⟩ := Option.map_eq_some_iff.1 this.symm
    exact ⟨t, ht, hst.trans hs⟩

theorem Carries.trans {s'' : Scheduler} (h : s.Carries s') (h' : s'.Carries s'') :
    s.Carries s'' := by
  refine ⟨h'.1.trans h.1, fun i => ⟨(h'.2 i).1.trans (h.2 i).1, fun t ht hs => ?_⟩⟩
  obtain ⟨t', ht', hs'⟩ := (h'.2 i).2 t ht hs
  exact (h.2 i).2 t' ht' hs'

theorem Carries.framesOf (h : s.Carries s') (i : Nat) : s'.framesOf i = s.framesOf i := by
  have := congrArg (Option.map Prod.snd) (h.2 i).1
  rw [Option.map_map, Option.map_map] at this
  exact congrArg (Option.getD · []) this

theorem framesOf_spawn (s : Scheduler) (frame : Frame) (i : Nat) :
    (s.spawn frame).2.framesOf i = if i = s.tasks.size then [frame] else s.framesOf i := by
  rw [framesOf, get?_spawn]
  split <;> rfl

theorem framesOf_putBack (ht : t.id < s.tasks.size) (i : Nat) :
    (s.putBack t).framesOf i = if i = t.id then t.frames else s.framesOf i := by
  rw [framesOf, get?_putBack]
  by_cases hi : i = t.id
  · rw [if_pos hi, if_pos ⟨hi.symm, hi ▸ ht⟩]
    rfl
  · rw [if_neg hi, if_neg fun h => hi h.1.symm]
    rfl

/-- Waking a task leaves its frames alone. -/
theorem carries_wake (outcome : Outcome) (s : Scheduler) (w : Nat) :
    s.Carries (wake outcome s w) := by
  cases hw : s.get? w with
  | none =>
    have : wake outcome s w = s := by simp [wake, hw]
    rw [this]
    exact (SameTasks.refl s).carries
  | some t =>
    rw [wake_eq hw]
    refine ⟨size_modifyTask s w _, fun i => ?_⟩
    change (Option.map _ ((s.modifyTask w (woken outcome)).get? i) = _) ∧
      ∀ t', (s.modifyTask w (woken outcome)).get? i = some t' → _
    rw [get?_modifyTask]
    split
    · refine ⟨by rw [Option.map_map]; rfl, fun t' ht' hs => ?_⟩
      obtain ⟨u, -, rfl⟩ := Option.map_eq_some_iff.1 ht'
      cases hs
    · exact ⟨rfl, fun t' ht' hs => ⟨t', ht', hs⟩⟩

theorem carries_wakeAll (outcome : Outcome) (ws : List Nat) (s : Scheduler) :
    s.Carries (ws.foldl (wake outcome) s) := by
  induction ws generalizing s with
  | nil => exact (SameTasks.refl s).carries
  | cons w rest ih => exact (carries_wake outcome s w).trans (ih _)

theorem takeFirst_some {tasks : Array (Option Task)} {queue : List Nat}
    (h : takeFirst tasks queue = some (t, s')) :
    ∃ i u rest, (tasks[i]?).join = some u ∧ t = { u with state := .running } ∧
      s' = ⟨tasks.setIfInBounds i none, rest⟩ := by
  induction queue with
  | nil => cases h
  | cons i rest ih =>
    rw [takeFirst] at h
    split at h
    · rename_i u hu
      cases h
      exact ⟨i, u, rest, hu, rfl, rfl⟩
    · exact ih h

theorem framesOf_taken (s : Scheduler) (j : Nat) (rest : List Nat) (i : Nat) :
    framesOf ⟨s.tasks.setIfInBounds j none, rest⟩ i = if i = j then [] else s.framesOf i := by
  rw [framesOf, get?_taken]
  by_cases h : i = j
  · rw [if_pos h, if_pos h.symm]
    rfl
  · rw [if_neg h, if_neg (Ne.symm h)]
    rfl

/-- Where the tasks are, and that the code of their frames is there. -/
structure Tidy (p : Linked) (s : Scheduler) (running : Option Task) : Prop where
  id_eq : ∀ i t, s.get? i = some t → t.id = i
  runs : ∀ t, running = some t → t.id < s.tasks.size ∧ s.get? t.id = none
  completed : ∀ i t, s.get? i = some t → t.state = .completed → t.frames = []
  known : ∀ t, s.Knows running t → ∀ fr ∈ t.frames, ∃ f, p.module.functions[fr.function]? = some f

variable {p : Linked}

theorem tidy_start {frame : Frame} (h : frame.Entered p) :
    (Scheduler.empty.spawn frame).2.Tidy p none := by
  have hg : ∀ i t, (Scheduler.empty.spawn frame).2.get? i = some t →
      i = 0 ∧ t = Task.start 0 frame := by
    intro i t ht
    rw [get?_spawn] at ht
    split at ht
    · cases ht
      exact ⟨‹_›, rfl⟩
    · cases ht
  generalize (Scheduler.empty.spawn frame).2 = s at hg ⊢
  constructor
  case id_eq =>
    intro i t ht
    obtain ⟨rfl, rfl⟩ := hg i t ht
    rfl
  case runs => exact fun t ht => nomatch ht
  case completed =>
    intro i t ht hs
    obtain ⟨-, rfl⟩ := hg i t ht
    cases hs
  case known =>
    rintro t (ht | ht) fr hfr
    · obtain ⟨-, rfl⟩ := hg _ t ht
      obtain rfl : fr = frame := by simpa [Task.start] using hfr
      obtain ⟨f, -, -, -, -, hf, -⟩ := h
      exact ⟨f, hf⟩
    · cases ht

/-- The running task changes, and the others stay where they stood. -/
theorem Tidy.carry {u : Task} (h : s.Tidy p (some t)) (hc : s.Carries s') (hid : u.id = t.id)
    (hu : ∀ fr ∈ u.frames, ∃ f, p.module.functions[fr.function]? = some f) :
    s'.Tidy p (some u) := by
  have old : ∀ i v, s'.get? i = some v → ∃ w, s.get? i = some w ∧ w.id = v.id ∧
      w.frames = v.frames := by
    intro i v hv
    have := (hc.2 i).1
    rw [hv, Option.map_some] at this
    obtain ⟨w, hw, he⟩ := Option.map_eq_some_iff.1 this.symm
    exact ⟨w, hw, congrArg Prod.fst he, congrArg Prod.snd he⟩
  constructor
  case id_eq =>
    intro i v hv
    obtain ⟨w, hw, hwid, -⟩ := old i v hv
    exact hwid.symm.trans (h.id_eq i w hw)
  case runs =>
    rintro _ ⟨⟩
    obtain ⟨hlt, hnone⟩ := h.runs t rfl
    rw [hid, hc.1]
    refine ⟨hlt, ?_⟩
    have := (hc.2 t.id).1
    rw [hnone] at this
    simpa using this
  case completed =>
    intro i v hv hs
    obtain ⟨w, hw, hws⟩ := (hc.2 i).2 v hv hs
    obtain ⟨w', hw', -, hfr⟩ := old i v hv
    rw [hw] at hw'
    cases hw'
    exact hfr ▸ h.completed i w hw hws
  case known =>
    rintro v (hv | hv) fr hfr
    · obtain ⟨w, hw, hwid, hwfr⟩ := old _ v hv
      exact h.known w (.inl (hwid ▸ hw)) fr (hwfr ▸ hfr)
    · cases hv
      exact hu fr hfr

/-- The running task is put back. -/
theorem Tidy.putBack (h : s.Tidy p (some t)) (hs : t.state = .completed → t.frames = []) :
    (s.putBack t).Tidy p none := by
  have hg : ∀ i u, (s.putBack t).get? i = some u → i = t.id ∧ u = t ∨ s.get? i = some u := by
    intro i u hu
    rw [get?_putBack] at hu
    split at hu
    · rename_i hi
      cases hu
      exact .inl ⟨hi.1.symm, rfl⟩
    · exact .inr hu
  constructor
  case id_eq =>
    intro i u hu
    rcases hg i u hu with ⟨hi, rfl⟩ | hu
    · exact hi.symm
    · exact h.id_eq i u hu
  case runs => exact fun t ht => nomatch ht
  case completed =>
    intro i u hu
    rcases hg i u hu with ⟨-, rfl⟩ | hu
    · exact hs
    · exact h.completed i u hu
  case known =>
    rintro u (hu | hu)
    · rcases hg _ u hu with ⟨-, rfl⟩ | hu
      · exact h.known u (.inr rfl)
      · exact h.known u (.inl hu)
    · cases hu

theorem Tidy.spawn (h : s.Tidy p (some t)) {frame : Frame} (hf : frame.Entered p) :
    (s.spawn frame).2.Tidy p (some t) := by
  have hg : ∀ i u, (s.spawn frame).2.get? i = some u →
      i = s.tasks.size ∧ u = Task.start i frame ∨ s.get? i = some u := by
    intro i u hu
    rw [get?_spawn] at hu
    split at hu
    · rename_i hi
      cases hu
      exact .inl ⟨hi, hi ▸ rfl⟩
    · exact .inr hu
  constructor
  case id_eq =>
    intro i u hu
    rcases hg i u hu with ⟨-, rfl⟩ | hu
    · rfl
    · exact h.id_eq i u hu
  case runs =>
    rintro _ ⟨⟩
    obtain ⟨hlt, hnone⟩ := h.runs t rfl
    rw [size_spawn, get?_spawn, if_neg (Nat.ne_of_lt hlt)]
    exact ⟨Nat.lt_succ_of_lt hlt, hnone⟩
  case completed =>
    intro i u hu hs
    rcases hg i u hu with ⟨-, rfl⟩ | hu
    · cases hs
    · exact h.completed i u hu hs
  case known =>
    rintro u (hu | hu) fr hfr
    · rcases hg _ _ hu with ⟨-, hu'⟩ | hu
      · rw [hu'] at hfr
        obtain rfl : fr = frame := by simpa [Task.start] using hfr
        obtain ⟨f, -, -, -, -, hf, -⟩ := hf
        exact ⟨f, hf⟩
      · exact h.known u (.inl hu) fr hfr
    · cases hu
      exact h.known t (.inr rfl) fr hfr

theorem Tidy.take (h : s.Tidy p none) {u : Task} (hi : s.get? i = some u) (rest : List Nat)
    {t : Task} (hid : t.id = u.id) (hfr : t.frames = u.frames) :
    Scheduler.Tidy p ⟨s.tasks.setIfInBounds i none, rest⟩ (some t) := by
  have hg : ∀ j v, Scheduler.get? ⟨s.tasks.setIfInBounds i none, rest⟩ j = some v →
      s.get? j = some v := by
    intro j v hv
    rw [get?_taken] at hv
    split at hv
    · cases hv
    · exact hv
  have huid := h.id_eq i u hi
  constructor
  case id_eq => exact fun j v hv => h.id_eq j v (hg j v hv)
  case runs =>
    rintro _ ⟨⟩
    rw [get?_taken, if_pos (hid.trans huid).symm, Array.size_setIfInBounds, hid, huid]
    exact ⟨get?_lt_size hi, rfl⟩
  case completed => exact fun j v hv => h.completed j v (hg j v hv)
  case known =>
    rintro v (hv | hv)
    · exact h.known v (.inl (hg _ v hv))
    · cases hv
      rw [hfr]
      exact h.known u (.inl (huid ▸ hi))

end Scheduler

namespace Frame

variable {p : Linked} {fr : Frame} {f : FunctionCode}

theorem release?_place (hf : p.module.functions[fr.function]? = some f) (task depth : Nat)
    (es : List BindingEvent) :
    (fr.place task depth es).filterMap (FrameEvent.release? p) =
      es.filterMap (BindingEvent.release? f) := by
  rw [place, List.filterMap_map]
  congr 1
  funext e
  simp [FrameEvent.release?, hf]

theorem release?_entering (f : FunctionCode) (fr : Frame) :
    fr.entering.filterMap (BindingEvent.release? f) = [] := by
  simp only [entering, List.filterMap_eq_nil_iff, List.mem_cons, List.mem_map]
  rintro e (rfl | ⟨slot, -, rfl⟩) <;> rfl

theorem release?_leaving (f : FunctionCode) (fr : Frame) (kind : ReleaseKind) :
    (fr.leaving kind).filterMap (BindingEvent.release? f) =
      (fr.bindings.exitAll.2.map (BindingEvent.released · kind)).filterMap
        (BindingEvent.release? f) := by
  simp [leaving, BindingEvent.release?, List.filterMap_append]

end Frame

/-- The log grows by the releases among the events. -/
def Machine.Grows (p : Linked) (es : List FrameEvent) (m m' : Machine) : Prop :=
  m'.releases.toList = m.releases.toList ++
    if p.config.recordReleases then es.filterMap (FrameEvent.release? p) else []

theorem Machine.Grows.append {p : Linked} {es fs : List FrameEvent} {m m' m'' : Machine}
    (h : m.Grows p es m') (h' : m'.Grows p fs m'') : m.Grows p (es ++ fs) m'' := by
  rw [Grows, h', h]
  split <;> simp

theorem Machine.grows_unwind {p : Linked} (task : Nat) {frames : List Frame}
    (hk : ∀ fr ∈ frames, ∃ f, p.module.functions[fr.function]? = some f) (m : Machine) :
    m.Grows p (unwinding task frames) (frames.foldl
      (fun m fr => m.record p fr.function .unwind fr.bindings.exitAll.2) m) := by
  induction frames generalizing m with
  | nil => simp [Grows, unwinding]
  | cons fr callers ih =>
    obtain ⟨f, hf⟩ := hk fr (by simp)
    have hfirst : m.Grows p (fr.place task callers.length (fr.leaving .unwind))
        (m.record p fr.function .unwind fr.bindings.exitAll.2) := by
      rw [Grows, Frame.release?_place hf, Frame.release?_leaving]
      exact Machine.logs_record hf m .unwind _
    exact hfirst.append (ih (fun fr hfr => hk fr (by simp [hfr])) _)

namespace MachineState

def machine : MachineState → Machine
  | idle m => m
  | busy s => s.toMachine

/-- Every task is where it belongs. -/
def Tidy (p : Linked) : MachineState → Prop
  | idle m => m.scheduler.Tidy p none
  | busy s => s.scheduler.Tidy p (some s.task)

/-- One machine state follows another with some events. -/
structure Advance (p : Linked) (a : MachineState) (es : List FrameEvent) (b : MachineState) :
    Prop where
  tidy : b.Tidy p
  frames : ∀ task depth,
    FrameStep p (a.frameAt task depth) (eventsAt es task depth) (b.frameAt task depth)
  log : a.machine.Grows p es b.machine

variable {p : Linked} {a b : MachineState} {s : Running}

/-- Only the frames of one task have changed. -/
theorem frames_of_own {es : List FrameEvent} (own : Nat)
    (hother : ∀ task, task ≠ own →
      b.framesOf task = a.framesOf task ∧ ∀ depth, eventsAt es task depth = [])
    (hown : ∀ depth,
      FrameStep p (a.frameAt own depth) (eventsAt es own depth) (b.frameAt own depth))
    (task depth : Nat) :
    FrameStep p (a.frameAt task depth) (eventsAt es task depth) (b.frameAt task depth) := by
  by_cases h : task = own
  · rw [h]
    exact hown depth
  · obtain ⟨hfr, he⟩ := hother task h
    rw [frameAt, frameAt, hfr, he depth]
    exact .stays _

theorem framesOf_completeWith (h : s.scheduler.Tidy p (some s.task)) (o : Outcome) (task : Nat) :
    (idle (s.completeWith o)).framesOf task =
      if task = s.task.id then [] else s.scheduler.framesOf task := by
  have hc := Scheduler.carries_wakeAll o s.task.waiters s.scheduler
  have hlt : s.task.id < (s.task.waiters.foldl (Scheduler.wake o) s.scheduler).tasks.size := by
    rw [hc.1]
    exact (h.runs _ rfl).1
  change ((s.scheduler.complete s.task o).2.putBack (s.scheduler.complete s.task o).1).framesOf
    task = _
  refine (Scheduler.framesOf_putBack (s := (s.scheduler.complete s.task o).2)
    (t := (s.scheduler.complete s.task o).1) hlt task).trans ?_
  change (if task = s.task.id then [] else _) = _
  split
  · rfl
  · exact hc.framesOf task

theorem tidy_completeWith (h : s.scheduler.Tidy p (some s.task)) (o : Outcome) :
    (idle (s.completeWith o)).Tidy p := by
  have hc := Scheduler.carries_wakeAll o s.task.waiters s.scheduler
  refine (h.carry (u := (s.scheduler.complete s.task o).1) hc rfl ?_).putBack fun _ => rfl
  exact nofun

/-- A task that fails leaves all its frames. -/
theorem failWith_spec (h : s.scheduler.Tidy p (some s.task)) (f : Fault) :
    (idle (s.failWith p f)).Tidy p ∧
    (∀ task, (idle (s.failWith p f)).framesOf task =
      if task = s.task.id then [] else s.scheduler.framesOf task) ∧
    s.toMachine.Grows p (unwinding s.task.id s.task.frames) (s.failWith p f) := by
  have hm := Machine.grows_unwind s.task.id (h.known _ (.inr rfl)) s.toMachine
  have hs := Machine.scheduler_unwind (p := p) s.task.frames s.toMachine
  unfold Running.failWith
  generalize s.task.frames.foldl _ s.toMachine = m at hm hs
  have h' : Scheduler.Tidy p ({ s with toMachine := m } : Running).scheduler (some s.task) := by
    rw [show ({ s with toMachine := m } : Running).scheduler = s.scheduler from hs]
    exact h
  refine ⟨tidy_completeWith h' _, fun task => ?_, hm⟩
  rw [framesOf_completeWith h', ← hs]

theorem eventsAt_unwinding_other {own task : Nat} (h : task ≠ own) (frames : List Frame)
    (depth : Nat) : eventsAt (unwinding own frames) task depth = [] := by
  rw [eventsAt_unwinding, if_neg (Ne.symm h)]

/-- All frames of a failed task are gone. -/
theorem frameStep_unwinding (own depth : Nat) (frames : List Frame) :
    FrameStep p frames.reverse[depth]? (eventsAt (unwinding own frames) own depth) none := by
  rw [eventsAt_unwinding, if_pos rfl]
  cases frames.reverse[depth]? with
  | none => exact .stays none
  | some fr => exact .leaves fr .unwind

/-- A task that begins its turn keeps its frames, and the others theirs. -/
theorem turn_spec {m : Machine} {t : Task} {sch : Scheduler} (h : (idle m).Tidy p)
    (hn : m.scheduler.next? = some (t, sch)) (hs : s.scheduler = sch) (hid : s.task.id = t.id)
    (hfr : s.task.frames = t.frames) :
    (busy s).Tidy p ∧ ∀ task, (busy s).framesOf task = (idle m).framesOf task := by
  obtain ⟨i, u, rest, hu, ht, hsch⟩ := Scheduler.takeFirst_some hn
  have htu : t.id = u.id ∧ t.frames = u.frames := by
    rw [ht]
    exact ⟨rfl, rfl⟩
  constructor
  · rw [Tidy, hs, hsch]
    exact Scheduler.Tidy.take h hu rest (hid.trans htu.1) (hfr.trans htu.2)
  · intro task
    rw [framesOf, framesOf, hs, hsch, Scheduler.framesOf_taken, hid, htu.1, h.id_eq i u hu]
    split
    · rename_i htask
      rw [hfr, htu.2, htask, Scheduler.framesOf, Scheduler.get?, hu]
      rfl
    · rfl

theorem advance_takeTurn {m : Machine} (h : (idle m).Tidy p) (hs : takeTurn p m = .ok b) :
    Advance p (idle m) ((idle m).events p) b := by
  unfold takeTurn at hs
  cases hn : m.scheduler.next? with
  | none =>
    rw [hn] at hs
    cases hs
  | some turn =>
    obtain ⟨t, sch⟩ := turn
    have hstay : ∀ (s : Running), s.scheduler = sch → s.releases = m.releases →
        s.task.id = t.id → s.task.frames = t.frames → Advance p (idle m) [] (busy s) := by
      intro s h₁ h₂ h₃ h₄
      obtain ⟨htidy, hframes⟩ := turn_spec h hn h₁ h₃ h₄
      refine ⟨htidy, fun task depth => ?_, ?_⟩
      · rw [frameAt, frameAt, hframes]
        exact .stays _
      · rw [Machine.Grows, machine, machine, h₂]
        simp
    simp only [hn] at hs
    simp only [events, hn]
    cases hre : t.resumeWith with
    | none =>
      rw [hre] at hs
      cases hs
      exact hstay _ rfl rfl rfl rfl
    | some outcome =>
      rw [hre] at hs
      cases outcome with
      | ok v =>
        cases hs
        exact hstay _ rfl rfl rfl rfl
      | error f =>
        cases hs
        have hst := hstay { m with scheduler := sch, task := { t with resumeWith := none } }
          rfl rfl rfl rfl
        have hframes (task : Nat) :
            (busy { m with scheduler := sch, task := t }).framesOf task = (idle m).framesOf task :=
          (turn_spec h hn rfl rfl rfl).2 task
        -- whatever else becomes of the task, its frames stay until it fails
        obtain ⟨htidy, hfr, hlog⟩ := failWith_spec hst.tidy f
        refine ⟨htidy, frames_of_own t.id (fun task htask => ⟨?_, ?_⟩) ?_, hlog⟩
        · rw [hfr, if_neg htask, ← hframes, framesOf, if_neg htask]
        · exact eventsAt_unwinding_other htask _
        · intro depth
          rw [frameAt, frameAt, hfr, if_pos rfl, ← hframes, framesOf, if_pos rfl]
          exact frameStep_unwinding _ _ _

theorem leads_spec {f : FunctionCode} {es : List BindingEvent} {frames : List Frame}
    {s₀ s' : Running} (h : Exec.Leads p f es frames s₀ s') (ht : s₀.scheduler.Tidy p (some s₀.task))
    (hk : ∀ fr ∈ frames, ∃ f, p.module.functions[fr.function]? = some f) :
    s'.scheduler.Tidy p (some s'.task) ∧ s'.task.id = s₀.task.id ∧ s'.task.frames = frames ∧
      ∀ i, s'.scheduler.framesOf i = s₀.scheduler.framesOf i := by
  have hfr : s'.task.frames = frames := by rw [h.task]
  have hid : s'.task.id = s₀.task.id := by rw [h.task]
  exact ⟨ht.carry h.scheduler.carries hid (hfr ▸ hk), hid, hfr, h.scheduler.carries.framesOf⟩

/-- A task that makes way for others keeps its frames. -/
theorem suspendAs_spec (h : s.scheduler.Tidy p (some s.task)) (state : TaskState)
    (hs : state ≠ .completed) :
    (idle (s.suspendAs state)).Tidy p ∧
      ∀ task, (idle (s.suspendAs state)).framesOf task = (busy s).framesOf task := by
  constructor
  · refine Scheduler.Tidy.putBack (t := { s.task with state }) ?_ fun h => absurd h hs
    exact h.carry (Scheduler.SameTasks.refl _).carries rfl (h.known s.task (.inr rfl))
  · intro task
    exact Scheduler.framesOf_putBack (t := { s.task with state }) (h.runs _ rfl).1 task

/-- The innermost frame of the task becomes another one, or is left. -/
theorem frameStep_innermost {fr : Frame} {callers : List Frame} {es : List BindingEvent}
    {new : List Frame} {fr' : Option Frame} (own depth : Nat)
    (hnew : ∀ depth, new.reverse[depth]? =
      if depth = callers.length then fr' else callers.reverse[depth]?)
    (h : FrameStep p (some fr) es fr') :
    FrameStep p (fr :: callers).reverse[depth]?
      (eventsAt (fr.place own callers.length es) own depth) new.reverse[depth]? := by
  rw [getElem?_reverse_cons, Frame.eventsAt_place, hnew]
  by_cases hd : depth = callers.length
  · simpa [hd] using h
  · simp only [hd, Ne.symm hd, and_false, if_false]
    exact .stays _

theorem entered_eq_nil {task depth : Nat} {frames : List Frame} (h : frames.length ≠ depth + 1) :
    entered task depth frames = [] := by
  cases frames with
  | nil => rfl
  | cons fr callers => exact if_neg fun hd => h (congrArg (· + 1) hd)

theorem framesOf_size (s : Scheduler) : s.framesOf s.tasks.size = [] := by
  rw [Scheduler.framesOf, Scheduler.get?, Array.getElem?_eq_none (Nat.le_refl _)]
  rfl

theorem newEvents_eq_nil {i : Instr} {depth : Nat} {s' : Running}
    (h : s'.task.frames.length ≠ depth + 1)
    (hsame : ∀ i, s'.scheduler.framesOf i = s.scheduler.framesOf i) :
    Exec.newEvents depth s s' i = [] := by
  cases i with
  | spawn function args =>
    rw [Exec.newEvents, hsame, framesOf_size]
    rfl
  | _ =>
    simp only [Exec.newEvents]
    split
    · exact entered_eq_nil h
    · rfl

theorem rebinds_localEvents {i : Instr} (fr : Frame) {es : List BindingEvent} {b : Bindings}
    (h : i.Rebinds fr.bindings es b) : Exec.localEvents fr i = es := by
  cases h with
  | same b hi => cases i <;> first | rfl | cases hi
  | _ => rfl

/-- A step by an instruction that was trapped. -/
theorem advance_failed {s' : Running} {fr fr' : Frame} {callers : List Frame}
    (hs : s.task.frames = fr :: callers) (hid : s'.task.id = s.task.id)
    (hs' : s'.task.frames = fr' :: callers) (hb : fr'.bindings = fr.bindings)
    (h : s'.scheduler.Tidy p (some s'.task)) (hlog : s'.releases.toList = s.releases.toList)
    (hother : ∀ i, s'.scheduler.framesOf i = s.scheduler.framesOf i) (f : Fault) :
    Advance p (busy s) (unwinding s'.task.id s'.task.frames) (idle (s'.failWith p f)) := by
  obtain ⟨htidy, hfr, hgrow⟩ := failWith_spec h f
  refine ⟨htidy, frames_of_own s.task.id (fun task htask => ⟨?_, ?_⟩) ?_, ?_⟩
  · rw [hfr, framesOf, hid, if_neg htask, if_neg htask, hother]
  · exact eventsAt_unwinding_other (hid ▸ htask) _
  · intro depth
    rw [frameAt, frameAt, hfr, hid, if_pos rfl, framesOf, if_pos rfl, hs, hs',
      eventsAt_unwinding, if_pos rfl, getElem?_reverse_cons, getElem?_reverse_cons]
    by_cases hd : depth = callers.length
    · simp only [hd, if_true, Option.map_some, Option.getD_some, List.reverse_nil,
        List.getElem?_nil]
      have : fr'.leaving .unwind = fr.leaving .unwind := by simp only [Frame.leaving, hb]
      rw [this]
      exact .leaves fr .unwind
    · simp only [hd, if_false]
      cases callers.reverse[depth]? with
      | none => exact .stays none
      | some fr => exact .leaves fr .unwind
  · rw [Machine.Grows, machine, machine, ← hlog]
    exact hgrow

/-- A task without frames fails. -/
theorem step_noFrame (hs : s.task.frames = []) :
    MachineState.step p (busy s) = .ok (idle (s.failWith p (.of (.malformed .noFrame)))) := by
  have hn : Exec.next p s = .error (.fault (.of (.malformed .noFrame))) s := by
    unfold Exec.next
    simp only [Exec.bind_apply, Exec.get_apply, hs]
    rfl
  rw [MachineState.step, hn]

theorem advance_noFrame (h : (busy s).Tidy p) (hs : s.task.frames = [])
    (hb : MachineState.step p (busy s) = .ok b) : Advance p (busy s) ((busy s).events p) b := by
  rw [step_noFrame hs] at hb
  cases hb
  have hev : (busy s).events p = unwinding s.task.id s.task.frames := by
    simp [events, Exec.events, hs, unwinding]
  obtain ⟨htidy, hfr, hgrow⟩ := failWith_spec h (.of (.malformed .noFrame))
  rw [hev]
  refine ⟨htidy, frames_of_own s.task.id (fun task htask => ⟨?_, ?_⟩) ?_, hgrow⟩
  · rw [hfr, framesOf, if_neg htask, if_neg htask]
  · exact eventsAt_unwinding_other htask _
  · intro depth
    rw [frameAt, frameAt, hfr, if_pos rfl, framesOf, if_pos rfl]
    exact frameStep_unwinding _ _ _

section

/-! The innermost frame of the task carries out an instruction. -/

variable {fr : Frame} {callers : List Frame} {f : FunctionCode} {i : Instr} {flow : Flow}
  {s' : Running}

/-- The frames of a task are frames of functions. -/
theorem known_of_tidy (h : (busy s).Tidy p) (hs : s.task.frames = fr :: callers)
    (hf : p.module.functions[fr.function]? = some f) (fr' : Frame)
    (hfr : fr'.function = fr.function) :
    ∀ g ∈ fr' :: callers, ∃ f, p.module.functions[g.function]? = some f := by
  have hknown := h.known s.task (.inr rfl)
  intro g hg
  rcases List.mem_cons.1 hg with rfl | hg
  · exact ⟨f, hfr ▸ hf⟩
  · exact hknown g (by simp [hs, hg])

theorem advance_goes {es : List BindingEvent} {bd : Bindings} {ip : Nat} (h : (busy s).Tidy p)
    (hs : s.task.frames = fr :: callers) (hf : p.module.functions[fr.function]? = some f)
    (hi : f.code[fr.ip]? = some i) (hr : Exec.next p s = .ok flow s')
    (hflow : ∀ v, flow ≠ .finished v) (hbd : i.Rebinds fr.bindings es bd)
    (hip : i.Goes (fr.ip + 1) ip)
    (hl : Exec.Leads p f es ({ fr with bindings := bd, ip } :: callers) s s')
    (hb : MachineState.step p (busy s) = .ok b) : Advance p (busy s) ((busy s).events p) b := by
  have hinstr : Exec.instr? p fr = some i := by rw [Exec.instr?, hf, Option.bind_some, hi]
  obtain ⟨htidy, hid, hfr, hother⟩ := leads_spec hl h (known_of_tidy h hs hf _ rfl)
  have hb' : b.Tidy p ∧ (∀ task, b.framesOf task = (busy s').framesOf task) ∧
      b.machine.releases = s'.releases := by
    rw [MachineState.step, hr] at hb
    cases flow with
    | goOn =>
      cases hb
      exact ⟨htidy, fun _ => rfl, rfl⟩
    | finished v => exact absurd rfl (hflow v)
    | yielded =>
      cases hb
      obtain ⟨h₁, h₂⟩ := suspendAs_spec htidy .ready (by decide)
      exact ⟨h₁, h₂, rfl⟩
    | suspended =>
      cases hb
      obtain ⟨h₁, h₂⟩ := suspendAs_spec htidy .suspended (by decide)
      exact ⟨h₁, h₂, rfl⟩
  have hev : (busy s).events p = fr.place s.task.id callers.length es := by
    have hnone : Exec.newEvents (callers.length + 1) s s' i = [] :=
      newEvents_eq_nil (by simp [hfr]) hother
    simp only [events, Exec.events, hs, hr, hinstr]
    rw [rebinds_localEvents fr hbd, hnone, List.append_nil]
  rw [hev]
  refine ⟨hb'.1, frames_of_own s.task.id (fun task htask => ⟨?_, ?_⟩) ?_, ?_⟩
  · rw [hb'.2.1, framesOf, framesOf, hid, if_neg htask, if_neg htask, hother]
  · intro depth
    rw [Frame.eventsAt_place, if_neg fun hd => htask hd.1.symm]
  · intro depth
    rw [frameAt, frameAt, hb'.2.1, framesOf, framesOf, hid, if_pos rfl, if_pos rfl, hs, hfr]
    exact frameStep_innermost _ _ (getElem?_reverse_cons _ _) (.moves hf hi hbd hip)
  · rw [Machine.Grows, Frame.release?_place hf, hb'.2.2]
    exact hl.releases

theorem advance_enters {new : Frame} (h : (busy s).Tidy p) (hs : s.task.frames = fr :: callers)
    (hf : p.module.functions[fr.function]? = some f) (hi : f.code[fr.ip]? = some i)
    (hr : Exec.next p s = .ok .goOn s') (hi' : i.isCall = true) (hnew : new.Entered p)
    (hl : Exec.Leads p f [] (new :: { fr with ip := fr.ip + 1 } :: callers) s s') :
    Advance p (busy s) ((busy s).events p) (busy s') := by
  have hinstr : Exec.instr? p fr = some i := by rw [Exec.instr?, hf, Option.bind_some, hi]
  obtain ⟨g, -, -, -, -, hg, -⟩ := id hnew
  obtain ⟨htidy, hid, hfr, hother⟩ := leads_spec hl h fun x hx => by
    rcases List.mem_cons.1 hx with rfl | hx
    · exact ⟨g, hg⟩
    · exact known_of_tidy h hs hf { fr with ip := fr.ip + 1 } rfl x hx
  have hev : (busy s).events p = new.place s.task.id (callers.length + 1) new.entering := by
    have hlocal : Exec.localEvents fr i = [] := by cases i <;> first | rfl | cases hi'
    simp only [events, Exec.events, hs, hr, hinstr, hlocal]
    rw [Exec.newEvents_of_isCall hi', hfr]
    exact if_pos rfl
  rw [hev]
  refine ⟨htidy, frames_of_own s.task.id (fun task htask => ⟨?_, ?_⟩) ?_, ?_⟩
  · rw [framesOf, framesOf, hid, if_neg htask, if_neg htask, hother]
  · intro depth
    rw [Frame.eventsAt_place, if_neg fun hd => htask hd.1.symm]
  · intro depth
    rw [frameAt, frameAt, framesOf, framesOf, hid, if_pos rfl, if_pos rfl, hs, hfr,
      Frame.eventsAt_place, getElem?_reverse_cons, getElem?_reverse_cons,
      getElem?_reverse_cons, List.length_cons]
    by_cases hd : depth = callers.length + 1
    · rw [if_neg (by omega), if_pos hd, if_pos ⟨rfl, hd.symm⟩,
        List.getElem?_eq_none (by simp [hd])]
      exact .enters hnew
    · rw [if_neg fun h : _ ∧ _ => hd h.2.symm, if_neg fun h : depth = _ => hd h]
      split
      · have hsame : i.Rebinds fr.bindings [] fr.bindings :=
          .same _ (by cases i <;> first | rfl | cases hi')
        have hgoes : i.Goes (fr.ip + 1) (fr.ip + 1) := by
          cases i <;> first | rfl | cases hi'
        exact .moves hf hi hsame hgoes
      · exact .stays _
  · rw [Machine.Grows, Frame.release?_place hg, Frame.release?_entering]
    exact hl.releases

theorem advance_leaves (h : (busy s).Tidy p) (hs : s.task.frames = fr :: callers)
    (hf : p.module.functions[fr.function]? = some f) (hi : f.code[fr.ip]? = some .ret)
    (hr : Exec.next p s = .ok flow s')
    (hflow : callers = [] ∧ (∃ v, flow = .finished v) ∨ callers ≠ [] ∧ flow = .goOn)
    (hl : Exec.Leads p f (fr.bindings.exitAll.2.map fun i => .released i .scopeExit) callers s s')
    (hb : MachineState.step p (busy s) = .ok b) : Advance p (busy s) ((busy s).events p) b := by
  have hinstr : Exec.instr? p fr = some .ret := by rw [Exec.instr?, hf, Option.bind_some, hi]
  obtain ⟨htidy, hid, hfr, hother⟩ := leads_spec hl h fun g hg =>
    known_of_tidy h hs hf fr rfl g (List.mem_cons_of_mem _ hg)
  have hb' : b.Tidy p ∧ (∀ task, b.framesOf task = (busy s').framesOf task) ∧
      b.machine.releases = s'.releases := by
    rw [MachineState.step, hr] at hb
    rcases hflow with ⟨rfl, v, rfl⟩ | ⟨-, rfl⟩
    · cases hb
      refine ⟨tidy_completeWith htidy _, fun task => ?_, rfl⟩
      rw [framesOf_completeWith htidy, framesOf, hfr]
    · cases hb
      exact ⟨htidy, fun _ => rfl, rfl⟩
  have hev : (busy s).events p = fr.place s.task.id callers.length (fr.leaving .scopeExit) := by
    simp only [events, Exec.events, hs, hr, hinstr]
    exact List.append_nil _
  rw [hev]
  refine ⟨hb'.1, frames_of_own s.task.id (fun task htask => ⟨?_, ?_⟩) ?_, ?_⟩
  · rw [hb'.2.1, framesOf, framesOf, hid, if_neg htask, if_neg htask, hother]
  · intro depth
    rw [Frame.eventsAt_place, if_neg fun hd => htask hd.1.symm]
  · intro depth
    rw [frameAt, frameAt, hb'.2.1, framesOf, framesOf, hid, if_pos rfl, if_pos rfl, hs, hfr]
    have hgone : ∀ depth, callers.reverse[depth]? =
        if depth = callers.length then none else callers.reverse[depth]? := by
      intro depth
      split
      · exact List.getElem?_eq_none (by simp; omega)
      · rfl
    exact frameStep_innermost _ _ hgone (.leaves fr .scopeExit)
  · rw [Machine.Grows, Frame.release?_place hf, Frame.release?_leaving, hb'.2.2]
    exact hl.releases

theorem advance_spawns {function n : Nat} {new : Frame} (h : (busy s).Tidy p)
    (hs : s.task.frames = fr :: callers) (hf : p.module.functions[fr.function]? = some f)
    (hi : f.code[fr.ip]? = some (.spawn function n)) (hr : Exec.next p s = .ok .goOn s')
    (hnew : new.Entered p)
    (hl : Exec.Leads p f [] ({ fr with ip := fr.ip + 1 } :: callers)
      { s with scheduler := (s.scheduler.spawn new).2 } s') :
    Advance p (busy s) ((busy s).events p) (busy s') := by
  have hinstr : Exec.instr? p fr = some (.spawn function n) := by
    rw [Exec.instr?, hf, Option.bind_some, hi]
  obtain ⟨g, -, -, -, -, hg, -⟩ := id hnew
  obtain ⟨htidy, hid, hfr, hother⟩ := leads_spec hl (h.spawn hnew) (known_of_tidy h hs hf _ rfl)
  have hlt := (h.runs _ rfl).1
  have hev : (busy s).events p = new.place s.scheduler.tasks.size 0 new.entering := by
    simp only [events, Exec.events, hs, hr, hinstr, Exec.newEvents]
    rw [hother, Scheduler.framesOf_spawn, if_pos rfl]
    rfl
  rw [hev]
  refine ⟨htidy, fun task depth => ?_, ?_⟩
  · rw [frameAt, frameAt, framesOf, framesOf, hid, hother, Scheduler.framesOf_spawn,
      Frame.eventsAt_place]
    by_cases hown : task = s.task.id
    · rw [if_pos hown, if_pos hown, hs, hfr,
        if_neg fun hd => Nat.ne_of_gt hlt (hd.1.trans hown)]
      have := frameStep_innermost s.task.id depth
        (getElem?_reverse_cons { fr with ip := fr.ip + 1 } callers)
        (.moves hf hi (.same fr.bindings rfl) rfl)
      rw [Frame.eventsAt_place] at this
      split at this <;> exact this
    · rw [if_neg hown, if_neg hown]
      by_cases hsize : task = s.scheduler.tasks.size
      · rw [if_pos hsize, hsize, framesOf_size]
        cases depth with
        | zero =>
          rw [if_pos ⟨rfl, rfl⟩]
          exact .enters hnew
        | succ depth =>
          rw [if_neg (by omega)]
          exact .stays none
      · rw [if_neg hsize, if_neg fun hd => hsize hd.1.symm]
        exact .stays _
  · rw [Machine.Grows, Frame.release?_place hg, Frame.release?_entering]
    exact hl.releases

end

theorem advance_busy (h : (busy s).Tidy p) (hb : MachineState.step p (busy s) = .ok b) :
    Advance p (busy s) ((busy s).events p) b := by
  cases hs : s.task.frames with
  | nil => exact advance_noFrame h hs hb
  | cons fr callers =>
    rcases Exec.treads_next (p := p) hs with ⟨t, hn⟩ | ⟨f, i, hf, hi, hn⟩
    · rw [MachineState.step, hn] at hb
      cases t with
      | lost type => cases hb
      | fault f =>
        cases hb
        have hev : (busy s).events p = unwinding s.task.id s.task.frames := by
          simp [events, Exec.events, hs, hn]
        rw [hev]
        exact advance_failed hs rfl hs rfl h rfl (fun _ => rfl) f
    · generalize hr : Exec.next p s = r at hn
      cases hn with
      | @fails t s' hl =>
        rw [MachineState.step, hr] at hb
        cases t with
        | lost type => cases hb
        | fault f =>
          cases hb
          obtain ⟨htidy, hid, hfr, hother⟩ := leads_spec hl h (known_of_tidy h hs hf _ rfl)
          have hev : (busy s).events p = unwinding s'.task.id s'.task.frames := by
            simp [events, Exec.events, hs, hr]
          rw [hev]
          refine advance_failed hs hid hfr rfl htidy ?_ hother f
          simpa [Machine.Logs] using hl.releases
      | goes hflow hbd hip hl => exact advance_goes h hs hf hi hr hflow hbd hip hl hb
      | enters hi' hnew hl =>
        rw [MachineState.step, hr] at hb
        cases hb
        exact advance_enters h hs hf hi hr hi' hnew hl
      | leaves hi' hflow hl =>
        subst hi'
        exact advance_leaves h hs hf hi hr hflow hl hb
      | spawns hi' hnew hl =>
        subst hi'
        rw [MachineState.step, hr] at hb
        cases hb
        exact advance_spawns h hs hf hi hr hnew hl

/-- What one step does to every frame and to the log. -/
theorem advance_step (h : a.Tidy p) (hs : MachineState.step p a = .ok b) :
    Advance p a (a.events p) b := by
  cases a with
  | idle m => exact advance_takeTurn h hs
  | busy s => exact advance_busy h hs

theorem tidy_of_reaches (ha : a.Tidy p) (h : a.Reaches p b) : b.Tidy p :=
  h.preserves (fun _ _ ha hb => (advance_step ha hb).tidy) ha

end MachineState

theorem Linked.tidy_startState {p : Linked} {frame : Frame} (h : frame.Entered p) (m : Machine) :
    (startState m frame).Tidy p := Scheduler.tidy_start h

theorem Linked.entered_entry {p : Linked} {name : String} {frame : Frame}
    (h : p.entry name = .ok frame) : frame.Entered p := by
  obtain ⟨id, f, -, hf, -, he⟩ := entry_ok h
  exact Frame.entered_of_enter hf he

end ScopedScript
