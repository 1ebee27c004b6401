import Mathlib
import ScopedScript.Machine.Run

/-!
# The table of tasks

What each operation of the scheduler leaves in the table of tasks and in the queue, and what holds
of both whenever a task stops running or begins to: a task is queued exactly if it is ready, and a
suspended task is on the list of one task that has not completed.
-/

namespace ScopedScript.Scheduler

variable {s : Scheduler} {i j : Nat} {t u : Task}

/-! What the operations leave. -/

theorem get?_lt_size (h : s.get? i = some t) : i < s.tasks.size := by
  rw [get?, Option.join_eq_some_iff] at h
  exact (Array.getElem?_eq_some_iff.1 h).1

@[simp]
theorem get?_empty (i : Nat) : Scheduler.empty.get? i = none := rfl

theorem get?_spawn (s : Scheduler) (frame : Frame) (i : Nat) :
    (s.spawn frame).2.get? i =
      if i = s.tasks.size then some (.start s.tasks.size frame) else s.get? i := by
  simp only [get?, spawn, Array.getElem?_push]
  split <;> rfl

@[simp]
theorem size_spawn (s : Scheduler) (frame : Frame) :
    (s.spawn frame).2.tasks.size = s.tasks.size + 1 := Array.size_push _

theorem get?_putBack (s : Scheduler) (t : Task) (i : Nat) :
    (s.putBack t).get? i = if t.id = i ∧ i < s.tasks.size then some t else s.get? i := by
  simp only [get?, putBack, Array.getElem?_setIfInBounds]
  by_cases h : t.id = i
  · by_cases hi : i < s.tasks.size <;> simp [h, hi]
  · simp [h]

@[simp]
theorem size_putBack (s : Scheduler) (t : Task) : (s.putBack t).tasks.size = s.tasks.size :=
  Array.size_setIfInBounds

theorem get?_modifyTask (s : Scheduler) (j : Nat) (f : Task → Task) (i : Nat) :
    (s.modifyTask j f).get? i = if i = j then (s.get? i).map f else s.get? i := by
  simp only [get?, modifyTask, Array.getElem?_modify]
  by_cases h : i = j
  · subst h
    simp only [if_true]
    cases s.tasks[i]? with
    | none => rfl
    | some e => cases e <;> rfl
  · rw [if_neg h, if_neg (Ne.symm h)]

@[simp]
theorem size_modifyTask (s : Scheduler) (j : Nat) (f : Task → Task) :
    (s.modifyTask j f).tasks.size = s.tasks.size := by simp [modifyTask]

/-- The task when the outcome that it waits for is handed to it. -/
def woken (outcome : Outcome) (t : Task) : Task :=
  { t with resumeWith := some outcome, state := .ready }

theorem wake_eq {outcome : Outcome} (h : s.get? i = some t) :
    wake outcome s i = ⟨(s.modifyTask i (woken outcome)).tasks, s.ready ++ [i]⟩ := by
  simp only [wake, h, Option.isNone_some, Bool.false_eq_true, if_false]
  rfl

/-- Waking tasks of the table queues them up in order. -/
theorem wakeAll (outcome : Outcome) {ws : List Nat} (s : Scheduler)
    (h : ∀ w ∈ ws, ∃ t, s.get? w = some t) : (∀ i, (ws.foldl (wake outcome) s).get? i =
      if i ∈ ws then (s.get? i).map (woken outcome) else s.get? i) ∧
    (ws.foldl (wake outcome) s).ready = s.ready ++ ws ∧
    (ws.foldl (wake outcome) s).tasks.size = s.tasks.size := by
  induction ws generalizing s with
  | nil => simp
  | cons w rest ih =>
    obtain ⟨t, ht⟩ := h w (by simp)
    have hget : ∀ i, (wake outcome s w).get? i =
        if i = w then (s.get? i).map (woken outcome) else s.get? i := by
      intro i
      rw [wake_eq ht]
      exact get?_modifyTask s w (woken outcome) i
    obtain ⟨h₁, h₂, h₃⟩ := ih (wake outcome s w) fun x hx => by
      obtain ⟨u, hu⟩ := h x (by simp [hx])
      rw [hget, hu]
      split <;> simp
    refine ⟨fun i => ?_, ?_, ?_⟩
    · rw [List.foldl_cons, h₁, hget]
      by_cases hw : i = w
      · subst hw
        rw [ht]
        by_cases hr : i ∈ rest <;> simp [hr, woken]
      · by_cases hr : i ∈ rest <;> simp [hr, hw]
    · rw [List.foldl_cons, h₂, wake_eq ht]
      simp
    · rw [List.foldl_cons, h₃, wake_eq ht]
      exact size_modifyTask s w (woken outcome)

/-- The first task of the queue, when it is in the table. -/
theorem next?_cons {rest : List Nat} (hr : s.ready = i :: rest) (h : s.get? i = some t) :
    s.next? = some ({ t with state := .running }, ⟨s.tasks.setIfInBounds i none, rest⟩) := by
  rw [next?, hr, takeFirst]
  rw [get?] at h
  rw [h]

theorem get?_taken (s : Scheduler) (j : Nat) (rest : List Nat) (i : Nat) :
    Scheduler.get? ⟨s.tasks.setIfInBounds j none, rest⟩ i = if j = i then none else s.get? i := by
  simp only [get?, Array.getElem?_setIfInBounds]
  by_cases h : j = i
  · by_cases hj : i < s.tasks.size <;> simp [h, hj]
  · simp [h]

/-! Consistency. -/

/-- The task is in the table, or it is the one that runs. -/
def Knows (s : Scheduler) (running : Option Task) (t : Task) : Prop :=
  s.get? t.id = some t ∨ running = some t

/-- The table and the queue agree with each other and with the task that runs. -/
structure Consistent (s : Scheduler) (running : Option Task) : Prop where
  started : 0 < s.tasks.size
  id_eq : ∀ {i t}, s.get? i = some t → t.id = i
  present : ∀ {i}, i < s.tasks.size → (s.get? i).isSome ∨ ∃ t, running = some t ∧ t.id = i
  resting : ∀ {i t}, s.get? i = some t → t.state ≠ .running
  runs : ∀ {t}, running = some t →
    t.id < s.tasks.size ∧ s.get? t.id = none ∧ t.state = .running
  ready_nodup : s.ready.Nodup
  mem_ready : ∀ {i}, i ∈ s.ready ↔ ∃ t, s.get? i = some t ∧ t.state = .ready
  /-- A suspended task waits for one that has not completed. -/
  waits : ∀ {i t}, s.get? i = some t → t.state = .suspended → ∃ u, s.Knows running u ∧ i ∈ u.waiters
  waiter : ∀ {u i}, s.Knows running u → i ∈ u.waiters →
    ∃ t, s.get? i = some t ∧ t.state = .suspended
  waiters_nodup : ∀ {u}, s.Knows running u → u.waiters.Nodup
  waiters_unique : ∀ {u v i}, s.Knows running u → s.Knows running v → i ∈ u.waiters →
    i ∈ v.waiters → u.id = v.id
  completed : ∀ {i t}, s.get? i = some t → t.state = .completed →
    t.waiters = [] ∧ ∃ r, t.result = some r

/-! Lists of waiting tasks. -/

/-- Each suspended task is on one list, once, and no other task is on any. -/
structure WaitLists (suspended : Nat → Prop) (waiters : Nat → List Nat) : Prop where
  mem_iff : ∀ i, suspended i ↔ ∃ k, i ∈ waiters k
  nodup : ∀ k, (waiters k).Nodup
  unique : ∀ {i k l}, i ∈ waiters k → i ∈ waiters l → k = l

namespace WaitLists

variable {S S' : Nat → Prop} {w w' : Nat → List Nat}

theorem congr (h : WaitLists S w) (hS : ∀ i, S' i ↔ S i) (hw : ∀ k, w' k = w k) :
    WaitLists S' w' := by
  obtain rfl : S' = S := funext fun i => propext (hS i)
  obtain rfl : w' = w := funext hw
  exact h

theorem of_nil (hS : ∀ i, ¬S i) (hw : ∀ k, w k = []) : WaitLists S w where
  mem_iff i := by simp [hS, hw]
  nodup k := by simp [hw]
  unique h := by simp [hw] at h

/-- A task that was not suspended begins to wait. -/
theorem add (h : WaitLists S w) (hi : ¬S i) (j : Nat) :
    WaitLists (fun x => x = i ∨ S x) (Function.update w j (w j ++ [i])) := by
  have hmem : ∀ x k, x ∈ Function.update w j (w j ++ [i]) k ↔ x ∈ w k ∨ k = j ∧ x = i := by
    intro x k
    by_cases hk : k = j
    · subst hk
      simp
    · simp [hk]
  have hfresh : ∀ k, i ∉ w k := fun k hk => hi ((h.mem_iff i).2 ⟨k, hk⟩)
  constructor
  case mem_iff =>
    intro x
    simp only [hmem, h.mem_iff, exists_or, exists_eq_left]
    tauto
  case nodup =>
    intro k
    by_cases hk : k = j
    · subst hk
      rw [Function.update_self]
      exact (h.nodup k).append (List.nodup_singleton i) (List.disjoint_singleton.2 (hfresh k))
    · rw [Function.update_of_ne hk]
      exact h.nodup k
  case unique =>
    intro x k l hk hl
    rw [hmem] at hk hl
    obtain hk | ⟨hk, hx⟩ := hk <;> obtain hl | ⟨hl, hx'⟩ := hl
    · exact h.unique hk hl
    · exact absurd (hx' ▸ hk) (hfresh k)
    · exact absurd (hx ▸ hl) (hfresh l)
    · exact hk.trans hl.symm

/-- All that wait for one task are woken. -/
theorem clear (h : WaitLists S w) (j : Nat) :
    WaitLists (fun x => S x ∧ x ∉ w j) (Function.update w j []) := by
  have hmem : ∀ x k, x ∈ Function.update w j [] k ↔ x ∈ w k ∧ k ≠ j := by
    intro x k
    by_cases hk : k = j
    · subst hk
      simp
    · simp [hk]
  constructor
  case mem_iff =>
    intro x
    rw [h.mem_iff]
    constructor
    · rintro ⟨⟨k, hk⟩, hj⟩
      exact ⟨k, (hmem x k).2 ⟨hk, fun hkj => hj (hkj ▸ hk)⟩⟩
    · rintro ⟨k, hk⟩
      obtain ⟨hk, hne⟩ := (hmem x k).1 hk
      exact ⟨⟨k, hk⟩, fun hj => hne (h.unique hk hj)⟩
  case nodup =>
    intro k
    by_cases hk : k = j
    · subst hk
      simp
    · rw [Function.update_of_ne hk]
      exact h.nodup k
  case unique => exact fun hk hl => h.unique ((hmem _ _).1 hk).1 ((hmem _ _).1 hl).1

end WaitLists

/-! Tasks by number. -/

/-- The task of this number, in the table or running. -/
def known? (s : Scheduler) : Option Task → Nat → Option Task
  | none, i => s.get? i
  | some t, i => if t.id = i then some t else s.get? i

/-- The tasks on the list of the task of this number. -/
def waitersOf (s : Scheduler) (running : Option Task) (i : Nat) : List Nat :=
  (s.known? running i).elim [] Task.waiters

/-- There is a task of this number in the table, in this state. -/
def InState (s : Scheduler) (i : Nat) (state : TaskState) : Prop :=
  ∃ t, s.get? i = some t ∧ t.state = state

/-- What is so of every task in its place in the table. -/
structure AtRest (i : Nat) (t : Task) : Prop where
  id_eq : t.id = i
  resting : t.state ≠ .running
  completed : t.state = .completed → t.waiters = [] ∧ ∃ r, t.result = some r

theorem waitersOf_some (s : Scheduler) (t : Task) (i : Nat) :
    s.waitersOf (some t) i = if t.id = i then t.waiters else s.waitersOf none i := by
  rw [waitersOf, known?]
  split <;> rfl

section

variable {running : Option Task} {k : Nat}

theorem Knows.known? (hruns : ∀ {t}, running = some t → s.get? t.id = none)
    (h : s.Knows running t) : s.known? running t.id = some t := by
  cases running with
  | none => exact h.resolve_right nofun
  | some u =>
    obtain h | h := h
    · rw [Scheduler.known?, if_neg, h]
      intro hid
      rw [← hid, hruns rfl] at h
      cases h
    · rw [h, Scheduler.known?, if_pos rfl]

theorem knows_of_known? (hid : ∀ {i t}, s.get? i = some t → t.id = i)
    (h : s.known? running k = some t) : s.Knows running t ∧ t.id = k := by
  cases running with
  | none => exact ⟨.inl (hid h ▸ h), hid h⟩
  | some u =>
    rw [known?] at h
    split at h
    · next hu =>
      cases h
      exact ⟨.inr rfl, hu⟩
    · exact ⟨.inl (hid h ▸ h), hid h⟩

theorem Knows.waitersOf (hruns : ∀ {t}, running = some t → s.get? t.id = none)
    (h : s.Knows running t) : s.waitersOf running t.id = t.waiters := by
  rw [Scheduler.waitersOf, h.known? hruns]
  rfl

theorem exists_of_mem_waitersOf (hid : ∀ {i t}, s.get? i = some t → t.id = i)
    (h : i ∈ s.waitersOf running k) : ∃ u, s.Knows running u ∧ u.id = k ∧ i ∈ u.waiters := by
  rw [waitersOf] at h
  cases hu : s.known? running k with
  | none =>
    rw [hu] at h
    cases h
  | some u =>
    rw [hu] at h
    obtain ⟨hk, hid⟩ := knows_of_known? hid hu
    exact ⟨u, hk, hid, h⟩

/-- The parts that consistency is made of. -/
theorem Consistent.of_parts (started : 0 < s.tasks.size)
    (rest : ∀ {i t}, s.get? i = some t → AtRest i t)
    (present : ∀ {i}, i < s.tasks.size → (s.known? running i).isSome)
    (runs : ∀ {t}, running = some t → t.id < s.tasks.size ∧ s.get? t.id = none ∧ t.state = .running)
    (ready_nodup : s.ready.Nodup) (mem_ready : ∀ {i}, i ∈ s.ready ↔ s.InState i .ready)
    (waiting : WaitLists (s.InState · .suspended) (s.waitersOf running)) :
    s.Consistent running := by
  have hid : ∀ {i t}, s.get? i = some t → t.id = i := fun h => (rest h).id_eq
  have hruns : ∀ {t}, running = some t → s.get? t.id = none := fun h => (runs h).2.1
  have hmem : ∀ {u i}, s.Knows running u → i ∈ u.waiters → i ∈ s.waitersOf running u.id :=
    fun hu hi =>
    (hu.waitersOf hruns).symm ▸ hi
  constructor
  case started => exact started
  case id_eq => exact hid
  case present =>
    intro i hi
    obtain ⟨t, ht⟩ := Option.isSome_iff_exists.1 (present hi)
    obtain ⟨h | h, rfl⟩ := knows_of_known? hid ht
    · exact .inl (h ▸ rfl)
    · exact .inr ⟨t, h, rfl⟩
  case resting => exact fun h => (rest h).resting
  case runs => exact runs
  case ready_nodup => exact ready_nodup
  case mem_ready => exact mem_ready
  case waits =>
    intro i t h hs
    obtain ⟨k, hk⟩ := (waiting.mem_iff i).1 ⟨t, h, hs⟩
    obtain ⟨u, hu, -, hi⟩ := exists_of_mem_waitersOf hid hk
    exact ⟨u, hu, hi⟩
  case waiter => exact fun hu hi => (waiting.mem_iff _).2 ⟨_, hmem hu hi⟩
  case waiters_nodup => exact fun hu => hu.waitersOf hruns ▸ waiting.nodup _
  case waiters_unique => exact fun hu hv hiu hiv => waiting.unique (hmem hu hiu) (hmem hv hiv)
  case completed => exact fun h => (rest h).completed

namespace Consistent

theorem rest (hc : s.Consistent running) (h : s.get? i = some t) : AtRest i t :=
  ⟨hc.id_eq h, hc.resting h, hc.completed h⟩

theorem get?_running (hc : s.Consistent running) (h : running = some t) : s.get? t.id = none :=
  (hc.runs h).2.1

theorem isSome_known? (hc : s.Consistent running) (hi : i < s.tasks.size) :
    (s.known? running i).isSome := by
  obtain h | ⟨t, rfl, hid⟩ := hc.present hi
  · cases running with
    | none => exact h
    | some u =>
      rw [known?]
      split
      · rfl
      · exact h
  · rw [known?, if_pos hid]
    rfl

theorem waitLists (hc : s.Consistent running) :
    WaitLists (s.InState · .suspended) (s.waitersOf running) where
  mem_iff i := by
    constructor
    · rintro ⟨t, ht, hs⟩
      obtain ⟨u, hu, hi⟩ := hc.waits ht hs
      exact ⟨u.id, (hu.waitersOf hc.get?_running).symm ▸ hi⟩
    · rintro ⟨k, hk⟩
      obtain ⟨u, hu, -, hi⟩ := exists_of_mem_waitersOf hc.id_eq hk
      exact hc.waiter hu hi
  nodup k := by
    rw [waitersOf]
    cases h : s.known? running k with
    | none => exact List.nodup_nil
    | some u => exact hc.waiters_nodup (knows_of_known? hc.id_eq h).1
  unique hk hl := by
    obtain ⟨u, hu, rfl, hi⟩ := exists_of_mem_waitersOf hc.id_eq hk
    obtain ⟨v, hv, rfl, hj⟩ := exists_of_mem_waitersOf hc.id_eq hl
    exact hc.waiters_unique hu hv hi hj

end Consistent

end

theorem InState.unique {a b : TaskState} (h : s.InState i a) (h' : s.InState i b) : a = b := by
  obtain ⟨t, ht, rfl⟩ := h
  obtain ⟨u, hu, rfl⟩ := h'
  rw [ht] at hu
  cases hu
  rfl

/-! Tables with a place for the task that runs. -/

/-- The table and the queue are as they should be, and one place in the table is vacant. -/
structure Vacant (s : Scheduler) (k : Nat) : Prop where
  lt : k < s.tasks.size
  get?_eq : s.get? k = none
  rest : ∀ {i t}, s.get? i = some t → AtRest i t
  present : ∀ {i}, i < s.tasks.size → i = k ∨ (s.get? i).isSome
  ready_nodup : s.ready.Nodup
  mem_ready : ∀ {i}, i ∈ s.ready ↔ s.InState i .ready

theorem Consistent.vacant (hc : s.Consistent (some t)) : s.Vacant t.id where
  lt := (hc.runs rfl).1
  get?_eq := hc.get?_running rfl
  rest := hc.rest
  present hi := (hc.present hi).symm.imp (fun ⟨_, ht, hid⟩ => hid ▸ Option.some.inj ht ▸ rfl) id
  ready_nodup := hc.ready_nodup
  mem_ready := hc.mem_ready

theorem get?_putBack_of_lt (h : t.id < s.tasks.size) (i : Nat) :
    (s.putBack t).get? i = s.known? (some t) i := by
  rw [get?_putBack, known?]
  by_cases hid : t.id = i
  · rw [if_pos hid, if_pos ⟨hid, hid ▸ h⟩]
  · rw [if_neg hid, if_neg fun h => hid h.1]

/-! What the operations make of states and lists. -/

theorem waitersOf_of_get? (h : s.get? i = some t) : s.waitersOf none i = t.waiters := by
  rw [waitersOf, known?, h]
  rfl

theorem get?_size (s : Scheduler) : s.get? s.tasks.size = none :=
  Option.eq_none_iff_forall_ne_some.2 fun _ h => Nat.lt_irrefl _ (get?_lt_size h)

theorem inState_spawn (s : Scheduler) (frame : Frame) {state : TaskState} :
    (s.spawn frame).2.InState i state ↔ i = s.tasks.size ∧ .ready = state ∨ s.InState i state := by
  simp only [InState, get?_spawn]
  split
  · next h => simp [h, get?_size, Task.start]
  · next h => simp [h]

theorem waitersOf_spawn (s : Scheduler) (frame : Frame) (i : Nat) :
    (s.spawn frame).2.waitersOf none i = s.waitersOf none i := by
  rw [waitersOf, waitersOf, known?, known?, get?_spawn]
  split
  · next h =>
    rw [h, get?_size]
    rfl
  · rfl

theorem inState_addWaiter (s : Scheduler) (w j : Nat) {state : TaskState} :
    (s.addWaiter w j).InState i state ↔ s.InState i state := by
  simp only [InState, addWaiter, get?_modifyTask]
  split
  · simp
  · rfl

theorem waitersOf_addWaiter (h : s.get? j = some t) (w : Nat) :
    (s.addWaiter w j).waitersOf none = Function.update (s.waitersOf none) j (t.waiters ++ [w]) := by
  funext i
  rw [waitersOf, known?, addWaiter, get?_modifyTask]
  by_cases hi : i = j
  · subst hi
    rw [if_pos rfl, h, Function.update_self]
    rfl
  · rw [if_neg hi, Function.update_of_ne hi]
    rfl

theorem inState_wakeAll (outcome : Outcome) {ws : List Nat} (h : ∀ w ∈ ws, ∃ t, s.get? w = some t)
    {state : TaskState} : (ws.foldl (wake outcome) s).InState i state ↔
      i ∈ ws ∧ .ready = state ∨ i ∉ ws ∧ s.InState i state := by
  simp only [InState, (wakeAll outcome s h).1]
  split
  · next hi =>
    obtain ⟨t, ht⟩ := h i hi
    simp [hi, ht, woken]
  · next hi => simp [hi]

theorem waitersOf_wakeAll (outcome : Outcome) {ws : List Nat} (h : ∀ w ∈ ws, ∃ t, s.get? w = some t)
    (i : Nat) : (ws.foldl (wake outcome) s).waitersOf none i = s.waitersOf none i := by
  rw [waitersOf, waitersOf, known?, known?, (wakeAll outcome s h).1]
  split
  · cases s.get? i <;> rfl
  · rfl

namespace Vacant

variable {k : Nat}

theorem ne (h : s.Vacant k) (ht : s.get? i = some t) : i ≠ k := by
  rintro rfl
  rw [h.get?_eq] at ht
  cases ht

theorem not_inState (h : s.Vacant k) (state : TaskState) : ¬s.InState k state :=
  fun ⟨_, ht, _⟩ => h.ne ht rfl

/-- The task of the vacant place runs. -/
theorem runs (h : s.Vacant t.id) (ht : t.state = .running)
    (hw : WaitLists (s.InState · .suspended) (s.waitersOf (some t))) : s.Consistent (some t) := by
  refine .of_parts (Nat.zero_lt_of_lt h.lt) h.rest (fun hi => ?_) ?_ h.ready_nodup h.mem_ready hw
  · rw [known?]
    split
    · rfl
    · next hne => exact (h.present hi).resolve_left (Ne.symm hne)
  · intro u hu
    cases hu
    exact ⟨h.lt, h.get?_eq, ht⟩

/-- The task of the vacant place stops running. -/
theorem putBack (h : s.Vacant t.id) (ht : AtRest t.id t)
    (hw : WaitLists (fun i => i = t.id ∧ t.state = .suspended ∨ s.InState i .suspended)
      (s.waitersOf (some t))) : (s.putBack t).Consistent none := by
  have hget := get?_putBack_of_lt h.lt
  have hstate {i : Nat} {state : TaskState} :
      (s.putBack t).InState i state ↔ i = t.id ∧ t.state = state ∨ s.InState i state := by
    simp only [InState, hget, known?]
    split
    · next hid =>
      subst hid
      simp [h.get?_eq]
    · next hid => simp [Ne.symm hid]
  have hready : (s.putBack t).ready = if t.state = .ready then s.ready ++ [t.id] else s.ready := rfl
  refine .of_parts ?started ?rest ?present nofun ?nodup ?queue ?waiting
  case started =>
    rw [size_putBack]
    exact Nat.zero_lt_of_lt h.lt
  case rest =>
    intro i u hu
    rw [hget, known?] at hu
    split at hu
    · next hid =>
      cases hu
      exact hid ▸ ht
    · exact h.rest hu
  case present =>
    intro i hi
    rw [size_putBack] at hi
    rw [known?, hget, known?]
    split
    · rfl
    · next hne => exact (h.present hi).resolve_left (Ne.symm hne)
  case nodup =>
    rw [hready]
    split
    · refine h.ready_nodup.append (List.nodup_singleton _)
        (List.disjoint_singleton.2 fun hmem => ?_)
      exact h.not_inState _ (h.mem_ready.1 hmem)
    · exact h.ready_nodup
  case queue =>
    intro i
    rw [hready, hstate, ← h.mem_ready]
    split
    · next hs => simp [hs, or_comm]
    · next hs => simp [hs]
  case waiting =>
    exact hw.congr (fun i => hstate) fun i => congrArg (Option.elim · [] Task.waiters) (hget i)

theorem spawn (h : s.Vacant k) (frame : Frame) : (s.spawn frame).2.Vacant k where
  lt := by
    rw [size_spawn]
    exact Nat.lt_succ_of_lt h.lt
  get?_eq := by
    rw [get?_spawn, if_neg (Nat.ne_of_lt h.lt)]
    exact h.get?_eq
  rest hu := by
    rw [get?_spawn] at hu
    split at hu
    · next hi =>
      cases hu
      exact ⟨hi.symm, nofun, nofun⟩
    · exact h.rest hu
  present hi := by
    rw [size_spawn] at hi
    rw [get?_spawn]
    split
    · exact .inr rfl
    · exact h.present (by omega)
  ready_nodup := by
    refine h.ready_nodup.append (List.nodup_singleton _) (List.disjoint_singleton.2 fun hmem => ?_)
    obtain ⟨u, hu, -⟩ := h.mem_ready.1 hmem
    exact Nat.lt_irrefl _ (get?_lt_size hu)
  mem_ready {i} := by
    have hready : (s.spawn frame).2.ready = s.ready ++ [s.tasks.size] := rfl
    rw [hready, inState_spawn, List.mem_append, List.mem_singleton, h.mem_ready]
    simp [or_comm]

theorem addWaiter (h : s.Vacant k) (hj : s.get? j = some u) (hu : u.state ≠ .completed) (w : Nat) :
    (s.addWaiter w j).Vacant k where
  lt := (size_modifyTask s j _).symm ▸ h.lt
  get?_eq := by
    rw [Scheduler.addWaiter, get?_modifyTask, h.get?_eq]
    split <;> rfl
  rest {i t} ht := by
    rw [Scheduler.addWaiter, get?_modifyTask] at ht
    split at ht
    · next hi =>
      obtain ⟨v, hv, rfl⟩ := Option.map_eq_some_iff.1 ht
      obtain ⟨hid, hrest, -⟩ := h.rest hv
      refine ⟨hid, hrest, fun hs => absurd hs ?_⟩
      rw [hi, hj] at hv
      cases hv
      exact hu
    · exact h.rest ht
  present {i} hi := by
    rw [Scheduler.addWaiter, size_modifyTask] at hi
    rw [Scheduler.addWaiter, get?_modifyTask]
    split
    · simpa using h.present hi
    · exact h.present hi
  ready_nodup := h.ready_nodup
  mem_ready := h.mem_ready.trans (inState_addWaiter s w j).symm

/-- Suspended tasks are woken and queue up. -/
theorem wakeAll (h : s.Vacant k) (outcome : Outcome) {ws : List Nat}
    (hws : ∀ w ∈ ws, s.InState w .suspended)
    (hnodup : ws.Nodup) : (ws.foldl (wake outcome) s).Vacant k := by
  have hfound : ∀ w ∈ ws, ∃ t, s.get? w = some t := fun w hw => (hws w hw).imp fun _ => And.left
  obtain ⟨hget, hready, hsize⟩ := Scheduler.wakeAll outcome s hfound
  constructor
  case lt => exact hsize ▸ h.lt
  case get?_eq =>
    rw [hget, h.get?_eq]
    split <;> rfl
  case rest =>
    intro i t ht
    rw [hget] at ht
    split at ht
    · obtain ⟨v, hv, rfl⟩ := Option.map_eq_some_iff.1 ht
      exact ⟨(h.rest hv).id_eq, nofun, nofun⟩
    · exact h.rest ht
  case present =>
    intro i hi
    rw [hsize] at hi
    rw [hget]
    split
    · simpa using h.present hi
    · exact h.present hi
  case ready_nodup =>
    rw [hready]
    refine h.ready_nodup.append hnodup fun i hi hw => ?_
    exact absurd ((h.mem_ready.1 hi).unique (hws i hw)) nofun
  case mem_ready =>
    intro i
    rw [hready, List.mem_append, h.mem_ready, inState_wakeAll outcome hfound]
    tauto

end Vacant

/-- The task that runs is not in the table. -/
theorem Consistent.ne (hc : s.Consistent (some t)) (h : s.get? i = some u) : i ≠ t.id :=
  hc.vacant.ne h

/-- The tasks that wait for the one that runs are suspended. -/
theorem Consistent.suspended_of_mem (hc : s.Consistent (some t)) (hi : i ∈ t.waiters)
    (h : s.get? i = some u) : u.state = .suspended := by
  obtain ⟨v, hv, hs⟩ := hc.waiter (.inr rfl) hi
  rw [h] at hv
  cases hv
  exact hs

/-! What the steps of a task keep. -/

theorem consistent_start (frame : Frame) :
    (Scheduler.empty.spawn frame).2.Consistent none := by
  have hg : ∀ i, (Scheduler.empty.spawn frame).2.get? i =
      if i = 0 then some (Task.start 0 frame) else none := fun i => by
    rw [get?_spawn]
    rfl
  have hone : ∀ {i t}, (Scheduler.empty.spawn frame).2.get? i = some t →
      i = 0 ∧ t = Task.start 0 frame := by
    intro i t h
    rw [hg] at h
    split at h <;> cases h
    exact ⟨‹_›, rfl⟩
  refine .of_parts (Nat.zero_lt_succ 0) ?rest ?present nofun (List.nodup_singleton 0)
    ?queue ?waiting
  case rest =>
    intro i t h
    obtain ⟨rfl, rfl⟩ := hone h
    exact ⟨rfl, nofun, nofun⟩
  case present =>
    intro i hi
    obtain rfl : i = 0 := Nat.lt_one_iff.1 hi
    exact congrArg Option.isSome (hg 0)
  case queue =>
    intro i
    refine List.mem_singleton.trans ⟨?_, fun ⟨t, h, _⟩ => (hone h).1⟩
    rintro rfl
    exact ⟨_, hg 0, rfl⟩
  case waiting =>
    refine .of_nil ?_ fun i => ?_
    · rintro i ⟨t, h, hs⟩
      obtain ⟨rfl, rfl⟩ := hone h
      cases hs
    · rw [waitersOf_spawn]
      rfl

theorem Consistent.take {rest : List Nat} (hc : s.Consistent none) (hr : s.ready = i :: rest)
    (h : s.get? i = some t) :
    Scheduler.Consistent ⟨s.tasks.setIfInBounds i none, rest⟩
      (some { t with state := .running }) := by
  obtain rfl := hc.id_eq h
  have hready : s.InState t.id .ready := hc.mem_ready.1 (hr ▸ List.mem_cons_self)
  have hnodup := hc.ready_nodup
  rw [hr, List.nodup_cons] at hnodup
  have hstate {k : Nat} {state : TaskState} :
      Scheduler.InState ⟨s.tasks.setIfInBounds t.id none, rest⟩ k state ↔
      k ≠ t.id ∧ s.InState k state := by
    simp only [InState, get?_taken]
    by_cases hk : t.id = k
    · simp [hk]
    · simp [hk, Ne.symm hk]
  refine Vacant.runs ⟨?lt, ?get, ?rest, ?present, hnodup.2, ?queue⟩ rfl ?waiting
  case lt =>
    rw [Array.size_setIfInBounds]
    exact get?_lt_size h
  case get => rw [get?_taken, if_pos rfl]
  case rest =>
    intro k u hu
    rw [get?_taken] at hu
    split at hu
    · cases hu
    · exact hc.rest hu
  case present =>
    intro k hk
    rw [Array.size_setIfInBounds] at hk
    rw [get?_taken]
    split
    · exact .inl (Eq.symm ‹_›)
    · exact .inr (hc.isSome_known? hk)
  case queue =>
    intro k
    have hmem : k ∈ s.ready ↔ s.InState k .ready := hc.mem_ready
    rw [hstate, ← hmem, hr, List.mem_cons]
    constructor
    · exact fun hk => ⟨fun hkt => hnodup.1 (hkt ▸ hk), .inr hk⟩
    · exact fun ⟨hne, hk⟩ => hk.resolve_left hne
  case waiting =>
    refine hc.waitLists.congr (fun k => ?_) fun k => ?_
    · refine hstate.trans (and_iff_right_of_imp ?_)
      rintro hk rfl
      exact absurd (hk.unique hready) nofun
    · rw [waitersOf_some]
      split
      · next hk => rw [← hk, waitersOf_of_get? h]
      · next hk => rw [waitersOf, waitersOf, known?, known?, get?_taken, if_neg hk]

theorem Consistent.spawn (hc : s.Consistent (some t)) (frame : Frame) :
    (s.spawn frame).2.Consistent (some t) := by
  refine (hc.vacant.spawn frame).runs (hc.runs rfl).2.2
    (hc.waitLists.congr (fun i => ?_) fun i => ?_)
  · simp [inState_spawn]
  · rw [waitersOf_some, waitersOf_some, waitersOf_spawn]

/-- A task that stops running is put back as ready, or as waiting for another one. -/
theorem Consistent.yield (hc : s.Consistent (some t)) :
    (s.putBack { t with state := .ready }).Consistent none := by
  refine Vacant.putBack hc.vacant ⟨rfl, nofun, nofun⟩ (hc.waitLists.congr (fun i => ?_) fun i => ?_)
  · simp
  · rw [waitersOf_some, waitersOf_some]

theorem Consistent.suspend (hc : s.Consistent (some t)) (hj : s.get? j = some u)
    (hu : u.state ≠ .completed) :
    ((s.addWaiter t.id j).putBack { t with state := .suspended }).Consistent none := by
  have hv := hc.vacant
  have hlist : s.waitersOf (some t) j = u.waiters := by
    rw [waitersOf_some, if_neg (hv.ne hj).symm, waitersOf_of_get? hj]
  refine Vacant.putBack (hv.addWaiter hj hu t.id) ⟨rfl, nofun, nofun⟩ ?_
  refine (hc.waitLists.add (hv.not_inState _) j).congr (fun i => ?_) fun i => ?_
  · rw [inState_addWaiter]
    simp
  · rw [waitersOf_some, waitersOf_addWaiter hj, hlist]
    by_cases hi : i = j
    · subst hi
      rw [if_neg (hv.ne hj).symm, Function.update_self, Function.update_self]
    · rw [Function.update_of_ne hi, Function.update_of_ne hi, waitersOf_some]

theorem Consistent.complete (hc : s.Consistent (some t)) (outcome : Outcome) :
    ((s.complete t outcome).2.putBack (s.complete t outcome).1).Consistent none := by
  have hws : ∀ w ∈ t.waiters, s.InState w .suspended := fun w hw => hc.waiter (.inr rfl) hw
  have hfound : ∀ w ∈ t.waiters, ∃ u, s.get? w = some u :=
    fun w hw => (hws w hw).imp fun _ => And.left
  have hlist : s.waitersOf (some t) t.id = t.waiters := by rw [waitersOf_some, if_pos rfl]
  have hv := hc.vacant.wakeAll outcome hws (hc.waiters_nodup (.inr rfl))
  refine Vacant.putBack hv ⟨rfl, nofun, fun _ => ⟨rfl, outcome, rfl⟩⟩ ?_
  refine (hc.waitLists.clear t.id).congr (fun i => ?_) fun i => ?_
  · have hstate : (t.waiters.foldl (wake outcome) s).InState i .suspended ↔
        i ∉ t.waiters ∧ s.InState i .suspended := (inState_wakeAll outcome hfound).trans (by simp)
    simp [Scheduler.complete, hstate, hlist, and_comm]
  · have hid : (s.complete t outcome).1.id = t.id := rfl
    rw [waitersOf_some, hid]
    by_cases hi : i = t.id
    · rw [if_pos hi.symm, hi, Function.update_self]
      rfl
    · rw [if_neg (Ne.symm hi), Function.update_of_ne hi, waitersOf_some, if_neg (Ne.symm hi)]
      exact waitersOf_wakeAll outcome hfound i

/-- When a task ends, those that wait for it are handed its outcome and queue up. -/
theorem Consistent.table_complete (hc : s.Consistent (some t)) (outcome : Outcome) :
    (∀ i, ((s.complete t outcome).2.putBack (s.complete t outcome).1).get? i =
      if i = t.id then some (s.complete t outcome).1
      else if i ∈ t.waiters then (s.get? i).map (woken outcome) else s.get? i) ∧
    ((s.complete t outcome).2.putBack (s.complete t outcome).1).ready = s.ready ++ t.waiters ∧
    ((s.complete t outcome).2.putBack (s.complete t outcome).1).tasks.size = s.tasks.size := by
  have hwait : ∀ w ∈ t.waiters, ∃ u, s.get? w = some u := fun w hw => by
    obtain ⟨u, hu, -⟩ := hc.waiter (.inr rfl) hw
    exact ⟨u, hu⟩
  obtain ⟨hget, hready, hsize⟩ := wakeAll outcome s hwait
  refine ⟨fun i => ?_, hready, (size_putBack _ _).trans hsize⟩
  have hlt := (hc.runs rfl).1
  rw [get?_putBack]
  simp only [Scheduler.complete, hget, hsize]
  grind

theorem get?_stopped (hc : s.Consistent (some t)) {u : Task} (hu : u.id = t.id) (i : Nat) :
    (s.putBack u).get? i = if i = t.id then some u else s.get? i := by
  rw [get?_putBack_of_lt (hu ▸ (hc.runs rfl).1), known?, hu]
  simp only [eq_comm]

/-- What the scheduler looks at in a task. -/
def shell (t : Task) : Nat × TaskState × List Nat × Option Outcome :=
  (t.id, t.state, t.waiters, t.result)

theorem exists_of_map_shell {a b : Option Task} (h : a.map shell = b.map shell) {t : Task}
    (ht : a = some t) : ∃ u, b = some u ∧ t.id = u.id ∧ t.state = u.state ∧
      t.waiters = u.waiters ∧ t.result = u.result := by
  rw [ht, Option.map_some] at h
  obtain ⟨u, hu, hs⟩ := Option.map_eq_some_iff.1 h.symm
  simp only [shell, Prod.mk.injEq] at hs
  exact ⟨u, hu, hs.1.symm, hs.2.1.symm, hs.2.2.1.symm, hs.2.2.2.symm⟩

theorem InState.of_map_shell {s' : Scheduler} {state : TaskState} (h : s.InState i state)
    (hget : (s.get? i).map shell = (s'.get? i).map shell) : s'.InState i state := by
  obtain ⟨t, ht, rfl⟩ := h
  obtain ⟨u, hu, -, hs, -⟩ := exists_of_map_shell hget ht
  exact ⟨u, hu, hs.symm⟩

theorem map_shell_known? {s' : Scheduler} {running running' : Option Task}
    (hget : (s'.get? i).map shell = (s.get? i).map shell)
    (hrun : running'.map shell = running.map shell) :
    (s'.known? running' i).map shell = (s.known? running i).map shell := by
  cases running' with
  | none =>
    obtain rfl : running = none := Option.map_eq_none_iff.1 hrun.symm
    exact hget
  | some t =>
    obtain ⟨u, rfl, hid, -⟩ := exists_of_map_shell hrun rfl
    rw [known?, known?, hid]
    split
    · exact hrun
    · exact hget

/-- Consistency is about shells. -/
theorem Consistent.transfer {s' : Scheduler} {running running' : Option Task}
    (hc : s.Consistent running) (hsize : s'.tasks.size = s.tasks.size)
    (hready : s'.ready = s.ready) (hget : ∀ i, (s'.get? i).map shell = (s.get? i).map shell)
    (hrun : running'.map shell = running.map shell) : s'.Consistent running' := by
  have hstate {i : Nat} {state : TaskState} : s'.InState i state ↔ s.InState i state :=
    ⟨(·.of_map_shell (hget i)), (·.of_map_shell (hget i).symm)⟩
  have hknown (i : Nat) : (s'.known? running' i).map shell = (s.known? running i).map shell :=
    map_shell_known? (hget i) hrun
  refine .of_parts (hsize ▸ hc.started) ?rest ?present ?runs
    (hready ▸ hc.ready_nodup) ?queue ?waiting
  case rest =>
    intro i t h
    obtain ⟨u, hu, hid, hs, hw, hr⟩ := exists_of_map_shell (hget i) h
    obtain ⟨hi, hrest, hdone⟩ := hc.rest hu
    rw [← hid] at hi
    rw [← hs] at hrest hdone
    rw [← hw, ← hr] at hdone
    exact ⟨hi, hrest, hdone⟩
  case present =>
    intro i hi
    have hsome := congrArg Option.isSome (hknown i)
    rw [Option.isSome_map, Option.isSome_map] at hsome
    exact hsome ▸ hc.isSome_known? (hsize ▸ hi)
  case runs =>
    intro t h
    obtain ⟨u, hu, hid, hs, -⟩ := exists_of_map_shell hrun h
    obtain ⟨hlt, hn, hst⟩ := hc.runs hu
    refine ⟨hid ▸ hsize ▸ hlt, ?_, hs.trans hst⟩
    have hget := hget t.id
    rw [hid, hn] at hget
    exact hid ▸ Option.map_eq_none_iff.1 hget
  case queue =>
    intro i
    rw [hready, hstate]
    exact hc.mem_ready
  case waiting =>
    refine hc.waitLists.congr (fun i => hstate) fun i => ?_
    have hlist (a : Option Task) : a.elim [] Task.waiters = (a.map shell).elim [] (·.2.2.1) := by
      cases a <;> rfl
    rw [waitersOf, waitersOf, hlist, hknown, ← hlist]

theorem Consistent.observe {running : Option Task} (hc : s.Consistent running) (id : Nat) :
    (s.modifyTask id fun t => { t with observed := true }).Consistent running := by
  refine hc.transfer (size_modifyTask _ _ _) rfl (fun i => ?_) rfl
  rw [get?_modifyTask]
  split
  · cases s.get? i <;> rfl
  · rfl

/-- What the running task may do to the table but for tasks that it starts and waits for. -/
inductive Attends (s : Scheduler) : Scheduler → Prop
  | same : s.Attends s
  | observes (id : Nat) : s.Attends (s.modifyTask id fun t => { t with observed := true })

end ScopedScript.Scheduler
