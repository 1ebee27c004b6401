import ScopedScript.Proofs.Machine.Deadlock
import ScopedScript.Proofs.Machine.FrameSteps
import ScopedScript.Proofs.Machine.Liveness

/-!
# Every binding is released once

The history of a run is the list of events of its steps. Seen from one slot of one frame, it is the
frame's entry, then declarations each followed by one release, then the frame's end. The log of a
machine holds the releases of the history and nothing else.
-/

namespace ScopedScript

namespace BindingEvent

/-- Events of the slot, and those of the frame itself. -/
def concerns (slot : Nat) : BindingEvent → Bool
  | declared i => i == slot
  | released i _ => i == slot
  | entered | left => true

/-- Declarations of the slot, each with its release. -/
def pairs (slot : Nat) (kinds : List ReleaseKind) : List BindingEvent :=
  kinds.flatMap fun kind => [declared slot, released slot kind]

/-- What a slot of a frame goes through, when its releases were of these kinds. -/
def account (slot : Nat) (kinds : List ReleaseKind) : List BindingEvent :=
  entered :: pairs slot kinds ++ [left]

/-- The frames at a place came one after the other, and each released whatever it had bound to the
slot. -/
def Settled (slot : Nat) (es : List BindingEvent) : Prop :=
  ∃ frames : List (List ReleaseKind), es.filter (concerns slot) = frames.flatMap (account slot)

theorem pairs_append (slot : Nat) (kinds : List ReleaseKind) (kind : ReleaseKind) :
    pairs slot (kinds ++ [kind]) = pairs slot kinds ++ [declared slot, released slot kind] := by
  simp [pairs]

/-- Distinct slots have at most one event among those of a list of slots. -/
theorem filter_concerns_map {slot : Nat} {f : Nat → BindingEvent}
    (hf : ∀ i, concerns slot (f i) = (i == slot)) {slots : List Nat} (hn : slots.Nodup) :
    (slots.map f).filter (concerns slot) = if slot ∈ slots then [f slot] else [] := by
  rw [List.filter_map, show concerns slot ∘ f = (· == slot) from funext hf, List.filter_beq]
  split
  · rw [List.count_eq_one_of_mem hn ‹_›]
    rfl
  · rw [List.count_eq_zero.2 ‹_›]
    rfl

end BindingEvent

namespace Bindings

variable {b b' : Bindings} {i slot : Nat} {es : List BindingEvent}

/-- What an instruction does to the slots of its frame. -/
theorem rebinds_slot {i : Instr} (h : i.Rebinds b es b') (slot : Nat) :
    es.filter (BindingEvent.concerns slot) = [] ∧ (b'.Live slot ↔ b.Live slot) ∨
    es.filter (BindingEvent.concerns slot) = [.declared slot] ∧ ¬ b.Live slot ∧ b'.Live slot ∨
    ∃ kind, es.filter (BindingEvent.concerns slot) = [.released slot kind] ∧
      b.Live slot ∧ ¬ b'.Live slot := by
  have release : ∀ {i kind} {s : Slot}, b.Live i → s.isLive = false →
      [BindingEvent.released i kind].filter (BindingEvent.concerns slot) = [] ∧
        ((b.withSlot i s).Live slot ↔ b.Live slot) ∨
      ∃ kind', [BindingEvent.released i kind].filter (BindingEvent.concerns slot) =
        [.released slot kind'] ∧ b.Live slot ∧ ¬ (b.withSlot i s).Live slot := by
    intro i kind s hi hs
    rw [live_withSlot_dead hs]
    by_cases h : i = slot
    · subst h
      exact .inr ⟨kind, by simp [BindingEvent.concerns], hi, fun h => h.1 rfl⟩
    · exact .inl ⟨by simp [BindingEvent.concerns, h], by simp [Ne.symm h]⟩
  cases h with
  | same b hi => exact .inl ⟨rfl, Iff.rfl⟩
  | enterScope b => exact .inl ⟨rfl, Iff.rfl⟩
  | exitScope hne =>
    rw [BindingEvent.filter_concerns_map (fun _ => rfl) (nodup_released _ _), live_leftScope]
    split <;> rename_i h <;> rw [mem_released] at h
    · exact .inr (.inr ⟨_, rfl, h.2, fun hl => hl.1 h.1⟩)
    · exact .inl ⟨rfl, fun hl => hl.2, fun hl => ⟨fun hm => h ⟨hm, hl⟩, hl⟩⟩
  | @declare b i v hv hne =>
    rw [live_declared hv]
    by_cases h : i = slot
    · subst h
      exact .inr (.inl ⟨by simp [BindingEvent.concerns], hv.not_live, .inl rfl⟩)
    · exact .inl ⟨by simp [BindingEvent.concerns, h], by simp [Ne.symm h]⟩
  | move hl =>
    rcases release (s := .moved) hl rfl with h | h
    · exact .inl h
    · exact .inr (.inr h)
  | free hl =>
    rcases release (s := .freed) hl rfl with h | h
    · exact .inl h
    · exact .inr (.inr h)
  | store v hl => exact .inl ⟨rfl, live_withSlot_live hl⟩
  | storeField path v hl => exact .inl ⟨rfl, live_withSlot_live hl⟩

end Bindings

/-- What the events of a place say about a slot of the frame that is there now, if there is one. -/
def Account (slot : Nat) (es : List BindingEvent) : Option Frame → Prop
  | none => BindingEvent.Settled slot es
  | some fr => fr.bindings.Scoped ∧ ∃ (frames : List (List ReleaseKind)) (kinds : List ReleaseKind)
      (rest : List BindingEvent),
    es.filter (BindingEvent.concerns slot) = frames.flatMap (BindingEvent.account slot) ++
      .entered :: BindingEvent.pairs slot kinds ++ rest ∧
    (¬ fr.bindings.Live slot ∧ rest = [] ∨ fr.bindings.Live slot ∧ rest = [.declared slot])

namespace Account

variable {p : Linked} {slot : Nat} {es : List BindingEvent} {fr : Frame}

theorem moves {ev : List BindingEvent} {b : Bindings} {ip : Nat} {i : Instr}
    (h : Account slot es (some fr)) (hb : i.Rebinds fr.bindings ev b) :
    Account slot (es ++ ev) (some { fr with bindings := b, ip }) := by
  obtain ⟨hs, frames, kinds, rest, he, hrest⟩ := h
  refine ⟨hs.rebinds hb, ?_⟩
  rw [List.filter_append, he]
  rcases Bindings.rebinds_slot hb slot with ⟨hev, hl⟩ | ⟨hev, hl, hl'⟩ | ⟨kind, hev, hl, hl'⟩
  · refine ⟨frames, kinds, rest, by rw [hev, List.append_nil], ?_⟩
    change ¬ b.Live slot ∧ _ ∨ b.Live slot ∧ _
    rwa [hl]
  · obtain ⟨-, rfl⟩ := hrest.resolve_right fun h => hl h.1
    exact ⟨frames, kinds, _, by rw [hev, List.append_nil], .inr ⟨hl', rfl⟩⟩
  · obtain ⟨-, rfl⟩ := hrest.resolve_left fun h => h.1 hl
    refine ⟨frames, kinds ++ [kind], [], ?_, .inl ⟨hl', rfl⟩⟩
    rw [hev, BindingEvent.pairs_append]
    simp

theorem enters (h : Account slot es none) (hn : fr.Entered p) :
    Account slot (es ++ fr.entering) (some fr) := by
  obtain ⟨f, args, captures, base, box, -, he⟩ := hn
  obtain ⟨hf, -⟩ := Frame.fresh_enter he
  obtain ⟨frames, hfr⟩ := h
  have hdecl : (fr.bindings.scopes.flatten.reverse.map BindingEvent.declared).filter
      (BindingEvent.concerns slot) =
        if slot ∈ fr.bindings.scopes.flatten.reverse then [.declared slot] else [] :=
    BindingEvent.filter_concerns_map (fun _ => rfl) (List.nodup_reverse.2 hf.nodup)
  refine ⟨hf.owned, frames, [],
    if slot ∈ fr.bindings.scopes.flatten.reverse then [.declared slot] else [], ?_, ?_⟩
  · rw [List.filter_append, hfr, Frame.entering, List.filter_cons_of_pos rfl, hdecl]
    simp [BindingEvent.pairs]
  · split <;> rename_i hm <;> rw [List.mem_reverse] at hm
    · exact .inr ⟨hf.live slot hm, rfl⟩
    · exact .inl ⟨fun hl => hm (hf.owned slot hl), rfl⟩

theorem leaves (h : Account slot es (some fr)) (kind : ReleaseKind) :
    Account slot (es ++ fr.leaving kind) none := by
  obtain ⟨hs, frames, kinds, rest, he, hrest⟩ := h
  have hrel : (fr.bindings.exitAll.2.map (BindingEvent.released · kind)).filter
      (BindingEvent.concerns slot) =
        if slot ∈ fr.bindings.exitAll.2 then [.released slot kind] else [] :=
    BindingEvent.filter_concerns_map (fun _ => rfl) (Bindings.nodup_exitAll _)
  have hleft : [BindingEvent.left].filter (BindingEvent.concerns slot) = [.left] := rfl
  rcases hrest with ⟨hl, rfl⟩ | ⟨hl, rfl⟩
  · refine ⟨frames ++ [kinds], ?_⟩
    rw [List.filter_append, he, Frame.leaving, List.filter_append, hrel,
      if_neg fun hm => hl ((Bindings.mem_exitAll hs).1 hm), hleft]
    simp [BindingEvent.account]
  · refine ⟨frames ++ [kinds ++ [kind]], ?_⟩
    rw [List.filter_append, he, Frame.leaving, List.filter_append, hrel,
      if_pos ((Bindings.mem_exitAll hs).2 hl), hleft]
    simp [BindingEvent.account, BindingEvent.pairs_append]

/-- One step keeps the account of every slot of every place. -/
theorem step {ev : List BindingEvent} {old new : Option Frame} (h : Account slot es old)
    (hs : FrameStep p old ev new) : Account slot (es ++ ev) new := by
  cases hs with
  | stays fr => rwa [List.append_nil]
  | moves hf hi hb hip => exact h.moves hb
  | enters hn => exact h.enters hn
  | leaves fr kind => exact h.leaves kind

end Account

namespace MachineState

variable {p : Linked} {s : MachineState}

/-- The events of the steps of a run, in order. -/
def history (p : Linked) : (steps : Nat) → MachineState → List FrameEvent
  | 0, _ => []
  | steps + 1, s =>
    match step p s with
    | .ok s' => s.events p ++ history p steps s'
    | .error _ => []

/-- The events so far account for all slots of all frames. -/
def Accounts (s : MachineState) (es : List FrameEvent) : Prop :=
  ∀ task depth slot, Account slot (eventsAt es task depth) (s.frameAt task depth)

/-- The accounts and the log at the end of a run. -/
theorem accounts_of_run {n : Nat} {es : List FrameEvent} {halt : Halt} {m : Machine}
    (ht : s.Tidy p) (ha : s.Accounts es) (h : run p n s = some (halt, m)) :
    ∃ s', s.Reaches p s' ∧ MachineState.step p s' = .error (halt, m) ∧ s'.Tidy p ∧
      s'.Accounts (es ++ s.history p n) ∧ s.machine.Grows p (s.history p n) s'.machine := by
  induction n generalizing s es with
  | zero => cases h
  | succ n ih =>
    rw [run] at h
    cases hs : MachineState.step p s with
    | ok s₁ =>
      rw [hs] at h
      have hadv := advance_step ht hs
      have ha₁ : s₁.Accounts (es ++ s.events p) := fun task depth slot => by
        rw [eventsAt_append]
        exact (ha task depth slot).step (hadv.frames task depth)
      obtain ⟨s', hr, he, ht', ha', hg⟩ := ih hadv.tidy ha₁ h
      refine ⟨s', Relation.ReflTransGen.head hs hr, he, ht', ?_, ?_⟩
      · simpa [history, hs] using ha'
      · simpa [history, hs] using hadv.log.append hg
    | error halted =>
      rw [hs] at h
      cases h
      refine ⟨s, .refl s, hs, ht, ?_, ?_⟩
      · simpa [history, hs] using ha
      · simp [history, hs, Machine.Grows]

end MachineState

namespace Linked

variable {p : Linked}

/-- The events of a run of an entry function. -/
def history (p : Linked) (steps : Nat) (name : String) (m : Machine) : List FrameEvent :=
  match p.entry name with
  | .ok frame => frame.place 0 0 frame.entering ++ (startState m frame).history p steps
  | .error _ => []

theorem accounts_startState {frame : Frame} (h : frame.Entered p) (m : Machine) :
    (startState m frame).Accounts (frame.place 0 0 frame.entering) := by
  intro task depth slot
  have none_yet : Account slot [] none := ⟨[], rfl⟩
  rw [Frame.eventsAt_place, MachineState.frameAt, startState, MachineState.framesOf,
    Scheduler.framesOf_spawn]
  by_cases ht : task = 0
  · subst ht
    cases depth with
    | zero => exact none_yet.enters h
    | succ depth => exact none_yet
  · rw [if_neg fun h => ht h.1.symm, if_neg (show ¬ task = Scheduler.empty.tasks.size from ht)]
    exact none_yet

/-- When a run ends, every binding of a frame of a completed task has been released once, and the
log tells of nothing else. All tasks have completed if the built-ins make up no handles. -/
theorem released_once (hrec : p.config.recordReleases = true) {steps : Nat} {name : String}
    {start m : Machine} {o : Outcome} (h : p.run steps name start = (.outcome o, m)) :
    m.releases.toList = start.releases.toList ++
      (p.history steps name start).filterMap (FrameEvent.release? p) ∧
    ∀ task depth slot,
      BindingEvent.Settled slot (eventsAt (p.history steps name start) task depth) ∨
        ¬ p.ForwardsHandles ∧ ∃ t, m.scheduler.get? task = some t ∧ t.state ≠ .completed := by
  rcases run_cases h with ⟨f, he, -, rfl⟩ | ⟨frame, he, ⟨ho, -⟩ | ⟨halt, hrun, hend⟩⟩
  · rw [history, he]
    exact ⟨by simp, fun task depth slot => .inl ⟨[], rfl⟩⟩
  · cases ho
  · obtain ⟨type, -, ho⟩ | ⟨rfl, -⟩ := hend
    · cases ho
    have hn := entered_entry he
    obtain ⟨s, hs, hstep, htidy, hacc, hlog⟩ := MachineState.accounts_of_run
      (tidy_startState hn start) (accounts_startState hn start) hrun
    obtain ⟨rfl, hnext⟩ := MachineState.step_settled hstep
    have hhist : p.history steps name start =
        frame.place 0 0 frame.entering ++ (startState start frame).history p steps := by
      rw [history, he]
    obtain ⟨f, -, -, -, -, hf, -⟩ := id hn
    constructor
    · rw [hhist, List.filterMap_append, Frame.release?_place hf, Frame.release?_entering]
      rw [Machine.Grows, if_pos hrec] at hlog
      exact hlog
    · intro task depth slot
      have hacct := hacc task depth slot
      rw [← hhist] at hacct
      cases hfr : (MachineState.idle m).frameAt task depth with
      | none =>
        rw [hfr] at hacct
        exact .inl hacct
      | some fr =>
        -- a frame is left over, so its task has not completed
        have hmem : fr ∈ m.scheduler.framesOf task :=
          List.mem_reverse.1 (List.mem_of_getElem? hfr)
        obtain ⟨t, ht, hft⟩ : ∃ t, m.scheduler.get? task = some t ∧ fr ∈ t.frames := by
          rw [Scheduler.framesOf] at hmem
          cases hg : m.scheduler.get? task with
          | none =>
            rw [hg] at hmem
            cases hmem
          | some t =>
            rw [hg] at hmem
            exact ⟨t, rfl, hmem⟩
        have hcomp : t.state ≠ .completed := fun hst => by
          rw [htidy.completed task t ht hst] at hft
          cases hft
        refine .inr ⟨fun hp => hcomp ?_, t, ht, hcomp⟩
        have hord := orderly_of_reaches hp he hs
        exact Scheduler.Orderly.all_completed hord (hord.ready_eq_nil hnext) ht

/-- It binds a slot, frees it, binds it again and fails. -/
def bindsTwice : Linked where
  module :=
    { functions := #[⟨"main", 0, 1, #["x"], [], false, [],
        #[.const 0, .declare 0, .free 0, .const 0, .declare 0, .const 0, .await], #[.null], #[]⟩]
      structs := #[]
      natives := #[]
      source := none }
  builtins := #[]
  config := ⟨8, true⟩

theorem bindsTwice_released_once :
    (bindsTwice.run 12 "main" .empty).2.releases.toList =
      [⟨"main", 0, "x", .explicit⟩, ⟨"main", 0, "x", .unwind⟩] ∧
    BindingEvent.Settled 0 (eventsAt (bindsTwice.history 12 "main" .empty) 0 0) := by
  have hrun : bindsTwice.run 12 "main" .empty =
      (.outcome (.error ⟨.mistype (.notTask "null"), none, some "main"⟩),
        (bindsTwice.run 12 "main" .empty).2) := Prod.ext (by cbv) rfl
  have h := released_once rfl hrun
  refine ⟨h.1.trans (by cbv), (h.2 0 0 0).resolve_right fun hp => hp.1 ?_⟩
  exact fun b hb => absurd hb (by simp [bindsTwice])

end Linked

end ScopedScript
