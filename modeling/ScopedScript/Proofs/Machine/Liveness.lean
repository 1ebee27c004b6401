import ScopedScript.Proofs.Machine.Frames

/-!
# Live slots

Which slots are live after each operation on bindings, and what a frame starts with: its arguments
in the first slots, all declared in its outermost scope.
-/

namespace ScopedScript

namespace Bindings

variable {b b' : Bindings} {i slot : Nat} {v : Value} {es : List BindingEvent}

theorem live_withSlot_live (hi : b.Live i) : (b.withSlot i (.live v)).Live slot ↔ b.Live slot := by
  obtain ⟨w, hw⟩ := hi
  simp only [Live, holds_withSlot_live hw.lt_size]
  by_cases h : i = slot
  · subst h
    simp only [if_true]
    exact ⟨fun _ => ⟨w, hw⟩, fun _ => ⟨v, rfl⟩⟩
  · simp [h]

theorem live_withSlot_dead {s : Slot} (hs : s.isLive = false) :
    (b.withSlot i s).Live slot ↔ slot ≠ i ∧ b.Live slot := by
  simp only [Live, holds_withSlot_dead hs, ne_eq, exists_and_left, eq_comm]

theorem live_declared (hv : b.Vacant i) :
    (BindingM.declared b i v).Live slot ↔ slot = i ∨ b.Live slot := by
  obtain ⟨s, hs, -⟩ := hv
  have hi : i < b.slots.size := (Array.getElem?_eq_some_iff.1 hs).1
  change (∃ w, (b.withSlot i (.live v)).Holds slot w) ↔ _
  simp only [holds_withSlot_live hi]
  by_cases h : i = slot
  · simp [h]
  · simp [h, Ne.symm h, Live]

theorem live_leftScope :
    (BindingM.leftScope b).Live slot ↔ slot ∉ b.scopes.headD [] ∧ b.Live slot := by
  simp only [Live, Holds, BindingM.leftScope, slots_releaseAll]
  by_cases h : slot ∈ b.scopes.headD []
  · simp only [h, true_and, not_true_eq_false, false_and, iff_false]
    rintro ⟨v, hv⟩
    split at hv
    · cases hv
    · rename_i hlt
      exact hlt (Array.getElem?_eq_some_iff.1 hv).1
  · simp only [h, false_and, if_false, not_false_eq_true, true_and]

/-- What is live stays in the care of an open scope. -/
theorem Scoped.rebinds {i : Instr} (hs : b.Scoped) (h : i.Rebinds b es b') : b'.Scoped := by
  intro slot hl
  cases h with
  | same b hi => exact hs slot hl
  | enterScope b => exact hs slot hl
  | exitScope hne =>
    obtain ⟨hout, hl⟩ := live_leftScope.1 hl
    have := hs slot hl
    obtain ⟨slots, scopes⟩ := b
    cases scopes with
    | nil => exact absurd rfl hne
    | cons scope outer =>
      rw [List.flatten_cons, List.mem_append] at this
      exact this.resolve_left hout
  | @declare b i v hv hne =>
    obtain ⟨slots, scopes⟩ := b
    cases scopes with
    | nil => exact absurd rfl hne
    | cons scope outer =>
      change slot ∈ i :: scope ++ outer.flatten
      rcases (live_declared hv).1 hl with rfl | hl
      · simp
      · have := hs slot hl
        simpa using Or.inr this
  | move hi => exact hs slot ((live_withSlot_dead rfl).1 hl).2
  | free hi => exact hs slot ((live_withSlot_dead rfl).1 hl).2
  | store v hi => exact hs slot ((live_withSlot_live hi).1 hl)
  | storeField path v hi => exact hs slot ((live_withSlot_live hi).1 hl)

/-- The live slots are those that the open scopes declared, each once. -/
structure Fresh (b : Bindings) : Prop where
  owned : b.Scoped
  live : ∀ i ∈ b.scopes.flatten, b.Live i
  nodup : b.scopes.flatten.Nodup

theorem Fresh.declareArgs {args : List Value} :
    ∀ {first : Nat} {b b' : Bindings}, b.Fresh → BindingM.declareArgs first args b = .ok () b' →
      b'.Fresh ∧ b'.slots.size = b.slots.size ∧
        b'.scopes = b.scopes.modifyHead ((List.range' first args.length).reverse ++ ·) := by
  induction args with
  | nil =>
    intro first b b' hb h
    cases h
    exact ⟨hb, rfl, by cases b.scopes <;> simp⟩
  | cons v rest ih =>
    intro first b b' hb h
    rw [BindingM.declareArgs, BindingM.bind_apply] at h
    rcases BindingM.declare_cases first v b with ⟨hv, hne, hd⟩ | ⟨-, e, hd, -⟩
    · rw [hd] at h
      have hflat : (BindingM.declared b first v).scopes.flatten = first :: b.scopes.flatten := by
        obtain ⟨slots, scopes⟩ := b
        cases scopes with
        | nil => exact absurd rfl hne
        | cons scope outer => rfl
      have hfresh : (BindingM.declared b first v).Fresh := by
        refine ⟨hb.owned.rebinds (.declare v hv hne), ?_, ?_⟩
        · rw [hflat]
          intro i hi
          rw [live_declared hv]
          exact (List.mem_cons.1 hi).imp id (hb.live i)
        · rw [hflat, List.nodup_cons]
          exact ⟨fun hm => hv.not_live (hb.live _ hm), hb.nodup⟩
      obtain ⟨hf, hn, hr⟩ := ih hfresh h
      refine ⟨hf, hn.trans (Array.size_setIfInBounds ..), ?_⟩
      rw [hr, List.length_cons, List.range'_succ, BindingM.declared]
      cases b.scopes <;> simp
    · rw [hd] at h
      cases h

theorem not_live_new (n i : Nat) : ¬ (Bindings.new n).Live i := by
  rintro ⟨v, hv⟩
  rw [Holds, new, Array.getElem?_replicate] at hv
  split at hv <;> cases hv

end Bindings

namespace Frame

variable {p : Linked} {fr : Frame}

theorem fresh_enter {id base : Nat} {f : FunctionCode} {args captures : List Value} {box : Bool}
    (h : Frame.enter id f args captures base box = .ok fr) :
    fr.bindings.Fresh ∧ fr.bindings.slots.size = f.slotCount ∧
      fr.bindings.scopes = [(List.range args.length).reverse] := by
  unfold Frame.enter at h
  simp only [BindingM.bind_apply, BindingM.enterScope_apply] at h
  split at h
  · rename_i b hb
    cases h
    have hnew : Bindings.Fresh { Bindings.new f.slotCount with scopes := [[]] } :=
      ⟨fun i hi => absurd hi (Bindings.not_live_new _ i), by simp, by simp⟩
    obtain ⟨hf, hn, hr⟩ := hnew.declareArgs hb
    refine ⟨hf, hn.trans (by simp [Bindings.new]), ?_⟩
    simpa [List.range_eq_range'] using hr
  · cases h

theorem enter_eq {id base : Nat} {f : FunctionCode} {args captures : List Value} {box : Bool}
    {fr : Frame} (h : Frame.enter id f args captures base box = .ok fr) :
    fr = ⟨id, 0, fr.bindings, captures, base, box⟩ := by
  unfold Frame.enter at h
  dsimp only at h
  split at h <;> cases h
  rfl

theorem enter_place {id base : Nat} {f : FunctionCode} {args captures : List Value} {box : Bool}
    {fr : Frame} (h : Frame.enter id f args captures base box = .ok fr) :
    fr.function = id ∧ fr.ip = 0 := by
  rw [enter_eq h]
  exact ⟨rfl, rfl⟩

end Frame

end ScopedScript
