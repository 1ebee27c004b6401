import ScopedScript.Proofs.Evaluation.Expressions

/-!
# Code of scopes and bindings

The code that opens and leaves scopes, and declares, assigns and frees bindings, leaves a frame with
the values that evaluation leaves in scope.
-/

namespace ScopedScript

section

variable {p : Linked} {c : Seat} {o s : Running} {P : Point} {b : Bindings} {env : Locals}
  {name : String} {start stop : Nat} {stack : List Value} {written : String} {span : Option Span}

variable (hc : p.module.functions[c.function]? = some c.code) (hm : Models c.code.slotCount P b env)

include hc hm

theorem goes_enterScope (hs : c.Stands o start b stack written s)
    (hi : c.code.Has start .enterScope span) :
    ∃ s' b', Exec.next p s = .ok .goOn s' ∧ Models c.code.slotCount P.opened b' ([] :: env) ∧
      c.Stands o (start + 1) b' stack written s' := by
  obtain ⟨s', hnext, hs'⟩ := hs.rebind [] none none hc hi rfl rfl
  exact ⟨s', _, hnext, hm.opened, hs'⟩

theorem goes_exitScope (hP : P.scopes ≠ []) (hd : (P.scopes.flatten.map Binding.slot).Nodup)
    (hs : c.Stands o start b stack written s) (hi : c.code.Has start .exitScope span) :
    ∃ s' b', Exec.next p s = .ok .goOn s' ∧ Models c.code.slotCount P.closed b' env.tail ∧
      c.Stands o (start + 1) b' stack written s' := by
  rcases BindingM.exitScope_cases b with ⟨-, hexit⟩ | ⟨hnil, -⟩
  · obtain ⟨s', hnext, hs'⟩ := hs.rebind [] none _ hc hi rfl (by
      rw [BindingM.bind_apply, hexit]
      rfl)
    exact ⟨s', _, hnext, hm.closed hP hd, hs'⟩
  · exact absurd hnil (hm.nonempty hP)

/-- Scopes that are left one after the other. -/
theorem goes_exitScopes {extra outer : List (List Binding)} (hsc : P.scopes = extra ++ outer)
    (hd : (P.scopes.flatten.map Binding.slot).Nodup) (hs : c.Stands o start b stack written s)
    (h : c.code.HasAll span start (List.replicate extra.length .exitScope) stop) :
    ∃ k s' b', s.Goes p k s' ∧ Models c.code.slotCount { P with scopes := outer } b'
      (env.drop extra.length) ∧ c.Stands o stop b' stack written s' := by
  induction extra generalizing P b env start s with
  | nil =>
    obtain rfl : stop = start := h
    rw [List.nil_append] at hsc
    exact ⟨0, s, b, .refl s, hsc ▸ hm, hs⟩
  | cons scope rest ih =>
    obtain ⟨s', b', hnext, hm', hs'⟩ :=
      goes_exitScope hc hm (by rw [hsc]; exact List.cons_ne_nil _ _) hd hs h.1
    have hclosed : P.closed.scopes = rest ++ outer := by rw [Point.closed, hsc]; rfl
    have hd' : (P.closed.scopes.flatten.map Binding.slot).Nodup := by
      rw [hsc, List.cons_append, List.flatten_cons, List.map_append] at hd
      rw [hclosed]
      exact hd.of_append_right
    obtain ⟨k, s'', b'', hgoes, hm'', hs''⟩ := ih hm' hclosed hd' hs' h.2
    rw [List.drop_tail] at hm''
    exact ⟨k + 1, s'', b'', .step hnext hgoes, hm'', hs''⟩

theorem goes_declare {v : Value} (hP : P.Fine) (h : DeclareAt c.code P start name span stop)
    (hs : c.Stands o start b (v :: stack) written s) :
    ∃ s' b', Exec.next p s = .ok .goOn s' ∧
      Models c.code.slotCount (P.declare name span) b' (env.declare name v) ∧
      c.Stands o stop b' stack written s' := by
  obtain ⟨hlt, -, hi, rfl⟩ := h
  rcases BindingM.declare_cases P.slots v b with ⟨-, -, hd⟩ | ⟨hnot, -⟩
  · obtain ⟨s', hnext, hs'⟩ := hs.rebind [v] none none hc hi rfl (by
      rw [BindingM.bind_apply, hd]
      rfl)
    exact ⟨s', _, hnext, hm.declared hP hlt name span v, hs'⟩
  · exact absurd ⟨hm.vacant hP hlt, hm.nonempty hP.nonempty⟩ hnot

/-- The store of a value fails where evaluation does: when a path leads to no part of the old value.
-/
theorem realizes_store {target : AssignTarget} {v : Value} {n : Nat} (hP : P.Fine)
    (h : StoreAt c.code P start target span stop) (hs : c.Stands o start b (v :: stack) written s) :
    Realizes p o n s
      (fun env written s => ∃ b, Models c.code.slotCount P b env ∧
        c.Stands o stop b stack written s)
      (Evaluator.store c.activation env target span v written) := by
  rw [StoreAt] at h
  split at h
  · rename_i d hr
    obtain ⟨hu, hi, rfl⟩ := h
    obtain ⟨old, hold, hheld⟩ := hm.find?_slot hr
    have hheld := hheld hu
    rw [Evaluator.store, hold, Evaluator.known_bind]
    obtain ⟨root, path⟩ := target
    cases path with
    | nil =>
      rw [Value.setPath?]
      rcases BindingM.store_cases d.slot v b with ⟨-, hstore⟩ | ⟨hnot, -⟩
      · obtain ⟨s', hnext, hs'⟩ := hs.rebind [v] none none hc hi rfl (by
          rw [BindingM.bind_apply, hstore]
          rfl)
        exact .value (.step hnext (.refl s')) ⟨_, hm.assigned hP hr ⟨old, hheld⟩ v, hs'⟩
      · exact absurd ⟨old, hheld⟩ hnot
    | cons i path =>
      rcases BindingM.storeField_cases d.slot (i :: path) v b with
        ⟨w, whole, hw, hset, hstore⟩ | ⟨w, hw, hset, hstore⟩ | ⟨hnot, -⟩
      · obtain rfl := hw.unique hheld
        obtain ⟨s', hnext, hs'⟩ := hs.rebind [v] none none hc hi rfl (by
          rw [BindingM.bind_apply, hstore]
          rfl)
        rw [hset]
        exact .value (.step hnext (.refl s')) ⟨_, hm.assigned hP hr ⟨w, hheld⟩ whole, hs'⟩
      · obtain rfl := hw.unique hheld
        rw [hset]
        obtain ⟨s₁, hs₁, hnext⟩ := hs.next hc hi
        have hrebind : (Instr.storeField d.slot (i :: path)).rebind? [v] = some do
          BindingM.storeField d.slot (i :: path) v
          return (none, none) := rfl
        have hstep := Exec.step_rebind (p := p) (f := c.code) hs₁.frames_eq hrebind hs₁.stack_eq
        rw [show (c.frame (start + 1) b).bindings = b from
          rfl, BindingM.bind_apply, hstore] at hstep
        exact .fault (hnext.trans (adaptExcept_error hstep)) ((hs₁.withStack _).withFrames _)
      · exact absurd ⟨old, hheld⟩ hnot
  · exact h.elim

theorem goes_free {slot : Nat} (hl : b.Live slot) (hs : c.Stands o start b stack written s)
    (hi : c.code.Has start (.free slot) span) : ∃ s' b', Exec.next p s = .ok .goOn s' ∧
      Models c.code.slotCount (P.withFreed ((slot, span) :: P.freed)) b' env ∧
      c.Stands o (start + 1) b' stack written s' := by
  rcases BindingM.free_cases slot b with ⟨-, hfree⟩ | ⟨hnot, -⟩
  · obtain ⟨s', hnext, hs'⟩ := hs.rebind [] none _ hc hi rfl (by
      rw [BindingM.bind_apply, hfree]
      rfl)
    exact ⟨s', _, hnext, hm.withFreed hl span, hs'⟩
  · exact absurd hl hnot

theorem goes_freeAt (hs : c.Stands o start b stack written s)
    (h : FreeAt c.code P start name span stop) :
    ∃ s' b', Exec.next p s = .ok .goOn s' ∧ Models c.code.slotCount (P.free name span) b' env ∧
      c.Stands o stop b' stack written s' := by
  rw [FreeAt] at h
  split at h
  · rename_i d hr
    obtain ⟨hu, hd, hi, rfl⟩ := h
    obtain ⟨s', b', hnext, hm', hs'⟩ := goes_free hc hm (hm.live_of_resolve? hr hu) hs hi
    refine ⟨s', b', hnext, ?_, hs'⟩
    rw [Point.free, hr]
    simp only [hu, hd, and_self, if_true]
    exact hm'
  · exact h.elim

/-- Bindings that are freed one after the other. -/
theorem goes_frees (dead : List Binding)
    (h : c.code.HasAll span start (dead.map fun d => .free d.slot) stop)
    (hd : ∀ d ∈ dead, d ∈ P.scopes.flatten ∧ P.Usable d) (hn : (dead.map Binding.slot).Nodup)
    (hs : c.Stands o start b stack written s) :
    ∃ k s' b', s.Goes p k s' ∧
      Models c.code.slotCount (P.withFreed (dead.map (fun d => (d.slot, span)) ++ P.freed)) b' env ∧
      c.Stands o stop b' stack written s' := by
  induction dead generalizing P start b s with
  | nil =>
    obtain rfl : stop = start := h
    exact ⟨0, s, b, .refl s, hm, hs⟩
  | cons d rest ih =>
    obtain ⟨hd₀, hd⟩ := List.forall_mem_cons.1 hd
    obtain ⟨hne, hn⟩ := List.nodup_cons.1 hn
    obtain ⟨s', b', hnext, hm', hs'⟩ := goes_free hc hm (hm.live d hd₀.1 hd₀.2) hs h.1
    have husable : ∀ e ∈ rest, e ∈ P.scopes.flatten ∧
        (P.withFreed ((d.slot, span) :: P.freed)).Usable e := by
      intro e he
      refine ⟨(hd e he).1, ?_⟩
      have hslot : e.slot ≠ d.slot := fun heq => hne (heq ▸ List.mem_map_of_mem he)
      rw [Point.Usable, Point.withFreed, List.lookup_cons, beq_false_of_ne hslot]
      exact (hd e he).2
    obtain ⟨k, s'', b'', hgoes, hm'', hs''⟩ := ih hm' h.2 husable hn hs'
    refine ⟨k + 1, s'', b'', .step hnext hgoes, hm''.weaken rfl fun e _ hu => ?_, hs''⟩
    rw [Point.Usable, Point.withFreed, List.map_cons, List.cons_append, List.lookup_cons] at hu
    rw [Point.Usable, Point.withFreed, Point.lookup_append_eq_none]
    split at hu
    · cases hu
    · rename_i he
      rw [Point.lookup_append_eq_none] at hu
      refine ⟨hu.1, ?_⟩
      rw [Point.withFreed, List.lookup_cons, he]
      exact hu.2

theorem goes_collect {rest : List TStmt} (hP : P.Fine)
    (h : c.code.HasAll span start ((P.dead rest).map fun d => .free d.slot) stop)
    (hs : c.Stands o start b stack written s) :
    ∃ k s' b', s.Goes p k s' ∧ Models c.code.slotCount (P.collect rest span) b' env ∧
      c.Stands o stop b' stack written s' := by
  have hsub := deadBindings_sublist P.freed (blockUses [] rest) [] (P.scopes.headD [])
  have hflat := Point.flatten_scopes hP.nonempty
  refine goes_frees hc hm (P.dead rest) h (fun d hd => ?_) ?_ hs
  · obtain ⟨hmem, hu⟩ := Point.mem_deadBindings hd
    exact ⟨hflat ▸ List.mem_append_left _ hmem, hu⟩
  · have hnodup := hP.distinct
    rw [hflat, List.map_append] at hnodup
    exact hnodup.of_append_left.sublist (hsub.map _)

end

end ScopedScript
