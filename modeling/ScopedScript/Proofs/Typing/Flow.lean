import ScopedScript.Proofs.Typing.Facts

/-!
# Facts along statements

What is known of a slot when statements begin stays known behind them: a value is never taken back,
and in a loop nothing changes about an immutable binding from outside. So the facts before a loop
hold in it whenever its condition is evaluated, though they were found on the way to the first time.
-/

namespace ScopedScript

namespace InitFacts

/-- Something stays known of a slot, and a fixed state does not change. -/
def Preserved (fixed : InitState → Prop) (slot : Nat) (F G : InitFacts) : Prop :=
  ∀ u, F.lookup slot = some u → ∃ v, G.lookup slot = some v ∧ (fixed u → v = u)

section

variable {fixed : InitState → Prop} {slot k : Nat} {F G H : InitFacts} {s : InitState}

theorem Preserved.refl (fixed : InitState → Prop) (slot : Nat) (F : InitFacts) :
    Preserved fixed slot F F := fun u hu => ⟨u, hu, fun _ => rfl⟩

theorem Preserved.trans (h : Preserved fixed slot F G) (h' : Preserved fixed slot G H) :
    Preserved fixed slot F H := by
  intro u hu
  obtain ⟨v, hv, hfix⟩ := h u hu
  obtain ⟨w, hw, hfix'⟩ := h' v hv
  refine ⟨w, hw, fun hf => ?_⟩
  obtain rfl := hfix hf
  exact hfix' hf

/-- Something new is known of another slot. -/
theorem preserved_cons (h : slot ≠ k) : Preserved fixed slot F ((k, s) :: F) := by
  intro u hu
  refine ⟨u, ?_, fun _ => rfl⟩
  rw [List.lookup_cons, beq_false_of_ne h]
  exact hu

theorem Preserved.join (h : Preserved fixed slot F G) (h' : Preserved fixed slot F H) :
    Preserved fixed slot F (G.join H) := by
  intro u hu
  obtain ⟨v, hv, hfix⟩ := h u hu
  obtain ⟨w, hw, hfix'⟩ := h' u hu
  refine ⟨v.join w, by rw [lookup_join, hv, hw]; rfl, fun hf => ?_⟩
  rw [hfix hf, hfix' hf]
  exact if_pos rfl

theorem preserved_meet {paths : List InitFacts} (h : ∀ G ∈ paths, Preserved fixed slot F G)
    (ho : Preserved fixed slot F H) : Preserved fixed slot F (meet paths H) := by
  cases paths with
  | nil => exact ho
  | cons first rest =>
    obtain ⟨hfirst, hrest⟩ := List.forall_mem_cons.1 h
    change Preserved fixed slot F (rest.foldl InitFacts.join first)
    clear h
    induction rest generalizing first with
    | nil => exact hfirst
    | cons G rest ih =>
      obtain ⟨hG, hrest⟩ := List.forall_mem_cons.1 hrest
      exact ih _ (hfirst.join hG) hrest

theorem preserved_pathFacts {falls : Bool} (h : Preserved fixed slot F G) :
    ∀ G' ∈ pathFacts falls G, Preserved fixed slot F G' := by
  intro G' hG'
  cases falls with
  | false => cases hG'
  | true => exact List.mem_singleton.1 hG' ▸ h

/-! What is sure where paths meet was so on all of them. -/

theorem lookup_of_join (h : (F.join G).lookup slot = some s) (hs : s ≠ .maybe) :
    F.lookup slot = some s ∧ ((G.lookup slot).isSome → G.lookup slot = some s) := by
  rw [lookup_join] at h
  obtain ⟨u, hu, hj⟩ := Option.map_eq_some_iff.1 h
  rw [InitState.join] at hj
  split at hj
  · rename_i he
    subst hj
    refine ⟨hu, fun hsome => ?_⟩
    obtain ⟨v, hv⟩ := Option.isSome_iff_exists.1 hsome
    rw [hv, he, hv]
    rfl
  · exact absurd hj.symm hs

theorem lookup_of_meet {paths : List InitFacts} (hall : ∀ G ∈ paths, (G.lookup slot).isSome)
    (h : (meet paths H).lookup slot = some s) (hs : s ≠ .maybe) :
    ∀ G ∈ paths, G.lookup slot = some s := by
  cases paths with
  | nil => exact fun _ hG => nomatch hG
  | cons first rest =>
    obtain ⟨-, hrest⟩ := List.forall_mem_cons.1 hall
    change (rest.foldl InitFacts.join first).lookup slot = some s at h
    clear hall
    induction rest generalizing first with
    | nil =>
      intro G hG
      rw [List.mem_singleton.1 hG]
      exact h
    | cons G rest ih =>
      obtain ⟨hG, hrest⟩ := List.forall_mem_cons.1 hrest
      obtain ⟨hjoined, hlater⟩ := List.forall_mem_cons.1 (ih _ hrest h)
      obtain ⟨hfirst, hsecond⟩ := lookup_of_join hjoined hs
      exact List.forall_mem_cons.2 ⟨hfirst, List.forall_mem_cons.2 ⟨hsecond hG, hlater⟩⟩

end

end InitFacts

open InitFacts

/-- An immutable binding from outside of the innermost loop, to which nothing is assigned there. -/
def Point.Constant (P : Point) (D : List Declaration) (slot : Nat) : Prop :=
  ∃ b ∈ P.scopes.flatten, b.slot = slot ∧ b.loopDepth < P.loops ∧
    ∃ d, D[slot]? = some d ∧ d.mutable = false

/-- From the point on, the slot keeps the states that are fixed. -/
structure Point.Fixes (P : Point) (D : List Declaration) (fixed : InitState → Prop) (slot : Nat) :
    Prop where
  fine : P.Fine
  below : slot < P.slots
  fixed : ∀ u, fixed u → u = .init ∨ P.Constant D slot

section

variable {P Q : Point} {D : List Declaration} {fixed : InitState → Prop} {slot : Nat}

namespace Point.Fixes

theorem extend (h : P.Fixes D fixed slot) (hQ : P.Extends Q) : Q.Fixes D fixed slot := by
  refine ⟨h.fine.extend hQ, h.below.trans_le hQ.slots, fun u hu => (h.fixed u hu).imp_right ?_⟩
  rintro ⟨b, hb, he, hl, hd⟩
  obtain ⟨new, hflat, -⟩ := hQ.flatten h.fine.nonempty
  exact ⟨b, hflat ▸ List.mem_append_right _ hb, he, hQ.loops ▸ hl, hd⟩

theorem opened (h : P.Fixes D fixed slot) : P.opened.Fixes D fixed slot :=
  ⟨h.fine.opened, h.below, h.fixed⟩

theorem inLoop_opened (h : P.Fixes D fixed slot) : P.inLoop.opened.Fixes D fixed slot := by
  refine ⟨h.fine.inLoop_opened, h.below, fun u hu => (h.fixed u hu).imp_right ?_⟩
  rintro ⟨b, hb, he, hl, hd⟩
  exact ⟨b, hb, he, hl.trans (Nat.lt_succ_self _), hd⟩

theorem beside (h : P.Fixes D fixed slot) (hQ : P.Beside Q) (hs : P.slots ≤ Q.slots) :
    Q.Fixes D fixed slot := by
  refine ⟨hQ.fine, h.below.trans_le hs, fun u hu => (h.fixed u hu).imp_right ?_⟩
  rintro ⟨b, hb, he, hl, hd⟩
  exact ⟨b, hQ.scopes ▸ hb, he, hQ.loops ▸ hl, hd⟩

theorem withFreed (h : P.Fixes D fixed slot) (m : Freed) : (P.withFreed m).Fixes D fixed slot :=
  ⟨h.fine.of_same rfl le_rfl rfl, h.below, h.fixed⟩

theorem block (h : P.Fixes D fixed slot) (body : List TStmt) :
    (P.opened.stmts body).closed.Fixes D fixed slot :=
  h.beside (Point.beside_block h.fine body) (Point.extends_stmts h.fine.opened body).slots

end Point.Fixes

theorem preserved_assigned {F : InitFacts} (h : P.Fixes D fixed slot) (target : AssignTarget)
    (hw : P.Writes D F target) : Preserved fixed slot F (P.assigned F target) := by
  obtain ⟨b, d, hr, hd, hw⟩ := hw
  rw [Point.assigned, hr]
  split
  · rename_i c hpath hc
    cases hc
    rw [if_pos hpath] at hw
    by_cases he : slot = b.slot
    · intro u hu
      refine ⟨.init, by rw [List.lookup_cons, he, beq_self_eq_true], fun hf => ?_⟩
      rcases h.fixed u hf with rfl | ⟨c, hc, hslot, hlt, e, hD, hm⟩
      · rfl
      · -- the binding is immutable and comes from outside of the loop
        obtain rfl := h.fine.slot_inj hc (Point.mem_of_resolve? hr) (hslot.trans he)
        rw [← hslot, hd] at hD
        cases hD
        rcases hw with hw | ⟨-, hdepth⟩
        · exact absurd (hm.symm.trans hw) (by decide)
        · omega
    · exact preserved_cons he
  · exact .refl _ _ _

variable {ids : Ids} {frees : List (String × Option Span)}

mutual

theorem preserved_stmt {P : Point} {F : InitFacts} (hP : P.Fixes D fixed slot) : (s : TStmt) →
    s.Grounded ids frees P D F → Preserved fixed slot F (s.facts P F)
  | .declare _ _ _ _ _, _ => preserved_cons hP.below.ne
  | .assign target _ _, h => preserved_assigned hP target h.2
  | .branch _ thenBlock elifs elseBlock _, ⟨_, ht, hm, hl⟩ => by
    have hthen := hP.block thenBlock
    have hmiddle := Point.beside_elifBranches hthen.fine P.freed elifs
    have hslots := (Point.branches_elifBranches P.freed hthen.fine elifs).slots
    have helse := preserved_else ((hthen.beside hmiddle hslots).withFreed P.freed) elseBlock hl
    refine preserved_meet (List.forall_mem_append.2 ⟨List.forall_mem_append.2 ⟨?_, ?_⟩, ?_⟩) helse
    · exact preserved_pathFacts (preserved_stmts hP.opened thenBlock ht)
    · exact preserved_elifs P.freed hthen elifs hm
    · exact preserved_pathFacts helse
  | .loop _ body _, h =>
    (Preserved.refl fixed slot F).join (preserved_stmts hP.inLoop_opened body h.2)
  | .block body _, h => preserved_stmts hP.opened body h
  | .ret _ _, _ | .breakLoop _, _ | .continueLoop _, _ | .free _ _, _ | .collect _, _
  | .yieldNow _, _ | .eval _ _, _ => .refl _ _ _

theorem preserved_stmts {P : Point} {F : InitFacts} (hP : P.Fixes D fixed slot) :
    (ss : List TStmt) →
    StmtsGrounded ids frees P D F ss → Preserved fixed slot F (stmtsFacts P F ss)
  | [], _ => .refl _ _ _
  | s :: rest, h =>
    (preserved_stmt hP s h.1).trans
      (preserved_stmts (hP.extend (Point.extends_stmt hP.fine rest s)) rest h.2)

theorem preserved_elifs {P : Point} {F : InitFacts} (before : Freed) (hP : P.Fixes D fixed slot) :
    (elifs : List (TExpr × List TStmt)) → ElifsGrounded ids frees before P D F elifs →
    ∀ G ∈ elifsFacts before P F elifs, Preserved fixed slot F G
  | [], _ => fun _ hG => by cases hG
  | (_, body) :: rest, ⟨_, hb, hr⟩ => by
    have hin := hP.withFreed before
    refine List.forall_mem_append.2 ⟨preserved_pathFacts (preserved_stmts hin.opened body hb), ?_⟩
    exact preserved_elifs before (hin.block body) rest hr

theorem preserved_else {P : Point} {F : InitFacts} (hP : P.Fixes D fixed slot) :
    (elseBlock : Option (List TStmt)) → ElseGrounded ids frees P D F elseBlock →
    Preserved fixed slot F (elseFacts P F elseBlock)
  | none, _ => .refl _ _ _
  | some body, h => preserved_stmts hP.opened body h

end

/-! ## Bindings in scope -/

/-- Something is known of each binding in scope. -/
def Point.Knows (P : Point) (F : InitFacts) : Prop :=
  ∀ b ∈ P.scopes.flatten, (F.lookup b.slot).isSome

variable {F G : InitFacts}

theorem Point.Knows.of_scopes (h : P.Knows F) (hs : Q.scopes = P.scopes) : Q.Knows F := by
  intro b hb
  rw [hs] at hb
  exact h b hb

theorem Point.Knows.kept (h : P.Knows F) {b : Binding} (hb : b ∈ P.scopes.flatten)
    (hp : Preserved fixed b.slot F G) : (G.lookup b.slot).isSome := by
  obtain ⟨u, hu⟩ := Option.isSome_iff_exists.1 (h b hb)
  obtain ⟨v, hv, -⟩ := hp u hu
  rw [hv]
  rfl

theorem Point.flatten_declare (hP : P.scopes ≠ []) (name : String) (span : Option Span) :
    (P.declare name span).scopes.flatten = ⟨name, P.slots, span, P.loops⟩ :: P.scopes.flatten := by
  obtain ⟨scope, outer, hs⟩ := List.exists_cons_of_ne_nil hP
  simp [Point.declare, hs]

end

end ScopedScript
