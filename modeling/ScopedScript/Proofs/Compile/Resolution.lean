import ScopedScript.Proofs.Compile.Releases
import ScopedScript.Proofs.Typing.Checked

/-!
# Checked programs resolve

The compiler resolves names at the same points as the checker does, so it reports no error that only
a program with names out of order has. What it does report of a checked program is a use of a
binding that a `free` statement has released.
-/

namespace ScopedScript

/-- The error is about the binding and a `free` of it at `span`. -/
def CompileError.Concerns (e : CompileError) (b : Binding) (span : Option Span) : Prop :=
  e.cause = .useAfterFree b.name b.declaredAt span ∨
    (e.cause = .freeInLoop b.name b.declaredAt ∧ e.span = span)

/-- The bindings that are named by the `free` statements of the body, with the places of these. -/
def Body.releases (b : Body) : List (Binding × Option Span) := stmtsReleases (.start b) b.stmts

namespace Emit

section

variable (X : Binding → Option Span → Prop)

/-- From the point `P` on nothing is reported but errors about the releases that `X` tells. `T`
holds of the value and the point after it. -/
def Resolves (x : Emit α) (P : Point) (T : α → Point → Prop) : Prop :=
  ∀ e : Emitter, e.fn.point = P → T (x e).1 (x e).2.fn.point ∧
    ∀ err ∈ (x e).2.errors, err ∈ e.errors ∨ ∃ b span, X b span ∧ err.Concerns b span

/-- As `Resolves`, to the point `Q`. -/
abbrev Leads (x : Emit α) (P Q : Point) : Prop := Resolves X x P fun _ Q' => Q' = Q

end

variable {X : Binding → Option Span → Prop} {P Q R : Point} {T : α → Point → Prop}
  {S : β → Point → Prop}

theorem Resolves.weaken {x : Emit α} {T' : α → Point → Prop} (h : Resolves X x P T)
    (hT : ∀ a Q, T a Q → T' a Q) : Resolves X x P T' := fun e he =>
  ⟨hT _ _ (h e he).1, (h e he).2⟩

theorem Resolves.pure {a : α} (h : T a P) : Resolves X (Pure.pure a) P T := fun _ he =>
  ⟨he ▸ h, fun _ hm => .inl hm⟩

theorem Resolves.bind {x : Emit α} {y : α → Emit β} (hx : Resolves X x P T)
    (hy : ∀ a Q, T a Q → Resolves X (y a) Q S) : Resolves X (x >>= y) P S := by
  intro e he
  obtain ⟨hT, hex⟩ := hx e he
  obtain ⟨hS, hey⟩ := hy _ _ hT (x e).2 rfl
  exact ⟨hS, fun err herr => (hey err herr).elim (hex err) .inr⟩

theorem Leads.pure (a : α) : Leads X (Pure.pure a) P P := Resolves.pure rfl

theorem Leads.bind {x : Emit α} {y : α → Emit β} (hx : Leads X x P Q)
    (hy : ∀ a, Resolves X (y a) Q S) : Resolves X (x >>= y) P S :=
  Resolves.bind hx fun a _ hQ => hQ ▸ hy a

/-- A reader of the state, with what it reads at the point. -/
theorem Resolves.read {x : Emit α} {y : α → Emit β} {a : α}
    (hx : Resolves X x P fun b Q => b = a ∧ Q = P)
    (hy : Resolves X (y a) P S) : Resolves X (x >>= y) P S :=
  hx.bind fun _ _ ⟨ha, hQ⟩ => ha ▸ hQ ▸ hy

theorem leads_report {cause : CompileCause} {span span' : Option Span} {b : Binding}
    (hX : X b span') (h : (CompileError.mk cause span).Concerns b span') :
    Leads X (report cause span) P P := fun e he =>
  ⟨he, fun err herr => by
    rcases Array.mem_push.1 herr with herr | rfl
    · exact .inl herr
    · exact .inr ⟨b, span', hX, h⟩⟩

theorem leads_modifyFn {g : FnState → FnState} (h : ∀ f, f.point = P → (g f).point = Q) :
    Leads X (modifyFn g) P Q := fun e he => ⟨h e.fn he, fun _ hm => .inl hm⟩

theorem leads_setFreed (m : Freed) : Leads X (setFreed m) P (P.withFreed m) :=
  leads_modifyFn fun f hf => by subst hf; rfl

theorem leads_internConstant (c : Constant) : Leads X (internConstant c) P P := by
  intro e he
  rw [internConstant, modifyGet_apply]
  split
  · exact ⟨he, fun _ hm => .inl hm⟩
  · exact ⟨he, fun _ hm => .inl hm⟩

theorem leads_constant (c : Constant) (span : Option Span) : Leads X (constant c span) P P :=
  (leads_internConstant c).bind fun _ => Leads.pure _

theorem leads_nativeId (name : String) : Leads X (nativeId name) P P := by
  intro e he
  rw [nativeId, modifyGet_apply]
  split
  · exact ⟨he, fun _ hm => .inl hm⟩
  · exact ⟨he, fun _ hm => .inl hm⟩

theorem leads_declareBinding (name : String) (span : Option Span) :
    Leads X (declareBinding name span) P (P.declare name span) := by
  intro e he
  subst he
  refine ⟨?_, fun _ hm => .inl hm⟩
  have hp : (declareBinding name span e).2.fn.point =
      { e.fn.point.declare name span with slots := (e.fn.slotNames.push name).size } := rfl
  rw [hp, Array.size_push]
  rfl

theorem leads_declareParams (params : List TParam) (P : Point) :
    Leads X (declareParams params) P (P.withParams params) := by
  induction params generalizing P with
  | nil => exact Leads.pure ()
  | cons p rest ih =>
    have hp : Leads X (declareBinding p.name p.span >>= fun _ => Pure.pure ()) P
        (P.declare p.name p.span) :=
      (leads_declareBinding p.name p.span).bind fun _ => Leads.pure ()
    exact hp.bind fun _ => ih _

theorem resolves_resolve? (name : String) :
    Resolves X (resolve? name) P fun r Q => r = P.resolve? name ∧ Q = P :=
  fun _ he => ⟨⟨he ▸ rfl, he⟩, fun _ hm => .inl hm⟩

theorem resolves_freed : Resolves X freed P fun m Q => m = P.freed ∧ Q = P :=
  fun _ he => ⟨⟨he ▸ rfl, he⟩, fun _ hm => .inl hm⟩

theorem resolves_get : Resolves X get P fun e Q => e.fn.point = P ∧ Q = P :=
  fun _ he => ⟨⟨he, he⟩, fun _ hm => .inl hm⟩

/-- A binding passes when it may be used; otherwise it was freed as `X` tells. -/
theorem resolves_checkLive {b : Binding} (h : ∀ span, P.freed.lookup b.slot = some span → X b span)
    (span : Option Span) :
    Resolves X (checkLive b span) P fun live Q => live = decide (P.Usable b) ∧ Q = P := by
  refine .read resolves_freed ?_
  split
  · rename_i freedAt hl
    refine Leads.bind (leads_report (h freedAt hl) (.inl rfl)) fun _ => .pure ⟨?_, rfl⟩
    exact (decide_eq_false fun hu : P.Usable b => by rw [Point.Usable, hl] at hu; cases hu).symm
  · rename_i hl
    exact .pure ⟨(decide_eq_true (p := P.Usable b) hl).symm, rfl⟩

variable {name : String} {span : Option Span}

theorem leads_load (hr : P.resolve? name ≠ none) (hc : P.Clear X name) :
    Leads X (load name span) P P := by
  refine .read (resolves_resolve? name) ?_
  split
  · rename_i b hb
    exact (resolves_checkLive (fun s => hc b s hb) span).bind fun _ _ h => h.2 ▸ Leads.pure _
  · exact Leads.pure _
  · rename_i hn
    exact absurd hn hr

theorem leads_loads (names : List String)
    (h : ∀ name ∈ names, P.resolve? name ≠ none ∧ P.Clear X name) :
    Leads X (loads span names) P P := by
  induction names with
  | nil => exact Leads.pure _
  | cons name rest ih =>
    obtain ⟨⟨hr, hc⟩, hrest⟩ := List.forall_mem_cons.1 h
    exact (leads_load hr hc).bind fun _ => (ih hrest).bind fun _ => Leads.pure _

theorem leads_movedSlot? (value : TExpr) (h : ∀ u ∈ exprUses [] value, P.Clear X u.name) :
    Leads X (movedSlot? value) P P := by
  obtain ⟨kind, ty, span⟩ := value
  cases kind with
  | binding name =>
    refine .read (resolves_resolve? name) ?_
    split
    · rename_i b hb
      have hc : P.Clear X name := h ⟨name, false⟩ List.mem_cons_self
      exact (resolves_checkLive (fun s => hc b s hb) span).bind fun _ _ h => h.2 ▸ Leads.pure _
    · exact Leads.pure _
  | _ => exact Leads.pure none

theorem leads_free {b : Binding} (hb : P.resolve? name = some (.slot b)) (hc : P.Clear X name)
    (hX : X b span) : Leads X (free name span) P (P.free name span) := by
  have hfree : P.free name span =
      if P.Usable b ∧ P.loops ≤ b.loopDepth then P.withFreed ((b.slot, span) :: P.freed)
      else P := by
    rw [Point.free, hb]
  rw [hfree]
  refine .read (resolves_resolve? name) ?_
  rw [hb]
  refine Resolves.read (resolves_checkLive (fun s => hc b s hb) span) ?_
  by_cases hu : P.Usable b
  · rw [decide_eq_true hu]
    refine Resolves.bind resolves_get fun e Q hrun => ?_
    obtain ⟨he, rfl⟩ := hrun
    have hloops : e.fn.loops.length = Q.loops := congrArg Point.loops he
    rw [hloops]
    by_cases hlt : b.loopDepth < Q.loops
    · have hname := Point.name_of_resolve? hb
      rw [if_pos hlt, if_neg fun h => Nat.not_le.2 hlt h.2]
      exact Leads.bind (leads_report hX (.inr ⟨by rw [hname], rfl⟩)) fun _ => Leads.pure _
    · rw [if_neg hlt, if_pos ⟨hu, Nat.not_lt.1 hlt⟩]
      exact Leads.bind (leads_modifyFn fun f hf => by subst hf; rfl) fun _ => Leads.pure _
  · rw [decide_eq_false hu, if_neg (c := P.Usable b ∧ P.loops ≤ b.loopDepth) fun h => hu h.1]
    exact Leads.pure _

theorem leads_store {target : AssignTarget} {b : Binding}
    (hb : P.resolve? target.name = some (.slot b))
    (hc : P.Clear X target.name) : Leads X (store target span) P P := by
  refine .read (resolves_resolve? target.name) ?_
  rw [hb]
  refine Resolves.read (resolves_checkLive (fun s => hc b s hb) target.span) ?_
  split
  · exact Leads.pure _
  · split <;> exact Leads.pure _

theorem leads_collect (rest : List TStmt) (span : Option Span) :
    Leads X (collect rest span) P (P.collect rest span) := by
  refine Resolves.bind resolves_get fun e Q ⟨he, hQ⟩ => ?_
  subst hQ he
  have hset :
      Leads X (setFreed (((e.fn.point.dead rest).map fun b => (b.slot, span)) ++ e.fn.point.freed))
      e.fn.point (e.fn.point.collect rest span) :=
    leads_modifyFn fun f hf => by
      rw [Point.collect, ← hf]
      rfl
  exact hset.bind fun _ => Leads.pure _

theorem Leads.inScope {x : Emit (List Line)} (hx : Leads X x P.opened Q) (span : Option Span) :
    Leads X (inScope span x) P Q.closed := by
  have hopen : Leads X openScope P P.opened := leads_modifyFn fun f hf => by subst hf; rfl
  have hclose : Leads X closeScope Q Q.closed := leads_modifyFn fun f hf => by subst hf; rfl
  exact hopen.bind fun _ => Leads.bind hx fun _ => hclose.bind fun _ => Leads.pure _

theorem Leads.inLoop {x : Emit (List Line)} (start : Nat) (hx : Leads X x P.inLoop Q) :
    Leads X (inLoop start x) P Q.outOfLoop := by
  have henter : Leads X (modifyFn fun f => { f with loops := ⟨start, f.scopes.length⟩ :: f.loops })
      P P.inLoop :=
    leads_modifyFn fun f hf => by subst hf; rfl
  have hleave : Leads X (modifyFn fun f => { f with loops := f.loops.tail }) Q Q.outOfLoop :=
    leads_modifyFn fun f hf => by
      subst hf
      simp only [FnState.point, Point.outOfLoop, List.length_tail]
  exact henter.bind fun _ => Leads.bind hx fun _ => hleave.bind fun _ => Leads.pure _

theorem leads_exitLoopScopes (span : Option Span) : Leads X (exitLoopScopes span) P P := by
  refine Resolves.bind resolves_get fun e Q ⟨_, hQ⟩ => ?_
  subst hQ
  dsimp only
  split <;> exact Leads.pure _

theorem leads_jumpToStart (span : Option Span) : Leads X (jumpToStart span) P P := by
  refine Resolves.bind resolves_get fun e Q ⟨_, hQ⟩ => ?_
  subst hQ
  split <;> exact Leads.pure _

theorem leads_finish (ids : Ids) (params : List TParam) (body : List Line) (isAsync : Bool)
    (span : Option Span) : Leads X (finish ids params body isAsync span) P P :=
  (leads_constant .null span).bind fun _ => Resolves.bind resolves_get fun _ _ h =>
    h.2 ▸ Leads.pure _

/-- A function between entering and leaving it, where one is back at the point before. -/
theorem leads_lambda {captures : List String} {x : Emit FunctionCode} {k : Nat → Emit β}
    (hx : Leads X x ⟨captures, [[]], [], 0, 0⟩ Q) (hk : ∀ id, Leads X (k id) P R) :
    Leads X (enterLambda captures >>= fun outer => x >>= fun code =>
      exitLambda outer code >>= k) P R := by
  have henter : Resolves X (enterLambda captures) P fun outer Q =>
      outer.point = P ∧ Q = ⟨captures, [[]], [], 0, 0⟩ := fun e he =>
    ⟨⟨he, rfl⟩, fun _ hm => .inl hm⟩
  refine henter.bind fun outer Q' ⟨ho, hQ'⟩ => ?_
  subst hQ'
  refine Leads.bind hx fun code => ?_
  have hexit : Leads X (exitLambda outer code) Q P := fun e _ => ⟨ho, fun _ hm => .inl hm⟩
  exact hexit.bind hk

/-! ## Trees -/

variable {ids : Ids} {frees : List (String × Option Span)}

/-- The releases of these bodies are told by `X`. -/
abbrev Told (X : Binding → Option Span → Prop) (bodies : List Body) : Prop :=
  ∀ b ∈ bodies, ∀ r ∈ b.releases, X r.1 r.2

theorem resolve?_of_reads {F : InitFacts} (h : P.Reads F name) : P.resolve? name ≠ none := by
  intro hn
  rw [Point.Reads, hn] at h
  exact h

theorem clear_opened (h : P.Clear X name) : P.opened.Clear X name := h

theorem clear_beside (hs : P.Beside Q) (hf : Q.freed = P.freed) (h : P.Clear X name) :
    Q.Clear X name :=
  fun b span hb hl => h b span (Point.resolve?_congr hs.scopes hs.captures name ▸ hb) (hf ▸ hl)

/-- At the start of a function nothing has been freed. -/
theorem freed_start (b : Body) : (Point.start b).freed = [] := by
  have hfreed (params : List TParam) (P : Point) : (P.withParams params).freed = P.freed := by
    induction params generalizing P with
    | nil => rfl
    | cons p rest ih => exact ih (P.declare p.name p.span)
  exact hfreed b.params ⟨b.captures, [[]], [], 0, 0⟩

theorem clear_start (b : Body) : (Point.start b).Clear X name := fun c span _ hl => by
  rw [freed_start] at hl
  cases hl

theorem tidy_start (b : Body) : (Point.start b).Tidy := fun slot span hl => by
  rw [freed_start] at hl
  cases hl

mutual

theorem leads_expr {P : Point} {F : InitFacts} (hP : P.Fine) (start : Nat) :
    (e : TExpr) → e.Grounded ids frees P F →
    (∀ u ∈ exprUses [] e, P.Clear X u.name) → Told X (exprBodies e) → Leads X (expr ids start e) P P
  | .mk kind ty span, hG, hu, hB => leads_kind hP start ty span kind hG hu hB

theorem leads_kind {P : Point} {F : InitFacts} (hP : P.Fine) (start : Nat) (ty : Ty)
    (span : Option Span) : (k : TKind) →
    k.Grounded ids frees P F ty → (∀ u ∈ kindUses [] k, P.Clear X u.name) →
    Told X (kindBodies span k) → Leads X (kindCode ids start ty span k) P P
  | .int _, _, _, _ | .float _, _, _, _ | .bool _, _, _, _ | .string _, _, _, _ | .null, _, _, _ =>
    leads_constant _ span
  | .binding name, hG, hu, _ =>
    leads_load (resolve?_of_reads hG) (hu ⟨name, false⟩ List.mem_cons_self)
  | .function name, hG, _, _ => by
    obtain ⟨id, hid⟩ := Option.isSome_iff_exists.1 hG
    rw [kindCode, hid]
    exact Leads.pure _
  | .native name, _, _, _ => (leads_nativeId name).bind fun _ => Leads.pure _
  | .binary _ left right, hG, hu, hB => by
    rw [kindUses, List.forall_mem_append] at hu
    rw [kindBodies, Told, List.forall_mem_append] at hB
    refine (leads_expr hP start left hG.1 hu.1 hB.1).bind fun _ => ?_
    exact (leads_expr hP _ right hG.2 hu.2 hB.2).bind fun _ => Leads.pure _
  | .unary _ operand, hG, hu, hB => (leads_expr hP start operand hG hu hB).bind fun _ =>
    Leads.pure _
  | .logical _ left right, hG, hu, hB => by
    rw [kindUses, List.forall_mem_append] at hu
    rw [kindBodies, Told, List.forall_mem_append] at hB
    refine (leads_expr hP start left hG.1 hu.1 hB.1).bind fun _ => ?_
    exact (leads_expr hP _ right hG.2 hu.2 hB.2).bind fun _ => Leads.pure _
  | .call (.function name) args, hG, hu, hB => by
    obtain ⟨id, hid⟩ := Option.isSome_iff_exists.1 hG.1
    simp only [kindCode, hid]
    exact (leads_exprs hP start args hG.2 hu hB).bind fun _ => Leads.pure _
  | .call (.method struct method) args, hG, hu, hB => by
    obtain ⟨id, hid⟩ := Option.isSome_iff_exists.1 hG.1
    simp only [kindCode, hid]
    exact (leads_exprs hP start args hG.2 hu hB).bind fun _ => Leads.pure _
  | .call (.native name) args, hG, hu, hB => by
    refine (leads_nativeId name).bind fun _ => ?_
    exact (leads_exprs hP start args hG.2 hu hB).bind fun _ => Leads.pure _
  | .callValue callee args, hG, hu, hB | .callDynamic callee args, hG, hu, hB => by
    rw [kindUses, List.forall_mem_append] at hu
    rw [kindBodies, Told, List.forall_mem_append] at hB
    refine (leads_expr hP start callee hG.1 hu.1 hB.1).bind fun _ => ?_
    exact (leads_exprs hP _ args hG.2 hu.2 hB.2).bind fun _ => Leads.pure _
  | .callMethodDynamic _ args, hG, hu, hB => (leads_exprs hP start args hG hu hB).bind fun _ =>
    Leads.pure _
  | .field object _ index, hG, hu, hB => by
    refine (leads_expr hP start object hG hu hB).bind fun _ => ?_
    cases index <;> exact Leads.pure _
  | .structInit name values, hG, hu, hB => by
    obtain ⟨id, hid⟩ := Option.isSome_iff_exists.1 hG.1
    rw [kindCode, hid]
    exact (leads_exprs hP start values hG.2 hu hB).bind fun _ => Leads.pure _
  | .lambda params ret body captures, hG, hu, hB => by
    let b : Body := ⟨params, ret, body, captures, false, span⟩
    rw [kindBodies, Told, List.forall_mem_append] at hB
    have hbody := leads_stmts (Point.fine_start b) (tidy_start b) 0 body hG.2
      (fun _ _ => clear_start b) (hB.2 b (List.mem_singleton.2 rfl)) hB.1
    have hfunction : Leads X (do
        declareParams params
        let inner ← stmts ids 0 body
        finish ids params inner false span) ⟨captures, [[]], [], 0, 0⟩
            ((Point.start b).stmts body) :=
      (leads_declareParams params _).bind fun _ => hbody.bind fun _ =>
        leads_finish ids params _ false span
    have hloads : Leads X (loads span captures) P P := leads_loads captures fun name hn =>
      ⟨resolve?_of_reads (hG.1 name hn),
        hu ⟨name, true⟩ (List.mem_flatMap.2 ⟨name, hn, List.mem_cons_self⟩)⟩
    exact leads_lambda (k := fun id => loads span captures >>= fun code =>
      Pure.pure (code ++ [.of (.makeClosure id captures.length) span])) hfunction
        fun _ => hloads.bind fun _ => Leads.pure _
  | .spawn name args, hG, hu, hB => by
    obtain ⟨id, hid⟩ := Option.isSome_iff_exists.1 hG.1
    rw [kindCode, hid]
    exact (leads_exprs hP start args hG.2 hu hB).bind fun _ => Leads.pure _
  | .await task, hG, hu, hB => (leads_expr hP start task hG hu hB).bind fun _ => Leads.pure _
  | .box inner, hG, hu, hB => (leads_expr hP start inner hG hu hB).bind fun _ => Leads.pure _
  | .unbox inner, hG, hu, hB => (leads_expr hP start inner hG hu hB).bind fun _ => Leads.pure _
  | .cast inner, hG, hu, hB => by
    obtain ⟨target, ht⟩ := Option.isSome_iff_exists.1 hG.1
    rw [kindCode, ht]
    exact (leads_expr hP start inner hG.2 hu hB).bind fun _ => Leads.pure _
  | .format parts, hG, hu, hB => (leads_exprs hP start parts hG hu hB).bind fun _ => Leads.pure _

theorem leads_exprs {P : Point} {F : InitFacts} (hP : P.Fine) (start : Nat) :
    (es : List TExpr) → ExprsGrounded ids frees P F es →
    (∀ u ∈ exprsUses [] es, P.Clear X u.name) → Told X (exprsBodies es) →
    Leads X (exprs ids start es) P P
  | [], _, _, _ => Leads.pure _
  | e :: rest, hG, hu, hB => by
    rw [exprsUses, List.forall_mem_append] at hu
    rw [exprsBodies, Told, List.forall_mem_append] at hB
    refine (leads_expr hP start e hG.1 hu.1 hB.1).bind fun _ => ?_
    exact (leads_exprs hP _ rest hG.2 hu.2 hB.2).bind fun _ => Leads.pure _

theorem leads_stmt {P : Point} {F : InitFacts} {D : List Declaration} (hP : P.Fine) (ht : P.Tidy)
    (start : Nat) (rest : List TStmt) : (s : TStmt) → s.Grounded ids frees P D F →
    (∀ u ∈ stmtUses [] s, P.Clear X u.name) →
    (∀ r ∈ s.releases P, X r.1 r.2) → Told X (stmtBodies s) →
    Leads X (stmt ids start rest s) P (P.stmt rest s)
  | .declare name _ ty none span, _, _, _, _ =>
    (leads_constant .null span).bind fun _ => (leads_declareBinding name span).bind fun _ =>
      Leads.pure _
  | .declare name _ _ (some value) span, hG, hu, _, hB =>
    (leads_expr hP start value hG hu hB).bind fun _ =>
      (leads_declareBinding name span).bind fun _ =>
      Leads.pure _
  | .assign target value span, hG, hu, _, hB => by
    rw [stmtUses, List.forall_mem_append] at hu
    obtain ⟨b, d, hb, -⟩ := hG.2
    refine (leads_expr hP start value hG.1 hu.1 hB).bind fun _ => ?_
    exact (leads_store hb (hu.2 ⟨target.name, false⟩ List.mem_cons_self)).bind fun _ => Leads.pure _
  | .branch condition thenBlock elifs elseBlock span, hG, hu, hX, hB => by
    obtain ⟨hGc, hGt, hGm, hGl⟩ := hG
    simp only [stmtUses, List.forall_mem_append] at hu
    simp only [TStmt.releases, List.forall_mem_append] at hX
    simp only [stmtBodies, Told, List.forall_mem_append] at hB
    obtain ⟨⟨⟨huc, hut⟩, hum⟩, hul⟩ := hu
    have hthen := Point.beside_block hP thenBlock
    have hextends := Point.extends_stmts hP.opened thenBlock
    have hmiddle := Point.branches_elifBranches P.freed hthen.fine elifs
    have hlast : P.Beside (_ : Point) :=
      hthen.trans ((Point.beside_elifBranches hthen.fine P.freed elifs).withFreed P.freed)
    have htm : ((P.opened.stmts thenBlock).closed.withFreed P.freed).Tidy := fun slot s hl =>
      (ht slot s hl).trans_le hextends.slots
    have htl : ((Point.elifBranches P.freed (P.opened.stmts thenBlock).closed
        elifs).1.withFreed P.freed).Tidy :=
      fun slot s hl => ((ht slot s hl).trans_le hextends.slots).trans_le hmiddle.slots
    have hc := leads_expr hP start condition hGc huc hB.1.1.1
    have hbody (start : Nat) := (leads_stmts hP.opened ht start thenBlock hGt
      (fun u hm => clear_opened (hut u hm)) hX.1.1 hB.1.1.2).inScope span
    have helifs (start : Nat) := resolves_elifBranches P.freed hthen.fine htm start span elifs hGm
      (fun u hm => clear_beside (hthen.withFreed P.freed) rfl (hum u hm)) hX.1.2 hB.1.2
    have helse (start : Nat) := leads_elseBranch hlast.fine htl start span elseBlock hGl
      (fun u hm => clear_beside hlast rfl (hul u hm)) hX.2 hB.2
    refine .read resolves_freed (hc.bind fun c => (hbody _).bind fun body =>
      .read resolves_freed ?_)
    refine (helifs _).bind fun r Q ⟨hr, hQ⟩ => ?_
    subst hQ
    refine (leads_setFreed P.freed).bind fun _ => (helse _).bind fun last => .read resolves_freed ?_
    rw [hr]
    exact (leads_setFreed _).bind fun _ => Leads.pure _
  | .loop condition body span, hG, hu, hX, hB => by
    rw [stmtUses, List.forall_mem_append] at hu
    rw [stmtBodies, Told, List.forall_mem_append] at hB
    have hbody (start : Nat) := leads_stmts hP.inLoop_opened ht start body hG.2
      (fun u hm => clear_opened (hu.2 u hm)) hX hB.2
    refine (leads_expr hP start condition hG.1 hu.1 hB.1).bind fun c => ?_
    exact ((Leads.inScope (P := P.inLoop) (hbody _) span).inLoop start).bind fun _ => Leads.pure _
  | .block body span, hG, hu, hX, hB =>
    (leads_stmts hP.opened ht (start + 1) body hG
      (fun u hm => clear_opened (hu u hm)) hX hB).inScope span
  | .ret none span, _, _, _, _ => (leads_constant .null span).bind fun _ => Leads.pure _
  | .ret (some value) span, hG, hu, _, hB => by
    rw [stmtUses, List.forall_mem_append] at hu
    refine (leads_movedSlot? value hu.2).bind fun moved => ?_
    cases moved with
    | some slot => exact Leads.pure _
    | none => exact (leads_expr hP start value hG hu.2 hB).bind fun _ => Leads.pure _
  | .breakLoop span, _, _, _, _ => (leads_exitLoopScopes span).bind fun _ => Leads.pure _
  | .continueLoop span, _, _, _, _ =>
    (leads_exitLoopScopes span).bind fun _ => (leads_jumpToStart span).bind fun _ => Leads.pure _
  | .free name span, hG, hu, hX, _ => by
    obtain ⟨⟨b, hb⟩, -⟩ := hG
    rw [TStmt.releases, hb] at hX
    exact leads_free hb (hu ⟨name, false⟩ List.mem_cons_self) (hX _ List.mem_cons_self)
  | .collect span, _, _, _, _ => leads_collect rest span
  | .yieldNow span, _, _, _, _ => Leads.pure _
  | .eval value span, hG, hu, _, hB => (leads_expr hP start value hG hu hB).bind fun _ =>
    Leads.pure _

theorem leads_stmts {P : Point} {F : InitFacts} {D : List Declaration} (hP : P.Fine) (ht : P.Tidy)
    (start : Nat) :
    (ss : List TStmt) → StmtsGrounded ids frees P D F ss →
    (∀ u ∈ blockUses [] ss, P.Clear X u.name) →
    (∀ r ∈ stmtsReleases P ss, X r.1 r.2) → Told X (stmtsBodies ss) →
    Leads X (stmts ids start ss) P (P.stmts ss)
  | [], _, _, _, _ => Leads.pure _
  | s :: rest, hG, hu, hX, hB => by
    rw [stmtsReleases, List.forall_mem_append] at hX
    rw [stmtsBodies, Told, List.forall_mem_append] at hB
    have hnext := Point.clear_stmt hP ht rest s hX.1 hu
    have hs :=
      leads_stmt hP ht start rest s hG.1 (fun u hm => hu u (List.mem_append_left _ hm)) hX.1 hB.1
    have hrest (start : Nat) := leads_stmts (hP.extend (Point.extends_stmt hP rest s))
      (Point.tidy_stmt hP ht rest s) start rest hG.2 hnext hX.2 hB.2
    exact hs.bind fun code => (hrest _).bind fun _ => Leads.pure _

/-- The value tells what is freed at the end of any branch. -/
theorem resolves_elifBranches {P : Point} {F : InitFacts} {D : List Declaration} (before : Freed)
    (hP : P.Fine) (ht : (P.withFreed before).Tidy) (start : Nat) (span : Option Span) :
    (elifs : List (TExpr × List TStmt)) →
    ElifsGrounded ids frees before P D F elifs →
    (∀ u ∈ elifsUses [] elifs, (P.withFreed before).Clear X u.name) →
    (∀ r ∈ elifsReleases before P elifs, X r.1 r.2) → Told X (elifsBodies elifs) →
    Resolves X (elifBranches ids start before span elifs) P fun r Q =>
      r.2 = (P.elifBranches before elifs).2 ∧ Q = (P.elifBranches before elifs).1
  | [], _, _, _, _ => .pure ⟨rfl, rfl⟩
  | (condition, body) :: rest, hG, hu, hX, hB => by
    obtain ⟨hGc, hGb, hGr⟩ := hG
    simp only [elifsUses, List.forall_mem_append] at hu
    rw [elifsReleases, List.forall_mem_append] at hX
    simp only [elifsBodies, Told, List.forall_mem_append] at hB
    have hb : (P.withFreed before).Fine := hP.of_same rfl le_rfl rfl
    have hbody := Point.beside_block hb body
    have hextends := Point.extends_stmts hb.opened body
    have htr : (((P.withFreed before).opened.stmts body).closed.withFreed before).Tidy :=
      fun slot s hl =>
      (ht slot s hl).trans_le hextends.slots
    have hc := leads_expr hb start condition hGc hu.1.1 hB.1.1
    have hblock (start : Nat) := (leads_stmts hb.opened ht start body hGb
      (fun u hm => clear_opened (hu.1.2 u hm)) hX.1 hB.1.2).inScope span
    have hrest (start : Nat) := resolves_elifBranches before hbody.fine htr start span rest hGr
      (fun u hm => clear_beside (hbody.withFreed before) rfl (hu.2 u hm)) hX.2 hB.2
    refine (leads_setFreed before).bind fun _ => hc.bind fun c => (hblock _).bind fun code =>
      .read resolves_freed ?_
    refine (hrest _).bind fun r Q ⟨hr, hQ⟩ => .pure ⟨?_, hQ⟩
    exact congrArg (Freed.merge _) hr

theorem leads_elseBranch {P : Point} {F : InitFacts} {D : List Declaration} (hP : P.Fine)
    (ht : P.Tidy) (start : Nat) (span : Option Span) : (elseBlock : Option (List TStmt)) →
    ElseGrounded ids frees P D F elseBlock →
    (∀ u ∈ elseUses [] elseBlock, P.Clear X u.name) → (∀ r ∈ elseReleases P elseBlock, X r.1 r.2) →
    Told X (elseBodies elseBlock) →
    Leads X (elseBranch ids start span elseBlock) P (P.elseBranch elseBlock)
  | none, _, _, _, _ => Leads.pure _
  | some body, hG, hu, hX, hB =>
    (leads_stmts hP.opened ht (start + 1) body hG
      (fun u hm => clear_opened (hu u hm)) hX hB).inScope span

end

/-- A function of the program, from whatever was compiled before it. -/
theorem resolves_function {X : Binding → Option Span → Prop} {P : Point} (f : TFunction)
    (hG : f.toBody.Grounded ids frees) (hB : Told X (f.toBody :: stmtsBodies f.body)) :
    Resolves X (function ids f) P fun _ _ => True := by
  have hstart : Leads X (modify fun e => { e with fn := .start f.name [] }) P
      ⟨[], [[]], [], 0, 0⟩ :=
    fun _ _ => ⟨rfl, fun _ hm => .inl hm⟩
  have hbody := leads_stmts (Point.fine_start f.toBody) (tidy_start f.toBody) 0 f.body hG
    (fun _ _ => clear_start f.toBody) (hB _ List.mem_cons_self) fun b hb =>
      hB b (List.mem_cons_of_mem _ hb)
  refine hstart.bind fun _ => Leads.bind (leads_declareParams f.params _) fun _ =>
    Leads.bind hbody fun body =>
    Leads.bind (leads_finish ids f.params body f.isAsync f.span) fun code => ?_
  split
  · exact fun _ _ => ⟨trivial, fun _ hm => .inl hm⟩
  · exact .pure trivial

theorem resolves_functions {X : Binding → Option Span → Prop} {P : Point} (fs : List TFunction)
    (hG : ∀ f ∈ fs, f.toBody.Grounded ids frees ∧ Told X (f.toBody :: stmtsBodies f.body)) :
    Resolves X (fs.forM (function ids)) P fun _ _ => True := by
  induction fs generalizing P with
  | nil => exact .pure trivial
  | cons f rest ih =>
    obtain ⟨hf, hrest⟩ := List.forall_mem_cons.1 hG
    exact (resolves_function f hf.1 hf.2).bind fun _ _ _ => ih hrest

end Emit

/-! What is released in a tree that is in order has been named so in the program. -/

section

variable {ids : Ids} {frees : List (String × Option Span)}

mutual

theorem mem_frees_of_stmt {P : Point} {D : List Declaration} {F : InitFacts} : (s : TStmt) →
    s.Grounded ids frees P D F → ∀ r ∈ s.releases P, (r.1.name, r.2) ∈ frees
  | .free name span, ⟨⟨b, hb⟩, hf⟩, r, hr => by
    rw [TStmt.releases, hb, List.mem_singleton] at hr
    rw [hr, Point.name_of_resolve? hb]
    exact hf
  | .branch _ thenBlock elifs elseBlock _, ⟨_, ht, hm, hl⟩, r, hr => by
    simp only [TStmt.releases, List.mem_append] at hr
    rcases hr with (hr | hr) | hr
    · exact mem_frees_of_stmts thenBlock ht r hr
    · exact mem_frees_of_elifs elifs hm r hr
    · exact mem_frees_of_else elseBlock hl r hr
  | .loop _ body _, h, r, hr => mem_frees_of_stmts body h.2 r hr
  | .block body _, h, r, hr => mem_frees_of_stmts body h r hr

theorem mem_frees_of_stmts {P : Point} {D : List Declaration} {F : InitFacts} : (ss : List TStmt) →
    StmtsGrounded ids frees P D F ss → ∀ r ∈ stmtsReleases P ss, (r.1.name, r.2) ∈ frees
  | s :: rest, h, r, hr =>
    (List.mem_append.1 hr).elim (mem_frees_of_stmt s h.1 r) (mem_frees_of_stmts rest h.2 r)

theorem mem_frees_of_elifs {before : Freed} {P : Point} {D : List Declaration} {F : InitFacts} :
    (elifs : List (TExpr × List TStmt)) → ElifsGrounded ids frees before P D F elifs →
    ∀ r ∈ elifsReleases before P elifs, (r.1.name, r.2) ∈ frees
  | (_, body) :: rest, ⟨_, hb, hrest⟩, r, hr =>
    (List.mem_append.1 hr).elim (mem_frees_of_stmts body hb r) (mem_frees_of_elifs rest hrest r)

theorem mem_frees_of_else {P : Point} {D : List Declaration} {F : InitFacts} :
    (elseBlock : Option (List TStmt)) →
    ElseGrounded ids frees P D F elseBlock → ∀ r ∈ elseReleases P elseBlock, (r.1.name, r.2) ∈ frees
  | some body, h, r, hr => mem_frees_of_stmts body h r hr

end

end

/-- The outcome of compiling tells what has been reported. -/
theorem TProgram.compile_errors {t : TProgram} {E : CompileError → Prop}
    (h : ∀ e ∈ ((t.functions.forM (Emit.function (.ofProgram t)))
      (.start t.functions.length)).2.errors, E e) :
    (∃ m, t.compile = .ok m) ∨
      ∃ errors, t.compile = .error errors ∧ errors ≠ #[] ∧ ∀ e ∈ errors, E e := by
  let e := ((t.functions.forM (Emit.function (.ofProgram t))) (.start t.functions.length)).2
  have hc : t.compile = if e.errors.isEmpty then _ else .error e.errors := rfl
  rw [hc]
  split
  · exact .inl ⟨_, rfl⟩
  · rename_i hne
    exact .inr ⟨e.errors, rfl, fun hnil => hne (Array.isEmpty_iff.2 hnil), h⟩

/-- The error is about a binding that a `free` statement of the program names, at the place of this.
-/
def TProgram.Blames (t : TProgram) (e : CompileError) : Prop :=
  ∃ body ∈ t.bodies, ∃ r ∈ body.releases, e.Concerns r.1 r.2

theorem Program.check_blames {p : Program} {natives : List (String × Signature)} {t : TProgram}
    (h : p.check natives = .ok t) : (∃ m, t.compile = .ok m) ∨
      ∃ errors, t.compile = .error errors ∧ errors ≠ #[] ∧ ∀ e ∈ errors, t.Blames e := by
  have hground := p.check_grounded h
  have hfunctions : ∀ f ∈ t.functions, f.toBody.Grounded (.ofProgram t) p.frees ∧
      Emit.Told (fun b span => ∃ body ∈ t.bodies, (b, span) ∈ body.releases)
      (f.toBody :: stmtsBodies f.body) := by
    intro f hf
    have hmem : ∀ b ∈ f.toBody :: stmtsBodies f.body, b ∈ t.bodies := fun b hb =>
      List.mem_flatMap.2 ⟨f, hf, hb⟩
    exact ⟨hground _ (hmem _ List.mem_cons_self), fun b hb r hr => ⟨b, hmem b hb, hr⟩⟩
  refine TProgram.compile_errors fun e he => ?_
  obtain ⟨b, span, ⟨body, hbody, hr⟩, hc⟩ :=
    ((Emit.resolves_functions t.functions hfunctions _ rfl).2 e he).resolve_left
      (by simp [Emitter.start])
  exact ⟨body, hbody, _, hr, hc⟩

/-- All that the compiler reports of an accepted program is about a binding that a `free` statement
of it names; so it reports no error of another kind, and a program without `free` compiles. -/
theorem Program.names_resolve_alike {p : Program} {natives : List (String × Signature)}
    {t : TProgram} (h : p.check natives = .ok t) :
    (∀ errors, t.compile = .error errors → ∀ e ∈ errors, e.cause.isInternal = false ∧
      ∃ body ∈ t.bodies, ∃ r ∈ body.releases, (r.1.name, r.2) ∈ p.frees ∧ e.Concerns r.1 r.2) ∧
    (p.frees = [] → ∃ m, t.compile = .ok m) := by
  have hreleases {e : CompileError} (he : t.Blames e) : e.cause.isInternal = false ∧
      ∃ body ∈ t.bodies, ∃ r ∈ body.releases, (r.1.name, r.2) ∈ p.frees ∧ e.Concerns r.1 r.2 := by
    obtain ⟨body, hbody, r, hr, hc⟩ := he
    refine ⟨?_, body, hbody, r, hr,
      mem_frees_of_stmts body.stmts (p.check_grounded h body hbody) r hr, hc⟩
    rcases hc with hc | hc
    · rw [hc]
      rfl
    · rw [hc.1]
      rfl
  rcases p.check_blames h with ⟨m, hm⟩ | ⟨errors, herr, hne, hall⟩
  · refine ⟨fun errors he => ?_, fun _ => ⟨m, hm⟩⟩
    rw [hm] at he
    cases he
  · refine ⟨fun errors' he e hmem => ?_, fun hnil => ?_⟩
    · rw [herr] at he
      cases he
      exact hreleases (hall e hmem)
    · obtain ⟨e, he⟩ := Array.exists_mem_of_ne_empty errors hne
      obtain ⟨-, -, -, r, -, hr, -⟩ := hreleases (hall e he)
      rw [hnil] at hr
      cases hr

/-! A program that uses a binding after it has freed it. -/

def readsFreed : Program where
  items := [.function {
    name := "main", params := [], ret := none, isAsync := false, span := none
    body := [.declare "x" false none (some (.int 7 none)) none, .free "x" (some ⟨25, 32⟩),
      .eval (.name "x" (some ⟨33, 34⟩)) none] }]
  source := none

def checkedReadsFreed : TProgram where
  structs := []
  functions := [{
    name := "main", params := [], ret := .void, isAsync := false, span := none
    body := [.declare "x" false .int (some (.mk (.int 7) .int none)) none,
      .free "x" (some ⟨25, 32⟩),
      .eval (.mk (.binding "x") .int (some ⟨33, 34⟩)) none] }]
  source := none

theorem check_readsFreed : readsFreed.check [] = .ok checkedReadsFreed := by
  cbv

theorem compile_readsFreed : checkedReadsFreed.compile =
    .error #[⟨.useAfterFree "x" none (some ⟨25, 32⟩), some ⟨33, 34⟩⟩] := by
  cbv

theorem readsFreed_resolves : ∃ body ∈ checkedReadsFreed.bodies, ∃ r ∈ body.releases,
    (r.1.name, r.2) ∈ readsFreed.frees ∧
      (CompileError.mk (.useAfterFree "x" none (some ⟨25, 32⟩)) (some ⟨33, 34⟩)).Concerns r.1 r.2 :=
  ((Program.names_resolve_alike check_readsFreed).1 _ compile_readsFreed _ (by simp)).2

end ScopedScript
