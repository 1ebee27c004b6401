import ScopedScript.Proofs.Typing.Grounding

/-!
# Checked programs are in order

The checker goes through the trees of a program from point to point. What it accepts has every name
in order: each means what the compiler takes it to mean, and has a value where it is read.
-/

namespace ScopedScript

open Check

variable {ids : Ids} {frees : List (String × Option Span)}

namespace Check

/-! ## Struct initializers -/

/-- The values that fill the slots of an initializer so far are in order. -/
abbrev SlotsGrounded (ids : Ids) (frees : List (String × Option Span)) (P : Point) (F : InitFacts)
    (slots : List (Option TExpr)) : Prop := ∀ e, some e ∈ slots → e.Grounded ids frees P F

theorem grounds_initSlot (frees : List (String × Option Span)) (struct : String) (sig : StructSig)
    (field : String) (value : TExpr) (span : Option Span) (slots : List (Option TExpr)) :
    Grounds ids (initSlot struct sig field value span slots) fun P F slots' =>
      value.Grounded ids frees P F → SlotsGrounded ids frees P F slots →
        SlotsGrounded ids frees P F slots' := by
  have hsame {q : Point → InitFacts → List (Option TExpr) → Prop} {cause : TypeCause} :
      Grounds ids (report cause span >>= fun _ => Pure.pure slots) q :=
    Takes.reported (Takes.pure slots)
  unfold initSlot
  split
  · split
    · exact hsame
    · refine (grounds_coerce frees).bind fun value' => .pure fun P F hc hv hs e he => ?_
      rcases List.mem_or_eq_of_mem_set he with he | he
      · exact hs e he
      · cases he
        exact hc hv
  · exact hsame

theorem grounds_fillSlots (frees : List (String × Option Span)) (struct : String)
    (span : Option Span) : (fields : List (String × Ty)) →
    (slots : List (Option TExpr)) → Grounds ids (fillSlots struct span fields slots)
      fun P F values =>
      SlotsGrounded ids frees P F slots → ExprsGrounded ids frees P F values
  | (_, _) :: fields, some value :: slots =>
    (grounds_fillSlots frees struct span fields slots).bind fun _ => .pure fun _ _ h hs =>
      ⟨hs value List.mem_cons_self, h fun e he => hs e (List.mem_cons_of_mem _ he)⟩
  | (_, _) :: fields, none :: slots =>
    Grounds.reported (q := fun _ _ _ => True)
      ((grounds_fillSlots frees struct span fields slots).after fun _ => .pure fun _ _ => trivial)
  | [], _ => .pure fun _ _ _ => trivial
  | _ :: _, [] => .pure fun _ _ _ => trivial

end Check

/-! ## Functions -/

/-- After parameters, which take the next slots. -/
def Point.withParams (P : Point) (params : List TParam) : Point :=
  params.foldl (fun P p => P.declare p.name p.span) P

def paramFacts (P : Point) (params : List TParam) (F : InitFacts) : InitFacts :=
  (List.range' P.slots params.length).reverse.map (fun slot => (slot, .init)) ++ F

/-- Parameters are declared one after the other. -/
def Enters (ids : Ids) (params : List TParam) (env env' : Env) : Prop :=
  env.Fine ids → Advances ids env env' (params.map TParam.declaration) (fun _ _ _ => True)
    (fun P => P.withParams params) fun P F => paramFacts P params F

theorem enters_nil (env : Env) : Enters ids [] env env := fun hf =>
  .of_still hf hf (.refl env) (fun _ _ _ _ _ _ => trivial) (fun _ hP => ⟨hP, rfl, rfl⟩)
    fun _ _ => rfl

theorem withParams_append (P : Point) (ps qs : List TParam) :
    P.withParams (ps ++ qs) = (P.withParams ps).withParams qs := List.foldl_append

theorem paramFacts_append (P : Point) (ps qs : List TParam) (F : InitFacts) :
    paramFacts P (ps ++ qs) F = paramFacts (P.withParams ps) qs (paramFacts P ps F) := by
  have hslots : (P.withParams ps).slots = P.slots + ps.length := Point.slots_params ps P
  rw [paramFacts, paramFacts, paramFacts, hslots, List.length_append, ← List.range'_append_1,
    List.reverse_append, List.map_append, List.append_assoc]

theorem Enters.append {ps qs : List TParam} {env mid env' : Env} (h : Enters ids ps env mid)
    (h' : Enters ids qs mid env') : Enters ids (ps ++ qs) env env' := by
  intro hf
  have hp := h hf
  have hall := hp.trans (h' hp.fine) fun P hP =>
    ⟨(Point.extends_params ps hP).captures, by rw [List.length_map]; exact Point.slots_params ps P⟩
  refine ⟨hall.fine, hall.beyond, fun W P D F ht hc hl => ⟨trivial, ?_⟩⟩
  obtain ⟨-, W', hW, ht'⟩ := hall.tracks W P D F ht hc (List.map_append ▸ hl)
  rw [withParams_append, paramFacts_append]
  exact ⟨W', hW, ht'⟩

namespace Check

theorem enters_declare (ids : Ids) (p : TParam) (kind : VarKind) (span : Option Span) :
    Takes (declare p.name p.ty p.mutable kind .init span) fun env env' _ =>
      Enters ids [p] env env' :=
  advances_declare ids p.name p.ty p.mutable kind .init span p.span (d := p.declaration) rfl

theorem enters_declareEach (params : List TParam) :
    Takes (forIn params PUnit.unit fun p (_ : PUnit) => do
      declare p.name p.ty p.mutable .param .init p.span
      Pure.pure (ForInStep.yield PUnit.unit)) fun env env' _ => Enters ids params env env' := by
  induction params with
  | nil =>
    refine (Takes.pure _).weaken ?_
    rintro env env' _ ⟨-, rfl⟩
    exact enters_nil env'
  | cons p rest ih =>
    rw [List.forIn_cons]
    refine ((enters_declare ids p .param p.span).bind fun _ => ih).weaken ?_
    rintro env env' _ ⟨_, mid, h, h'⟩
    have hall : Enters ids ([p] ++ rest) env env' := h.append h'
    exact hall

end Check

namespace Env

variable {env env' : Env} {ret : Ty} {isAsync : Bool}

def entered (env : Env) (ret : Ty) (isAsync : Bool) : Env :=
  { env with contexts := ⟨ret, isAsync, [[]], 0, []⟩ :: env.contexts }

def exited (env : Env) : Env := { env with contexts := env.contexts.tail }

theorem fine_entered (h : env.Fine ids) : (env.entered ret isAsync).Fine ids :=
  ⟨h.covers, List.cons_ne_nil _ _, h.distinct, h.below, h.recorded,
    ⟨(fun _ hn => by cases hn), h.chained⟩⟩

/-- Where no function is being checked. -/
theorem fine_first (hg : ids.Covers env.globals) (hc : env.contexts = []) :
    (env.entered ret isAsync).Fine ids := by
  have hvars : varsOf (env.entered ret isAsync).contexts = [] := by
    rw [entered, hc]
    rfl
  constructor
  case covers => exact hg
  case inside => exact List.cons_ne_nil _ _
  case distinct =>
    rw [hvars]
    exact List.nodup_nil
  case below =>
    rw [hvars]
    exact fun _ hv => by cases hv
  case recorded =>
    rw [hvars]
    exact fun _ hv => by cases hv
  case chained =>
    rw [entered, hc]
    exact ⟨(fun _ hn => by cases hn), trivial⟩

/-- A function that is checked inside another one. -/
theorem Beyond.exited (h : (env.entered ret isAsync).Beyond env') (hf' : env'.Fine ids)
    (hf : env.Fine ids) : env'.exited.Fine ids ∧ env.Still env'.exited := by
  have hcontexts : env.contexts.Forall₂ Grown env'.exited.contexts := h.contexts
  have hvars := vars_of_grown hcontexts
  have hsub : (varsOf env'.contexts.tail).Sublist (varsOf env'.contexts) := by
    cases env'.contexts with
    | nil => exact List.Sublist.refl _
    | cons c outer => exact List.sublist_append_right _ _
  refine ⟨⟨hf'.covers, fun hnil => ?_, ?_, ?_, ?_, ?_⟩, h.globals, hcontexts, h.init, h.nextId⟩
  · rw [hnil] at hcontexts
    exact hf.inside (List.forall₂_nil_right_iff.1 hcontexts)
  · exact hf'.distinct.sublist (hsub.map _)
  · exact fun v hv => hf'.below v (hsub.subset hv)
  · exact fun v hv => hf'.recorded v (hsub.subset hv)
  · have hchain := hf'.chained
    change Chained env'.init env'.contexts.tail
    cases hc : env'.contexts with
    | nil => trivial
    | cons c outer =>
      rw [hc] at hchain
      exact hchain.2

/-- What was captured can be read in the function around. -/
theorem Fine.captured (h : env.Fine ids) {name : String} (hn : name ∈ env.captures) :
    Readable env.init name env.contexts.tail := by
  obtain ⟨c, outer, hc⟩ := List.exists_cons_of_ne_nil h.inside
  have hchain := h.chained
  rw [Env.captures, hc] at hn
  rw [hc] at hchain ⊢
  exact hchain.1 name hn

/-- A function is at its start. -/
theorem tracks_entered (captures : List String) (D : List Declaration) :
    (env.entered ret isAsync).Tracks [[]] ⟨captures, [[]], [], 0, 0⟩ D [] :=
  ⟨⟨List.cons_ne_nil _ _, (fun _ hb => by cases hb), (fun _ hb => by cases hb), List.nodup_nil⟩,
    rfl, rfl, rfl, fun _ hl => by cases hl⟩

end Env

/-- The parameters of a function and then its statements are checked. -/
def Completes (ids : Ids) (frees : List (String × Option Span)) (params : List TParam)
    (body : List TStmt) (env env' : Env) : Prop :=
  env.Fine ids → Advances ids env env' (params.map TParam.declaration ++ stmtsDeclarations body)
    (fun P D F => StmtsGrounded ids frees (P.withParams params) D (paramFacts P params F) body)
    (fun P => (P.withParams params).stmts body)
    fun P F => stmtsFacts (P.withParams params) (paramFacts P params F) body

/-- What has been checked as a function is in order, with what it has captured. -/
theorem Completes.grounded {params : List TParam} {body : List TStmt} {env env' : Env} {ret : Ty}
    {isAsync : Bool} (h : Completes ids frees params body (env.entered ret isAsync) env')
    (hf : (env.entered ret isAsync).Fine ids) (span : Option Span) :
    (Body.mk params ret body env'.captures isAsync span).Grounded ids frees := by
  let b : Body := ⟨params, ret, body, env'.captures, isAsync, span⟩
  have hlist : Lists b.declarations 0 b.declarations := fun i d hi => by rwa [Nat.zero_add]
  obtain ⟨hG, -⟩ :=
    (h hf).tracks _ _ b.declarations _ (Env.tracks_entered env'.captures b.declarations)
    (List.Subset.refl _) hlist
  have hfacts : paramFacts ⟨env'.captures, [[]], [], 0, 0⟩ params [] = b.facts := by
    rw [paramFacts, List.append_nil, Body.facts, List.range_eq_range']
  rw [hfacts] at hG
  exact hG

/-! ## Branches -/

theorem elifsGrounded_withFreed {before m : Freed} {P : Point} {D : List Declaration}
    {F : InitFacts}
    (elifs : List (TExpr × List TStmt)) : ElifsGrounded ids frees before (P.withFreed m) D F elifs ↔
      ElifsGrounded ids frees before P D F elifs := by
  cases elifs with
  | nil => rfl
  | cons _ _ => rfl

theorem elifsFacts_withFreed {before m : Freed} {P : Point} {F : InitFacts}
    (elifs : List (TExpr × List TStmt)) :
    elifsFacts before (P.withFreed m) F elifs = elifsFacts before P F elifs := by
  cases elifs with
  | nil => rfl
  | cons _ _ => rfl

/-! ## Statements that contain others -/

/-- Statements of one scope are checked. -/
def FallingAll (ids : Ids) (frees : List (String × Option Span)) (env env' : Env)
    (r : List TStmt × Bool) : Prop :=
  r.2 = stmtsFall r.1 ∧ (env.Fine ids → Advances ids env env' (stmtsDeclarations r.1)
    (fun P D F => StmtsGrounded ids frees P D F r.1) (fun P => P.stmts r.1) fun P F =>
      stmtsFacts P F r.1)

/-- Further branches are checked, with the facts at their ends. -/
def FallingElifs (ids : Ids) (frees : List (String × Option Span)) (env env' : Env)
    (r : List (TExpr × List TStmt) × List InitFacts) : Prop :=
  r.2.isEmpty = !elifsFall r.1 ∧ (env.Fine ids → Alternatives ids env env' r.2
    (elifsDeclarations r.1) (fun P D F => ElifsGrounded ids frees P.freed P D F r.1)
    fun P F => elifsFacts P.freed P F r.1)

def FallingElse (ids : Ids) (frees : List (String × Option Span)) (env env' : Env)
    (r : Option (List TStmt) × Bool) : Prop :=
  r.2 = elseFalls r.1 ∧ (env.Fine ids → Encloses ids env env' (elseDeclarations r.1)
    (fun P D F => ElseGrounded ids frees P D F r.1) (fun P => P.elseBranch r.1)
    fun P F => elseFacts P F r.1)

namespace Check

variable {p : Point → InitFacts → Prop}

theorem takes_modifyContext (g : FnContext → FnContext) :
    Takes (modifyContext g) fun env env' _ => env' = env.modifyHead g := by
  refine takes_modify _ fun env => ?_
  split <;> rfl

theorem takes_inBlock {x : Check α} {T : Env → Env → α → Prop} (hx : Takes x T) :
    Takes (inBlock x) fun env env' a => ∃ mid n, T env.opened mid a ∧
      env' = Env.closed { mid with narrowed := n } := by
  refine ((takes_modifyContext _).bind fun _ => (takes_reads Env.narrowed).bind fun mark =>
    hx.bind fun a =>
      (takes_modify (fun e => { e with narrowed := mark }) fun _ => rfl).bind fun _ =>
      (takes_modifyContext _).bind fun _ => Takes.pure a).weaken ?_
  rintro env env' a ⟨_, _, rfl, mark, _, ⟨rfl, -⟩, _, mid, hx, _, _, rfl, _, _, rfl, rfl, rfl⟩
  exact ⟨mid, mark, hx, rfl⟩

theorem block_of_fallingAll {env mid : Env} {r : List TStmt × Bool} {n : List (Nat × Ty)}
    (h : FallingAll ids frees env.opened mid r) (hf : env.Fine ids) :
    Encloses ids env (Env.closed { mid with narrowed := n }) (stmtsDeclarations r.1)
      (fun P D F => StmtsGrounded ids frees P.opened D F r.1) (fun P => (P.opened.stmts r.1).closed)
      fun P F => stmtsFacts P.opened F r.1 :=
  ((h.2 (Env.fine_opened hf)).narrowed n).block hf fun _ hP => Point.extends_stmts hP.opened r.1

/-- A branch, from the facts before it and back to them. -/
theorem takes_guarded {x : Check (List TStmt × Bool)} (hx : Takes x (FallingAll ids frees))
    {k : List TStmt × Bool → List InitFacts → Check β}
    {S : List TStmt × Bool → List InitFacts → Env → Env → β → Prop}
    (hk : ∀ r paths, Takes (k r paths) (S r paths)) (test : Option NullTest) (isNe : Bool)
    (before : InitFacts) (mark : List (Nat × Ty)) :
    Takes (narrowWhere test isNe >>= fun _ => inBlock x >>= fun r => setNarrowings mark >>= fun _ =>
        pathEnd r.2 >>= fun paths => setInitFacts before >>= fun _ => k r paths) fun env env' b =>
      ∃ r paths mid, S r paths mid env' b ∧ r.2 = stmtsFall r.1 ∧ paths.isEmpty = !stmtsFall r.1 ∧
        (before = env.init → env.Fine ids → Alternatives ids env mid paths (stmtsDeclarations r.1)
          (fun P D F => StmtsGrounded ids frees P.opened D F r.1)
          fun P F => pathFacts (stmtsFall r.1) (stmtsFacts P.opened F r.1)) := by
  refine ((Quiet.takes (quiet_narrowWhere test isNe)).bind fun _ => (takes_inBlock hx).bind fun r =>
    (takes_modify (fun e => { e with narrowed := mark }) fun _ => rfl).bind fun _ =>
      (takes_reads fun env => pathFacts r.2 env.init).bind fun paths =>
        (takes_modify (fun e => { e with init := before }) fun _ => rfl).bind fun _ =>
          hk r paths).weaken ?_
  rintro env env' b ⟨_, _, ⟨⟨n, rfl⟩, -⟩, r, _, ⟨mid, m, hr, rfl⟩, _, _, rfl, _, _, ⟨rfl, rfl⟩,
    _, _, rfl, hk⟩
  refine ⟨r, _, _, hk, hr.1, ?_, fun hbefore hf => ?_⟩
  · rw [hr.1, pathFacts]
    cases stmtsFall r.1 <;> rfl
  · have hblock := block_of_fallingAll (n := m) hr (fine_narrowed n hf)
    have h := (hblock.narrowed mark).alternative (fine_narrowed n hf) r.2
    subst hbefore
    rw [← hr.1]
    exact h.after_still hf (still_narrowed env n)

theorem takes_mergePaths (paths : List InitFacts) :
    Takes (mergePaths paths) fun env env' _ =>
      env' = { env with init := .meet paths env.init } := by
  cases paths with
  | nil => exact fun _ he => ⟨he, rfl⟩
  | cons first rest => exact fun _ he => ⟨he, rfl⟩

theorem takes_narrowingIf {c : Prop} [Decidable c] {x : Unit → Check α} {a : α} {id : Nat} {ty : Ty}
    (hx : Takes (x ()) fun env env' b => b = a ∧ ∃ n, env' = { env with narrowed := n }) :
    Takes (if c then narrow id ty >>= x else x ()) fun env env' b =>
      b = a ∧ ∃ n, env' = { env with narrowed := n } := by
  split
  · refine ((Quiet.takes (quiet_narrow id ty)).bind fun _ => hx).weaken ?_
    rintro env env' b ⟨_, _, ⟨⟨n, rfl⟩, -⟩, rfl, m, rfl⟩
    exact ⟨rfl, m, rfl⟩
  · exact hx

theorem falling_block {x : Check (List TStmt × Bool)} (hx : Takes x (FallingAll ids frees))
    (span : Option Span) : Takes (inBlock x >>= fun r => Pure.pure (TStmt.block r.1 span, r.2))
      (Falling ids frees p) := by
  refine ((takes_inBlock hx).bind fun r => Takes.pure _).weaken ?_
  rintro env env' s ⟨r, _, ⟨mid, n, hr, rfl⟩, rfl, rfl⟩
  exact ⟨hr.1, fun hf _ => (block_of_fallingAll hr hf).advances.weaken fun _ _ _ h _ => h⟩

theorem falling_loop {x : Check (List TStmt × Bool)} (hx : Takes x (FallingAll ids frees))
    (c : TExpr) (span : Option Span) : Takes (initFacts >>= fun before => enterLoop >>= fun _ =>
        inBlock x >>= fun r => exitLoop >>= fun _ => initFacts >>= fun after =>
          mergePaths [before, after] >>= fun _ => Pure.pure (TStmt.loop c r.1 span, true))
      (Falling ids frees fun P F => p P F ∧ c.Grounded ids frees P F) := by
  refine ((takes_reads Env.init).bind fun before => (takes_modifyContext _).bind fun _ =>
    (takes_inBlock hx).bind fun r => (takes_modifyContext _).bind fun _ =>
      (takes_reads Env.init).bind
      fun after => (takes_mergePaths _).bind fun _ => Takes.pure _).weaken ?_
  rintro env env' s ⟨_, _, ⟨rfl, rfl⟩, _, _, rfl, r, _, ⟨mid, n, hr, rfl⟩, _, _, rfl, _,
    _, ⟨rfl, rfl⟩, _, _, rfl, rfl, rfl⟩
  refine ⟨rfl, fun hf rest => ?_⟩
  have hbody := (hr.2 (Env.fine_opened (Env.fine_inLoop hf))).narrowed n
  have hloop := (hbody.loop hf fun P hP => Point.extends_stmts hP.inLoop_opened r.1).optional hf
  exact hloop.advances.weaken fun _ _ _ h hc => ⟨hc.2, h⟩

theorem fallingElse_some {x : Check (List TStmt × Bool)} (hx : Takes x (FallingAll ids frees)) :
    Takes (inBlock x >>= fun r => Pure.pure (some r.1, r.2)) (FallingElse ids frees) := by
  refine ((takes_inBlock hx).bind fun r => Takes.pure _).weaken ?_
  rintro env env' s ⟨r, _, ⟨mid, n, hr, rfl⟩, rfl, rfl⟩
  exact ⟨hr.1, fun hf => block_of_fallingAll hr hf⟩

/-- The branches of an `if` after the first one, where all of them meet. -/
def Meets (ids : Ids) (frees : List (String × Option Span)) (c : TExpr) (span : Option Span)
    (t : List TStmt × Bool) (paths : List InitFacts) (env env' : Env) (b : TStmt × Bool) : Prop :=
  ∃ n n' m l mid last, FallingElifs ids frees { env with narrowed := n } mid m ∧
    FallingElse ids frees mid last l ∧
    b = (.branch c t.1 m.1 l.1 span, !(paths ++ m.2 ++ pathFacts l.2 last.init).isEmpty) ∧
    env' = { last with
      narrowed := n'
      init := .meet (paths ++ m.2 ++ pathFacts l.2 last.init) last.init }

theorem takes_meets {xm : Check (List (TExpr × List TStmt) × List InitFacts)}
    {xl : Check (Option (List TStmt) × Bool)} (hm : Takes xm (FallingElifs ids frees))
    (hl : Takes xl (FallingElse ids frees)) {c : TExpr} {span : Option Span} {t : List TStmt × Bool}
    {k : List (TExpr × List TStmt) × List InitFacts → Option (List TStmt) × Bool → List InitFacts →
      Check (TStmt × Bool)}
    (hk : ∀ m l paths, Takes (k m l paths) fun env env' b =>
      b = (.branch c t.1 m.1 l.1 span, !paths.isEmpty) ∧ ∃ n, env' = { env with narrowed := n })
    (test : Option NullTest) (paths : List InitFacts) (mark : List (Nat × Ty)) :
    Takes (narrowWhere test false >>= fun _ => xm >>= fun m => xl >>= fun l =>
      pathEnd l.2 >>= fun elsePaths =>
        setNarrowings mark >>= fun _ => mergePaths (paths ++ m.2 ++ elsePaths) >>= fun _ =>
          k m l (paths ++ m.2 ++ elsePaths)) (Meets ids frees c span t paths) := by
  refine ((Quiet.takes (quiet_narrowWhere test false)).bind fun _ => hm.bind fun m =>
    hl.bind fun l =>
    (takes_reads fun env => pathFacts l.2 env.init).bind fun elsePaths =>
      (takes_modify (fun e => { e with narrowed := mark }) fun _ => rfl).bind fun _ =>
        (takes_mergePaths _).bind fun _ => hk m l _).weaken ?_
  rintro env env' b ⟨_, _, ⟨⟨n, rfl⟩, -⟩, m, mid, hm, l, last, hl, _, _, ⟨rfl, rfl⟩, _, _,
    rfl, _, _, rfl, rfl, n', rfl⟩
  exact ⟨n, n', m, l, mid, _, hm, hl, rfl, rfl⟩

theorem isEmpty_pathFacts (falls : Bool) (F : InitFacts) :
    (pathFacts falls F).isEmpty = !falls := by
  cases falls <;> rfl

theorem falling_branch {xt : Check (List TStmt × Bool)}
    {xm : Check (List (TExpr × List TStmt) × List InitFacts)}
    {xl : Check (Option (List TStmt) × Bool)} (ht : Takes xt (FallingAll ids frees))
    (hm : Takes xm (FallingElifs ids frees)) (hl : Takes xl (FallingElse ids frees)) (c : TExpr)
    (span : Option Span) {k : List TStmt × Bool → List (TExpr × List TStmt) × List InitFacts →
      Option (List TStmt) × Bool → List InitFacts → Check (TStmt × Bool)}
    (hk : ∀ t m l paths, Takes (k t m l paths) fun env env' b =>
      b = (.branch c t.1 m.1 l.1 span, !paths.isEmpty) ∧ ∃ n, env' = { env with narrowed := n })
    (test : Option NullTest) :
    Takes (initFacts >>= fun before => narrowings >>= fun mark => narrowWhere test true >>= fun _ =>
        inBlock xt >>= fun t => setNarrowings mark >>= fun _ => pathEnd t.2 >>= fun paths =>
        setInitFacts before >>= fun _ => narrowWhere test false >>= fun _ => xm >>= fun m =>
        xl >>= fun l => pathEnd l.2 >>= fun elsePaths => setNarrowings mark >>= fun _ =>
        mergePaths (paths ++ m.2 ++ elsePaths) >>= fun _ => k t m l (paths ++ m.2 ++ elsePaths))
      (Falling ids frees fun P F => p P F ∧ c.Grounded ids frees P F) := by
  refine ((takes_reads Env.init).bind fun before => (takes_reads Env.narrowed).bind fun mark =>
    takes_guarded ht (fun t paths => takes_meets hm hl (hk t) test paths mark)
      test true before mark).weaken ?_
  rintro env env' b ⟨_, _, ⟨rfl, rfl⟩, mark, _, ⟨rfl, -⟩, t, paths, first,
    ⟨n, n', m, l, mid, last, hm, hl, rfl, rfl⟩, hfalls, hempty, hfirst⟩
  refine ⟨?_, fun hf rest => ?_⟩
  · have happend (as bs : List InitFacts) : (as ++ bs).isEmpty = (as.isEmpty && bs.isEmpty) := by
      cases as <;> rfl
    rw [TStmt.falls, ← hl.1, happend, happend, hempty, hm.1, isEmpty_pathFacts]
    simp only [Bool.not_and, Bool.not_not]
  · have hthen := hfirst rfl hf
    have helifs :=
      (hm.2 (fine_narrowed n hthen.fine)).after_still hthen.fine (still_narrowed first n)
    have hnext (P : Point) (hP : P.Fine) : P.Beside (P.afterThen t.1) ∧
        (P.afterThen t.1).slots = P.slots + (stmtsDeclarations t.1).length :=
      ⟨Point.beside_afterThen hP t.1, Point.slots_stmts P.opened t.1⟩
    have hnext' (P : Point) (hP : P.Fine) : P.Beside ((P.afterThen t.1).afterElifs m.1) ∧
        ((P.afterThen t.1).afterElifs m.1).slots =
          P.slots + (stmtsDeclarations t.1 ++ elifsDeclarations m.1).length := by
      have hthen := hnext P hP
      refine ⟨hthen.1.trans (Point.beside_afterElifs hthen.1.fine m.1), ?_⟩
      rw [List.length_append, ← Nat.add_assoc, ← hthen.2]
      exact Point.slots_elifBranches _ _ m.1
    have hall := ((hthen.trans hf helifs hnext).meet hf (hl.2 helifs.fine) l.2 hnext').narrowed n'
    have hpoint (P : Point) : (P.stmt rest (.branch c t.1 m.1 l.1 span)) =
        (((P.afterThen t.1).afterElifs m.1).elseBranch l.1).withFreed
          (P.stmt rest (.branch c t.1 m.1 l.1 span)).freed := by
      rw [Point.afterElifs_afterThen]
      rfl
    have hbeside := hall.beside (fun P => P.stmt rest (.branch c t.1 m.1 l.1 span)) fun P hP => by
      rw [hpoint]
      have hfine := (Point.beside_elseBranch (hnext' P hP).1.fine l.1).fine
      exact ⟨hfine.of_same rfl le_rfl rfl, rfl, rfl, rfl⟩
    have hfacts := hbeside.congr (fun P F => TStmt.facts P F (.branch c t.1 m.1 l.1 span))
      fun P F => by
        rw [TStmt.facts, ← elifsFacts_withFreed, ← Point.afterElifs_afterThen, hl.1]; rfl
    refine hfacts.advances.weaken fun P D F hG hc => ⟨hc.2, hG.1.1, ?_, ?_⟩
    · exact (elifsGrounded_withFreed m.1).1 hG.1.2
    · rw [← Point.afterElifs_afterThen]
      exact hG.2

theorem fallingElifs_cons {xc : Check TExpr} {xb : Check (List TStmt × Bool)}
    {xr : Check (List (TExpr × List TStmt) × List InitFacts)}
    (hc : Grounds ids xc fun P F c => c.Grounded ids frees P F)
    (hb : Takes xb (FallingAll ids frees)) (hr : Takes xr (FallingElifs ids frees))
    (test : Option NullTest) :
    Takes (xc >>= fun c => initFacts >>= fun before => narrowings >>= fun mark =>
        narrowWhere test true >>= fun _ => inBlock xb >>= fun b => setNarrowings mark >>= fun _ =>
        pathEnd b.2 >>= fun paths => setInitFacts before >>= fun _ => xr >>= fun r =>
        Pure.pure ((c, b.1) :: r.1, paths ++ r.2)) (FallingElifs ids frees) := by
  refine (Takes.bind hc fun c => (takes_reads Env.init).bind fun before =>
    (takes_reads Env.narrowed).bind fun mark => takes_guarded hb (fun b paths => hr.bind fun r =>
      Takes.pure ((c, b.1) :: r.1, paths ++ r.2)) test true before mark).weaken ?_
  rintro env env' s ⟨c, start, hc, _, _, ⟨rfl, rfl⟩, mark, _, ⟨rfl, -⟩, b, paths, mid,
    ⟨r, last, hr, rfl, rfl⟩, hfalls, hempty, hfirst⟩
  refine ⟨?_, fun hf => ?_⟩
  · have happend : (paths ++ r.2).isEmpty = (paths.isEmpty && r.2.isEmpty) := by cases paths <;> rfl
    rw [happend, hempty, hr.1, elifsFall, Bool.not_or]
  · obtain ⟨hfc, hsc, hqc⟩ := hc hf
    have hfirst := hfirst rfl hfc
    have hnext (P : Point) (hP : P.Fine) : P.Beside (P.afterThen b.1) ∧
        (P.afterThen b.1).slots = P.slots + (stmtsDeclarations b.1).length :=
      ⟨Point.beside_afterThen hP b.1, Point.slots_stmts P.opened b.1⟩
    have hboth := hfirst.trans hfc (hr.2 hfirst.fine) hnext
    refine ⟨hboth.fine, hsc.trans hboth.still, fun I hI => (hboth.kept I hI).before hsc, ?_⟩
    intro W P D F ht hcap hl
    have ht' := ht.still hsc hf
    obtain ⟨⟨hG, hG'⟩, hpaths⟩ := hboth.tracks W P D F ht' hcap hl
    refine ⟨⟨?_, hG, (elifsGrounded_withFreed r.1).1 hG'⟩, ?_⟩
    · exact hqc W P D F ht' (List.Subset.trans hboth.still.captures hcap)
    · rw [elifsFacts, ← elifsFacts_withFreed]
      exact hpaths

/-- Statements one after the other. -/
theorem fallingAll_cons {xs : Check (TStmt × Bool)} {xr : Check (List TStmt × Bool)}
    (hs : Takes xs (Falling ids frees fun _ _ => True)) (hr : Takes xr (FallingAll ids frees)) :
    Takes (xs >>= fun s => xr >>= fun r => Pure.pure (s.1 :: r.1, s.2 && r.2))
      (FallingAll ids frees) := by
  refine (hs.bind fun s => hr.bind fun r => Takes.pure _).weaken ?_
  rintro env env' _ ⟨s, mid, hs, r, last, hr, rfl, rfl⟩
  refine ⟨?_, fun hf => ?_⟩
  · rw [stmtsFall, hs.1, hr.1]
  · have h := hs.2 hf r.1
    have hall := h.trans (hr.2 h.fine) fun P hP =>
      ⟨(Point.extends_stmt hP r.1 s.1).captures, Point.slots_stmt P r.1 s.1⟩
    exact hall.weaken fun P D F hG => ⟨hG.1 trivial, hG.2⟩

theorem takes_enterFunction (ret : Ty) (isAsync : Bool) :
    Takes (enterFunction ret isAsync) fun env env' _ => env' = env.entered ret isAsync :=
  takes_modify _ fun _ => rfl

theorem takes_exitFunction : Takes exitFunction fun env env' captures =>
    captures = env.captures ∧ env' = env.exited := by
  intro env he
  obtain ⟨globals, contexts, errors, init, narrowed, nextId⟩ := env
  cases contexts <;> exact ⟨he, rfl, rfl⟩

/-- Parameters and then statements. -/
theorem completes {params : List TParam} {env mid env' : Env} {r : List TStmt × Bool}
    (he : Enters ids params env mid) (hb : FallingAll ids frees mid env' r) :
    Completes ids frees params r.1 env env' := fun hf => by
  have h := (he hf).trans (hb.2 (he hf).fine) fun P hP =>
      ⟨(Point.extends_params params hP).captures, by
    rw [List.length_map]
    exact Point.slots_params params P⟩
  exact h.weaken fun _ _ _ hG => hG.2

/-- A function that is checked between entering and leaving it. -/
theorem grounds_lambda {xe : Check PUnit} {xb : Check (List TStmt × Bool)} {params : List TParam}
    (he : Takes xe fun env env' _ => Enters ids params env env')
    (hb : Takes xb (FallingAll ids frees)) {k : List TStmt × Bool → Check β} {ret : Ty}
    {isAsync : Bool} {g : List TStmt → List String → β}
    (hk : ∀ r, Takes (k r) fun env env' b => b = g r.1 env.captures ∧ env' = env.exited) :
    Takes (enterFunction ret isAsync >>= fun _ => xe >>= fun _ => xb >>= fun r => k r)
      fun env env' b =>
      ∃ body captures, b = g body captures ∧ ((env.entered ret isAsync).Fine ids →
        (∀ span, (Body.mk params ret body captures isAsync span).Grounded ids frees) ∧
        (env.Fine ids → env'.Fine ids ∧ env.Still env' ∧ ∀ W P D F, env'.Tracks W P D F →
          env'.captures ⊆ P.captures → ∀ name ∈ captures, P.Reads F name)) := by
  refine ((takes_enterFunction ret isAsync).bind fun _ => he.bind fun _ => hb.bind fun r =>
    hk r).weaken ?_
  rintro env env' b ⟨_, _, rfl, _, mid, he, r, last, hb, rfl, rfl⟩
  refine ⟨r.1, last.captures, rfl, fun hf => ?_⟩
  have hbody := completes he hb
  refine ⟨fun span => hbody.grounded hf span, fun hfe => ?_⟩
  have hlast := hbody hf
  obtain ⟨hfine, hstill⟩ := hlast.beyond.exited hlast.fine hfe
  exact ⟨hfine, hstill, fun W P D F ht hcap name hn => ht.reads hcap (hlast.fine.captured hn)⟩

theorem falling_declare (name : String) (mutable : Bool) (ty : Option Ty) (v : TExpr)
    (span : Option Span) :
    Takes (checkDeclare name mutable ty (some v) span >>= fun s => Pure.pure (s, true))
      (Falling ids frees fun P F => p P F ∧ v.Grounded ids frees P F) := by
  refine (steps_checkDeclare name mutable ty (some v) span fun P F hp w hw => ?_).falling
    fun _ => rfl
  cases hw
  exact hp.2

theorem grounds_checkReturned (value : Option TExpr) (ret : Ty) (span : Option Span) :
    Grounds ids (checkReturned value ret span) fun P F value' =>
      (∀ v, value = some v → v.Grounded ids frees P F) → ∀ v, value' = some v →
      v.Grounded ids frees P F := by
  unfold checkReturned
  split
  · split
    · exact Takes.reported (Takes.pure _)
    · exact (grounds_coerceSome frees).weaken fun _ _ _ h hv => h (hv _ rfl)
  · exact .reportedIf (.pure fun _ _ _ _ hv => nomatch hv)

theorem falling_plain {s : TStmt} (hs : s.isPlain = true)
    (h : ∀ P D F, p P F → s.Grounded ids frees P D F) :
    Takes (Pure.pure (s, s.falls)) (Falling ids frees p) :=
  (steps_plain hs h).falling fun _ => rfl

theorem fallingAll_nil : Takes (Pure.pure ([], true)) (FallingAll ids frees) := by
  refine (Takes.pure _).weaken ?_
  rintro env env' _ ⟨rfl, rfl⟩
  exact ⟨rfl, fun hf => .of_still hf hf (.refl _) (fun _ _ _ _ _ _ => trivial)
    (fun _ hP => ⟨hP, rfl, rfl⟩) fun _ _ => rfl⟩

theorem fallingElse_none : Takes (Pure.pure (none, true)) (FallingElse ids frees) := by
  refine (Takes.pure _).weaken ?_
  rintro env env' _ ⟨rfl, rfl⟩
  exact ⟨rfl, fun hf => .refl hf⟩

theorem fallingElifs_nil : Takes (Pure.pure ([], [])) (FallingElifs ids frees) := by
  refine (Takes.pure _).weaken ?_
  rintro env env' _ ⟨rfl, rfl⟩
  exact ⟨rfl, fun hf => .nil hf⟩

theorem fallingElifs_after {x : Check α} {q : Point → InitFacts → α → Prop}
    {y : α → Check (List (TExpr × List TStmt) × List InitFacts)} (hx : Grounds ids x q)
    (hy : ∀ a, Takes (y a) (FallingElifs ids frees)) :
    Takes (x >>= y) (FallingElifs ids frees) := by
  refine (Takes.bind hx hy).weaken ?_
  rintro env env' r ⟨_, mid, hx, hr⟩
  refine ⟨hr.1, fun hf => ?_⟩
  obtain ⟨hfm, hs, -⟩ := hx hf
  exact (hr.2 hfm).after_still hf hs

/-! ## Trees -/

mutual

theorem grounds_expr : (e : Expr) → exprFrees e ⊆ frees →
    Grounds ids (checkExpr e) fun P F e' => e'.Grounded ids frees P F
  | .int _ _, _ | .float _ _, _ | .bool _ _, _ | .string _ _, _ | .null _, _ =>
    .pure fun _ _ => trivial
  | .name name span, _ => grounds_checkName name span
  | .binary op left right span, h => by
    obtain ⟨hl, hr⟩ := List.append_subset.1 h
    refine (grounds_expr left hl).bind fun l => (grounds_expr right hr).bind fun r => ?_
    exact (reports_binaryType op l.ty r.ty span).quiet.passes.after fun _ =>
      .pure fun _ _ hr hl => ⟨hl, hr⟩
  | .unary .not operand _, h =>
    (grounds_expr operand h).bind fun _ => (grounds_coerce frees).bind fun _ =>
      .pure fun _ _ hc he => hc he
  | .unary .neg operand span, h =>
    (grounds_expr operand h).bind fun e =>
      (reports_negationType e.ty span).quiet.passes.after fun _ =>
      .pure fun _ _ he => he
  | .logical _ left right _, h => by
    obtain ⟨hl, hr⟩ := List.append_subset.1 h
    refine (grounds_expr left hl).asCondition.bind fun l => ?_
    exact (grounds_expr right hr).asCondition.bind fun r => .pure fun _ _ hr hl => ⟨hl, hr⟩
  | .call callee args span, h => by
    obtain ⟨hcallee, hargs⟩ := List.append_subset.1 h
    refine ((quiet_namedCallee? callee).grounds (q := fun c => ∀ target name sig,
      c = some (target, name, sig) → ids.Knows target)
      fun g c hg hc target name sig he => ?_).bind fun c => ?_
    · rcases hc target name sig he with ⟨rfl, hsome⟩ | rfl
      · exact hg.functions name hsome
      · trivial
    cases c with
    | some c =>
      obtain ⟨target, name, sig⟩ := c
      refine .reportedIf ((reports_checkArity _ _ _ _).quiet.passes.after fun _ => ?_)
      exact (grounds_args sig.params args hargs).bind fun _ => .pure fun _ _ ha hk =>
        ⟨hk target name sig rfl, ha⟩
    | none =>
      refine (grounds_expr callee hcallee).bind fun c => ?_
      cases c.ty with
      | function params ret =>
        refine (reports_checkArity _ _ _ _).quiet.passes.after fun _ => ?_
        exact (grounds_args params args hargs).bind fun _ => .pure fun _ _ ha hc _ => ⟨hc, ha⟩
      | any => exact (grounds_boxed args hargs).bind fun _ => .pure fun _ _ ha hc _ => ⟨hc, ha⟩
      | _ => exact Takes.reported (Takes.pure _)
  | .methodCall object method args span, h => by
    obtain ⟨hobject, hargs⟩ := List.append_subset.1 h
    refine (grounds_expr object hobject).bind fun r => ?_
    cases r.ty with
    | struct struct =>
      refine ((quiet_structSig? struct).grounds (q := fun sig =>
        ((sig.bind fun sig => sig.methods.lookup method).isSome →
          (ids.functions.lookup (methodSymbol struct method)).isSome))
        fun g sig hg hs hm => ?_).bind fun sig => ?_
      · subst hs
        cases hl : g.structs.lookup struct with
        | none =>
          rw [hl] at hm
          cases hm
        | some sig =>
          rw [hl] at hm
          exact hg.methods struct sig method hl hm
      · cases hm : sig.bind fun sig => sig.methods.lookup method with
        | none => exact Takes.reported (Takes.pure _)
        | some sig =>
          refine (reports_checkArity _ _ _ _).quiet.passes.after fun _ => ?_
          exact (grounds_args sig.params args hargs).bind fun _ => .pure fun _ _ ha hs hr =>
            ⟨hs rfl, hr, ha⟩
    | any => exact (grounds_boxed args hargs).bind fun _ => .pure fun _ _ ha hr => ⟨hr, ha⟩
    | _ => exact Takes.reported (Takes.pure _)
  | .field object field span, h =>
    (grounds_expr object h).bind fun e =>
      (reports_fieldType e.ty field span).quiet.passes.after fun _ =>
      .pure fun _ _ he => he
  | .structInit name fields span, h => by
    refine ((quiet_structSig? name).grounds (q := fun sig => sig.isSome →
      (ids.structs.lookup name).isSome)
      fun g sig hg hs hsome => hg.structs name (hs ▸ hsome)).bind fun sig => ?_
    cases sig with
    | none => exact (grounds_values fields h).after fun _ => Takes.reported (Takes.pure _)
    | some sig =>
      refine (grounds_inits name sig span _ fields h).bind fun slots => ?_
      refine (grounds_fillSlots frees name span sig.fields slots).bind fun values =>
        .pure fun _ _ hv hs hn => ?_
      refine ⟨hn rfl, hv (hs fun e he => ?_)⟩
      cases List.eq_of_mem_replicate he
  | .lambda params ret body span, h => by
    refine (reports_resolveReturn ret span).quiet.passes.after fun ret => ?_
    refine (quiet_mapM (fun p => ?_) params).passes.after fun params => ?_
    · exact (reports_resolveType _ _).quiet.after fun _ => .pure fun _ => trivial
    refine (grounds_lambda (enters_declareEach params) (fallingAll_stmts body h)
      (g := fun body captures =>
      TExpr.mk (.lambda params ret body captures) (.function (params.map TParam.ty) ret) span)
        fun r => ?_).weaken ?_
    · refine (Takes.reportedIf (takes_exitFunction.bind fun captures => Takes.pure _)).weaken ?_
      rintro env env' b ⟨-, captures, _, ⟨rfl, rfl⟩, rfl, rfl⟩
      exact ⟨rfl, rfl⟩
    · rintro env env' b ⟨body, captures, rfl, hbody⟩ hf
      obtain ⟨hgrounded, hrest⟩ := hbody (Env.fine_entered hf)
      obtain ⟨hfine, hstill, hreads⟩ := hrest hf
      exact ⟨hfine, hstill, fun W P D F ht hcap => ⟨hreads W P D F ht hcap, hgrounded none⟩⟩
  | .spawn call span, h => by
    refine (grounds_start span call h).bind fun s => ?_
    cases s with
    | some s => exact .pure fun _ _ hs => hs s rfl
    | none => exact (grounds_expr call h).after fun _ => Takes.reported (Takes.pure _)
  | .await task span, h => by
    refine Grounds.after quiet_reads.passes fun _ => .reportedIf ?_
    refine (grounds_start span task h).bind fun s => ?_
    have hrest (t : TExpr) : Grounds ids (awaitedType t.ty span >>= fun ty =>
        Pure.pure (TExpr.mk (.await t) ty span)) fun P F e =>
          t.Grounded ids frees P F → e.Grounded ids frees P F :=
      (reports_awaitedType t.ty span).quiet.passes.after fun _ => .pure fun _ _ ht => ht
    cases s with
    | some s => exact (hrest _).weaken fun _ _ _ ht hs => ht (hs s rfl)
    | none => exact (grounds_expr task h).bind fun t => (hrest t).weaken fun _ _ _ ht he _ => ht he
  | .cast value type span, h => by
    refine (grounds_expr value h).bind fun v =>
      (reports_resolveType type span).quiet.passes.after fun target => ?_
    refine ((quiet_castTo v target span).grounds (q := fun e => isPrimitive target = true ∧
      e = .mk (.cast v) target span) fun _ _ _ hq => hq).weaken fun P F e ⟨hp, he⟩ hv => ?_
    rw [he]
    refine ⟨?_, hv⟩
    cases target <;> first | rfl | cases hp
  | .format parts span, h =>
    (grounds_parts span parts h).bind fun _ => .pure fun _ _ hp => hp

theorem grounds_start (span : Option Span) : (e : Expr) → exprFrees e ⊆ frees →
    Grounds ids (checkStart span e) fun P F s => ∀ r, s = some r →
      (ids.functions.lookup r.1).isSome ∧ ExprsGrounded ids frees P F r.2.1
  | .call (.name name _) args _, h => by
    refine ((quiet_asyncSig? name).grounds (q := fun sig => sig.isSome →
      (ids.functions.lookup name).isSome) fun g sig hg hs hsome => ?_).bind fun sig => ?_
    · obtain ⟨s, hs'⟩ := Option.isSome_iff_exists.1 hsome
      exact hg.functions name (hs s hs')
    cases sig with
    | some sig =>
      refine (reports_checkArity _ _ _ _).quiet.passes.after fun _ => ?_
      refine (grounds_args sig.params args h).bind fun es => .pure fun _ _ ha hs r hr => ?_
      cases hr
      exact ⟨hs rfl, ha⟩
    | none => exact .pure fun _ _ _ r hr => nomatch hr
  | .int _ _, _ | .float _ _, _ | .bool _ _, _ | .string _ _, _ | .null _, _ | .name _ _, _
  | .binary _ _ _ _, _ | .unary _ _ _, _ | .logical _ _ _ _, _ | .methodCall _ _ _ _, _
  | .field _ _ _, _ | .structInit _ _ _, _ | .lambda _ _ _ _, _ | .spawn _ _, _ | .await _ _, _
  | .cast _ _ _, _ | .format _ _, _ | .call (.int _ _) _ _, _ | .call (.float _ _) _ _, _
  | .call (.bool _ _) _ _, _ | .call (.string _ _) _ _, _ | .call (.null _) _ _, _
  | .call (.binary _ _ _ _) _ _, _ | .call (.unary _ _ _) _ _, _ | .call (.logical _ _ _ _) _ _, _
  | .call (.call _ _ _) _ _, _ | .call (.methodCall _ _ _ _) _ _, _ | .call (.field _ _ _) _ _, _
  | .call (.structInit _ _ _) _ _, _ | .call (.lambda _ _ _ _) _ _, _ | .call (.spawn _ _) _ _, _
  | .call (.await _ _) _ _, _ | .call (.cast _ _ _) _ _, _
  | .call (.format _ _) _ _, _ => .pure fun _ _ r hr => nomatch hr

theorem grounds_args : (params : List Ty) → (args : List Expr) → exprsFrees args ⊆ frees →
    Grounds ids (checkArgs params args) fun P F es => ExprsGrounded ids frees P F es
  | _, [], _ => .pure fun _ _ => trivial
  | params, arg :: rest, h => by
    obtain ⟨harg, hrest⟩ := List.append_subset.1 h
    refine (grounds_expr arg harg).bind fun e => ?_
    have hmore (e' : TExpr) :
        Grounds ids (checkArgs params.tail rest >>= fun es => Pure.pure (e' :: es))
        fun P F es => e'.Grounded ids frees P F → ExprsGrounded ids frees P F es :=
      (grounds_args params.tail rest hrest).bind fun es => .pure fun _ _ hs he => ⟨he, hs⟩
    cases params.head? with
    | some ty => exact (grounds_coerce frees).bind fun e' =>
      (hmore e').weaken fun _ _ _ h hc he => h (hc he)
    | none => exact hmore e

theorem grounds_boxed : (args : List Expr) → exprsFrees args ⊆ frees →
    Grounds ids (checkBoxed args) fun P F es => ExprsGrounded ids frees P F es
  | [], _ => .pure fun _ _ => trivial
  | arg :: rest, h => by
    obtain ⟨harg, hrest⟩ := List.append_subset.1 h
    refine (grounds_expr arg harg).bind fun e => (grounds_coerce frees).bind fun e' => ?_
    exact (grounds_boxed rest hrest).bind fun es => .pure fun _ _ hs hc he => ⟨hc he, hs⟩

theorem grounds_parts (span : Option Span) : (parts : List Expr) → exprsFrees parts ⊆ frees →
    Grounds ids (checkParts span parts) fun P F es => ExprsGrounded ids frees P F es
  | [], _ => .pure fun _ _ => trivial
  | part :: rest, h => by
    obtain ⟨hpart, hrest⟩ := List.append_subset.1 h
    refine (grounds_expr part hpart).bind fun e => .reportedIf ?_
    exact (grounds_parts span rest hrest).bind fun _ => .pure fun _ _ hs he => ⟨he, hs⟩

theorem grounds_values : (fields : List (String × Expr)) → fieldsFrees fields ⊆ frees →
    Grounds ids (checkValues fields) fun _ _ _ => True
  | [], _ => .pure fun _ _ => trivial
  | (_, value) :: rest, h => by
    obtain ⟨hvalue, hrest⟩ := List.append_subset.1 h
    exact (grounds_expr value hvalue).after fun _ => grounds_values rest hrest

theorem grounds_inits (struct : String) (sig : StructSig) (span : Option Span)
    (slots : List (Option TExpr)) : (fields : List (String × Expr)) → fieldsFrees fields ⊆ frees →
    Grounds ids (checkInits struct sig span slots fields) fun P F slots' =>
      SlotsGrounded ids frees P F slots → SlotsGrounded ids frees P F slots'
  | [], _ => .pure fun _ _ h => h
  | (field, value) :: rest, h => by
    obtain ⟨hvalue, hrest⟩ := List.append_subset.1 h
    refine (grounds_expr value hvalue).bind fun v => ?_
    refine (grounds_initSlot frees struct sig field v _ slots).bind fun slots' => ?_
    exact (grounds_inits struct sig span slots' rest hrest).weaken fun _ _ _ h hslots hv hs =>
      h (hslots hv hs)

theorem falling_stmt {p : Point → InitFacts → Prop} : (s : Stmt) → stmtFrees s ⊆ frees →
    Takes (checkStmt s) (Falling ids frees p)
  | .declare name mutable none none span, _ =>
    (steps_checkDeclare name mutable none none span fun _ _ _ _ hv => nomatch hv).falling
      fun _ => rfl
  | .declare name mutable (some t) none span, _ =>
    Grounds.falling ((reports_resolveType t span).quiet.passes.map (r := fun _ _ _ => True)
      fun _ _ _ h => h)
      fun ty => (steps_checkDeclare name mutable ty none span fun _ _ _ _ hv => nomatch hv).falling
        fun _ => rfl
  | .declare name mutable none (some value) span, h => by
    refine Grounds.falling (Grounds.pure (a := none) (q := fun _ _ _ => True) fun _ _ => trivial)
      fun ty => ?_
    exact Grounds.falling (grounds_expr value h) fun v => falling_declare name mutable ty v span
  | .declare name mutable (some t) (some value) span, h =>
    Grounds.falling ((reports_resolveType t span).quiet.passes.map (r := fun _ _ _ => True)
      fun _ _ _ h => h)
      fun ty => Grounds.falling (grounds_expr value h) fun v =>
        falling_declare name mutable ty v span
  | .assign target value span, h => by
    obtain ⟨-, hvalue⟩ := List.append_subset.1 h
    refine Grounds.falling (grounds_expr value hvalue) fun v => ?_
    have hassign : Takes (checkAssign target v span) fun env env' s => s.falls = true ∧
        Steps ids frees (fun P F => p P F ∧ v.Grounded ids frees P F) env env' s :=
      steps_checkAssign target v span fun P F hp => hp.2
    refine (hassign.bind fun s => Takes.pure (s, true)).weaken ?_
    rintro env env' _ ⟨s, _, ⟨hfalls, hs⟩, rfl, rfl⟩
    exact ⟨hfalls.symm, hs⟩
  | .branch condition thenBlock elifs elseBlock span, h => by
    simp only [stmtFrees, List.append_subset] at h
    obtain ⟨⟨⟨hc, ht⟩, hm⟩, hl⟩ := h
    refine Grounds.falling (reports_nullTest? condition).quiet.passes fun test => ?_
    refine Grounds.falling (grounds_expr condition hc).asCondition fun c => ?_
    refine falling_branch (fallingAll_stmts thenBlock ht) (fallingElifs_elifs elifs hm)
      (fallingElse_else elseBlock hl) c span (k := fun t m l paths => do
        match test with
        | some n =>
          if elifs.isEmpty && (if n.isNe then elseBlock.isSome && !l.2 else !t.2) &&
              !paths.isEmpty then
            narrow n.id n.inner
        | none => Pure.pure ()
        return (.branch c t.1 m.1 l.1 span, !paths.isEmpty)) (fun t m l paths => ?_) test
    have hrest : Takes (Pure.pure (TStmt.branch c t.1 m.1 l.1 span, !paths.isEmpty))
        fun env env' b =>
        b = (.branch c t.1 m.1 l.1 span, !paths.isEmpty) ∧ ∃ n, env' = { env with narrowed := n } :=
      (Takes.pure _).weaken fun env _ _ h => ⟨h.1, env.narrowed, h.2⟩
    cases test with
    | none => exact hrest
    | some test => exact takes_narrowingIf hrest
  | .loop condition body span, h => by
    obtain ⟨hc, hbody⟩ := List.append_subset.1 h
    refine Grounds.falling (grounds_expr condition hc).asCondition fun c => ?_
    exact falling_loop (fallingAll_stmts body hbody) c span
  | .block body span, h => falling_block (fallingAll_stmts body h) span
  | .ret none span, _ =>
    Grounds.falling quiet_reads.passes fun ret =>
      Grounds.falling (grounds_checkReturned none ret span)
      fun v => falling_plain (s := .ret v span) rfl fun P D F hp => by
        cases v with
        | none => trivial
        | some v => exact hp.2 (fun w hw => by cases hw) v rfl
  | .ret (some value) span, h =>
    Grounds.falling quiet_reads.passes fun ret => Grounds.falling (grounds_expr value h) fun v =>
      Grounds.falling (grounds_checkReturned (some v) ret span) fun v' =>
        falling_plain (s := .ret v' span) rfl fun P D F hp => by
          cases v' with
          | none => trivial
          | some v' => exact hp.2 (fun w hw => Option.some.inj hw ▸ hp.1.2) v' rfl
  | .breakLoop span, _ => Grounds.falling (reports_requireLoop "break" span).quiet.passes fun _ =>
    falling_plain (s := .breakLoop span) rfl fun _ _ _ _ => trivial
  | .continueLoop span, _ =>
    Grounds.falling (reports_requireLoop "continue" span).quiet.passes fun _ =>
    falling_plain (s := .continueLoop span) rfl fun _ _ _ _ => trivial
  | .free _ _, h => (steps_checkFree (h List.mem_cons_self)).falling fun _ => rfl
  | .collect span, _ => falling_plain (s := .collect span) rfl fun _ _ _ _ => trivial
  | .yieldNow span, _ =>
    Grounds.falling quiet_reads.passes fun inAsync => (Takes.reportedIf (c := (!inAsync) = true)
      (x := fun _ => Pure.pure (TStmt.yieldNow span, true))
        (falling_plain (s := .yieldNow span) rfl fun _ _ _ _ => trivial)).weaken fun _ _ _ h => h.2
  | .eval expr span, h => Grounds.falling (grounds_expr expr h) fun e =>
    falling_plain (s := .eval e span) rfl fun _ _ _ hp => hp.2

theorem fallingAll_stmts : (ss : List Stmt) → stmtsFrees ss ⊆ frees →
    Takes (checkStmts ss) (FallingAll ids frees)
  | [], _ => fallingAll_nil
  | s :: rest, h => by
    obtain ⟨hs, hrest⟩ := List.append_subset.1 h
    exact fallingAll_cons (falling_stmt s hs) (fallingAll_stmts rest hrest)

theorem fallingElse_else : (elseBlock : Option (List Stmt)) → elseFrees elseBlock ⊆ frees →
    Takes (checkElse elseBlock) (FallingElse ids frees)
  | none, _ => fallingElse_none
  | some body, h => fallingElse_some (fallingAll_stmts body h)

theorem fallingElifs_elifs : (elifs : List (Expr × List Stmt)) → elifsFrees elifs ⊆ frees →
    Takes (checkElifs elifs) (FallingElifs ids frees)
  | [], _ => fallingElifs_nil
  | (condition, body) :: rest, h => by
    simp only [elifsFrees, List.append_subset] at h
    obtain ⟨⟨hc, hbody⟩, hrest⟩ := h
    refine fallingElifs_after (reports_nullTest? condition).quiet.passes fun test => ?_
    exact fallingElifs_cons (grounds_expr condition hc).asCondition (fallingAll_stmts body hbody)
      (fallingElifs_elifs rest hrest) test

end

end Check

end ScopedScript
