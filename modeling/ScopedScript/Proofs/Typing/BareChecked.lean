import ScopedScript.Proofs.Typing.Bare
import ScopedScript.Proofs.Typing.Grounded
import ScopedScript.Proofs.Typing.Receivers

/-!
# Checking without early releases

Neither `free` nor `collect` leaves anything behind in the environment of the checker. So the bare
form of an accepted program is accepted, and the checked program that it gives is the bare form of
the one that was given before.
-/

namespace ScopedScript

namespace Check

/-- When the first computation ends without errors, the second ends in the same environment, with
the value of the first as changed by `f`. -/
def Follows (f : α → β) (x : Check α) (y : Check β) : Prop :=
  ∀ env : Env, (x env).2.errors = #[] → env.errors = #[] ∧ y env = (f (x env).1, (x env).2)

theorem Moves.takes {x : Check α} {h : List Nat → List Nat} {Q : Nat → α → Prop}
    (hx : Moves h x Q) : Takes x fun _ _ _ => True :=
  fun env he => ⟨(hx env he).1, trivial⟩

section

variable {f : α → α'} {g : β → β'} {x : Check α} {x' : Check α'}

theorem Follows.pure (f : α → α') (a : α) : Follows f (Pure.pure a) (Pure.pure (f a)) :=
  fun _ he => ⟨he, rfl⟩

theorem Follows.bind {y : α → Check β} {z : α' → Check β'} (hx : Follows f x x')
    (hy : ∀ a, Follows g (y a) (z (f a))) : Follows g (x >>= y) (x' >>= z) := by
  intro env he
  obtain ⟨he₁, hy⟩ := hy (x env).1 (x env).2 he
  obtain ⟨he₀, hx⟩ := hx env he₁
  refine ⟨he₀, ?_⟩
  change z (x' env).1 (x' env).2 = _
  rw [hx]
  exact hy

theorem Follows.map (hx : Follows f x x') {h : α → β} {k : α' → β'} (hg : ∀ a, k (f a) = g (h a)) :
    Follows g (h <$> x) (k <$> x') := by
  intro env he
  obtain ⟨he₀, hx⟩ := hx env he
  refine ⟨he₀, ?_⟩
  change (k (x' env).1, (x' env).2) = _
  rw [hx, hg]
  rfl

/-- A step that both computations take. -/
theorem Follows.step {T : Env → Env → α → Prop} (hx : Takes x T) {y : α → Check β}
    {y' : α → Check β'} (hy : ∀ a, Follows g (y a) (y' a)) : Follows g (x >>= y) (x >>= y') := by
  intro env he
  obtain ⟨he₁, hy⟩ := hy (x env).1 (x env).2 he
  exact ⟨(hx env he₁).1, hy⟩

theorem Follows.same {T : Env → Env → α → Prop} (hx : Takes x T) : Follows id x x :=
  fun env he => ⟨(hx env he).1, rfl⟩

/-- Nothing is said of a computation that reports an error. -/
theorem Follows.reported {T : Env → Env → α → Prop} {cause : TypeCause} {span : Option Span}
    (hx : Takes x T) : Follows f (report cause span >>= fun _ => x) x' :=
  fun env he => ((Takes.reported hx : Takes _ fun _ _ _ => False) env he).2.elim

theorem Follows.failed {a : α} {cause : TypeCause} {span : Option Span} :
    Follows f (report cause span >>= fun _ => Pure.pure a) x' :=
  .reported (Takes.pure a)

theorem Follows.reportedIf {c : Prop} [Decidable c] {x : Unit → Check α} {x' : Unit → Check α'}
    {cause : TypeCause} {span : Option Span} (hx : ∀ a, Follows f (x a) (x' a)) :
    Follows f (if c then report cause span >>= x else x ())
      (if c then report cause span >>= x' else x' ()) := by
  split
  · exact .step (steady_report (Q := fun _ _ => True) _ _).takes hx
  · exact hx ()

end

/-! ## The steps of the checker, apart from the trees that they go through -/

theorem follows_coerce (e : TExpr) (target : Ty) :
    Follows TExpr.bare (coerce e target) (coerce e.bare target) := by
  unfold coerce
  rw [TExpr.ty_bare, TExpr.span_bare]
  split
  · exact .pure _ e
  · split
    · exact .failed
    · exact .pure TExpr.bare (TExpr.mk (.unbox e) _ _)
    · exact .pure TExpr.bare (TExpr.mk (.box e) _ _)
    · split
      · exact .failed
      · exact .pure _ e

theorem follows_coerceSome (e : TExpr) (target : Ty) : Follows (Option.map TExpr.bare)
    (some <$> coerce e target) (some <$> coerce e.bare target) :=
  (follows_coerce e target).map fun _ => rfl

theorem Follows.asCondition {x x' : Check TExpr} (hx : Follows TExpr.bare x x') :
    Follows TExpr.bare (asCondition x) (asCondition x') :=
  hx.bind fun e => follows_coerce e .bool

theorem Follows.inBlock {f : α → α'} {x : Check α} {x' : Check α'} (hx : Follows f x x') :
    Follows f (inBlock x) (inBlock x') :=
  .step (takes_modifyContext _) fun _ => .step (takes_reads _) fun mark => hx.bind fun _ =>
    .step (steady_setNarrowings mark).takes fun _ =>
      .step (takes_modifyContext _) fun _ => .pure f _

theorem follows_checkName (name : String) (span : Option Span) :
    Follows TExpr.bare (checkName name span) (checkName name span) := by
  refine .step (takes_lookup name) fun v => ?_
  split
  · rename_i v
    refine .step (takes_reads _) fun state => ?_
    have hrest : Follows TExpr.bare (narrowedType? v.id >>= fun ty =>
        Pure.pure (TExpr.mk (.binding name) (ty.getD v.ty) span)) (narrowedType? v.id >>= fun ty =>
        Pure.pure (TExpr.mk (.binding name) (ty.getD v.ty) span)) :=
      .step (takes_reads _) fun _ => .pure TExpr.bare _
    split
    · exact hrest
    · exact .step (steady_report (Q := fun _ _ => True) _ _).takes fun _ => hrest
    · exact .step (steady_report (Q := fun _ _ => True) _ _).takes fun _ => hrest
  · refine .step (takes_reads _) fun sig => ?_
    split
    · exact .reportedIf fun _ => .pure TExpr.bare _
    · refine .step (takes_reads _) fun sig => ?_
      split
      · exact .pure TExpr.bare _
      · exact .failed

theorem follows_castTo (value : TExpr) (target : Ty) (span : Option Span) :
    Follows TExpr.bare (castTo value target span) (castTo value.bare target span) := by
  unfold castTo
  rw [TExpr.ty_bare]
  have hrest : Follows TExpr.bare (Pure.pure (TExpr.mk (.cast value) target span))
      (Pure.pure (TExpr.mk (.cast value.bare) target span)) := .pure TExpr.bare _
  split
  · exact .failed
  · split
    · exact .failed
    · exact .reportedIf fun _ => hrest

/-- The slots of an initializer without early releases. -/
abbrev slotsBare (slots : List (Option TExpr)) : List (Option TExpr) :=
  slots.map (Option.map TExpr.bare)

theorem follows_initSlot (struct : String) (sig : StructSig) (field : String) (value : TExpr)
    (span : Option Span) (slots : List (Option TExpr)) :
    Follows slotsBare (initSlot struct sig field value span slots)
      (initSlot struct sig field value.bare span (slotsBare slots)) := by
  unfold initSlot
  split
  · rename_i index ty _
    split
    · exact .failed
    · rename_i hslot
      have hslot' : ∀ v, (slotsBare slots)[index]? ≠ some (some v) := by
        intro v hv
        rw [List.getElem?_map, Option.map_eq_some_iff] at hv
        obtain ⟨o, ho, hv⟩ := hv
        obtain ⟨w, rfl, -⟩ := Option.map_eq_some_iff.1 hv
        exact hslot w ho
      split
      · rename_i v hv
        exact absurd hv (hslot' v)
      · refine (follows_coerce value ty).bind fun v => ?_
        have hset : (slotsBare slots).set index (some v.bare) =
            slotsBare (slots.set index (some v)) :=
          (List.map_set (f := Option.map TExpr.bare) (l := slots) (a := some v)).symm
        rw [hset]
        exact .pure slotsBare _
  · exact .failed

theorem follows_fillSlots (struct : String) (span : Option Span) : (fields : List (String × Ty)) →
    (slots : List (Option TExpr)) →
    Follows texprsBare (fillSlots struct span fields slots)
      (fillSlots struct span fields (slotsBare slots))
  | (_, _) :: fields, some _ :: slots =>
    (follows_fillSlots struct span fields slots).bind fun _ => .pure texprsBare (_ :: _)
  | (_, _) :: fields, none :: slots =>
    .step (steady_report (Q := fun _ _ => True) _ _).takes fun _ =>
      (follows_fillSlots struct span fields slots).bind fun _ => .pure texprsBare (_ :: _)
  | [], _ => .pure texprsBare []
  | _ :: _, [] => .pure texprsBare []

theorem declaredType_bare (name : String) (stated : Option Ty) (value : Option TExpr)
    (span : Option Span) :
    declaredType name stated (value.map TExpr.bare) span = declaredType name stated value span := by
  cases stated with
  | some t => rfl
  | none =>
    cases value with
    | none => rfl
    | some v => simp only [declaredType, Option.map_some, TExpr.ty_bare, TExpr.span_bare]

theorem follows_checkDeclare (name : String) (mutable : Bool) (stated : Option Ty)
    (value : Option TExpr) (span : Option Span) :
    Follows TStmt.bare (checkDeclare name mutable stated value span)
      (checkDeclare name mutable stated (value.map TExpr.bare) span) := by
  unfold checkDeclare
  rw [declaredType_bare]
  refine .step (reports_declaredType name stated value span).steady.takes fun ty => ?_
  have hrest (v : Option TExpr) (state : InitState) :
      Follows TStmt.bare (declare name ty mutable .letBound state span >>= fun _ =>
          Pure.pure (.declare name mutable ty v span))
        (declare name ty mutable .letBound state span >>= fun _ =>
          Pure.pure (.declare name mutable ty (v.map TExpr.bare) span)) := by
    refine .step (Moves.takes (restores_declare _ _ _ _ _ _).steady) fun _ => ?_
    cases v with
    | none => exact .pure TStmt.bare _
    | some v => exact .pure TStmt.bare (.declare name mutable ty (some v) span)
  cases value with
  | none => exact hrest none _
  | some v =>
    refine (follows_coerceSome v ty).bind fun v' => ?_
    dsimp only
    rw [Option.isSome_map]
    exact hrest v' _

theorem follows_checkAssign (target : Expr) (value : TExpr) (span : Option Span) :
    Follows TStmt.bare (checkAssign target value span)
      (checkAssign target.bare value.bare span) := by
  unfold checkAssign
  rw [Expr.fieldChain_bare, Expr.span_bare]
  generalize fieldChain target = chain
  obtain ⟨root, fields⟩ := chain
  have hinvalid {x' : Check TStmt} : Follows TStmt.bare
      (reportInvalid .assignTarget (target.span.or span) >>= fun _ =>
        Pure.pure (.eval value span)) x' :=
    .failed
  cases root with
  | name name rootSpan =>
    refine .step (takes_lookup name) fun v => ?_
    split
    · refine .step (takes_reads _) fun sig => ?_
      split
      · exact .failed
      · exact .failed
    · rename_i v
      split
      · exact .step (reports_checkBindingWrite name v span).steady.takes fun _ =>
          (follows_coerce value v.ty).bind fun w =>
            .step (restores_markInit v.id).steady.takes fun _ =>
            .pure TStmt.bare (.assign _ w span)
      · exact .step (reports_checkFieldWrite name v fields span).steady.takes fun r =>
          (follows_coerce value r.2).bind fun w => .pure TStmt.bare (.assign _ w span)
  | _ => exact hinvalid

theorem follows_checkReturned (value : Option TExpr) (ret : Ty) (span : Option Span) :
    Follows (Option.map TExpr.bare) (checkReturned value ret span)
      (checkReturned (value.map TExpr.bare) ret span) := by
  cases value with
  | none => exact .reportedIf fun _ => .pure (Option.map TExpr.bare) none
  | some v =>
    rw [Option.map_some]
    unfold checkReturned
    dsimp only
    rw [TExpr.ty_bare]
    split
    · exact .failed
    · exact follows_coerceSome v ret

/-! ## Statements that release bindings -/

/-- A step that leaves no trace in the environment. -/
theorem Follows.skip {g : β → β'} {x : Check α} (hx : Takes x fun env env' _ => env' = env)
    {y : α → Check β} {y' : Check β'} (hy : ∀ a, Follows g (y a) y') : Follows g (x >>= y) y' := by
  intro env he
  obtain ⟨he₁, hy⟩ := hy (x env).1 (x env).2 he
  obtain ⟨he₀, hx⟩ := hx env he₁
  have hsame : y' env = y' (x env).2 := by rw [hx]
  exact ⟨he₀, hsame.trans hy⟩

/-! What is checked of statements, without the early releases. -/

abbrev stmtBare (r : TStmt × Bool) : TStmt × Bool := (r.1.bare, r.2)

abbrev blockBare (r : List TStmt × Bool) : List TStmt × Bool := (tstmtsBare r.1, r.2)

abbrev elseBare (r : Option (List TStmt) × Bool) : Option (List TStmt) × Bool :=
  (telseBare r.1, r.2)

abbrev elifsBare (r : List (TExpr × List TStmt) × List InitFacts) :
    List (TExpr × List TStmt) × List InitFacts := (telifsBare r.1, r.2)

theorem follows_released {s : Stmt} (hs : s.releases = true) {rest rest' : List Stmt}
    (hrest : Follows blockBare (checkStmts rest) (checkStmts rest')) :
    Follows blockBare (checkStmts (s :: rest)) (checkStmts rest') := by
  cases s with
  | free name span =>
    exact .skip ((takes_checkFree name span).weaken fun _ _ _ h => h.1) fun _ => hrest
  | collect span => exact hrest
  | _ => cases hs

theorem gives_checkDeclare_kept (name : String) (mutable : Bool) (stated : Option Ty)
    (value : Option TExpr) (span : Option Span) :
    Gives (checkDeclare name mutable stated value span) fun s => s.isRelease = false := by
  refine .after fun ty => ?_
  cases value with
  | none => exact .after fun _ => .pure rfl
  | some v => exact .after fun _ => .after fun _ => .pure rfl

theorem gives_checkAssign_kept (target : Expr) (value : TExpr) (span : Option Span) :
    Gives (checkAssign target value span) fun s => s.isRelease = false := by
  unfold checkAssign
  split
  split
  · refine .after fun v => ?_
    cases v with
    | none =>
      refine .after fun sig => ?_
      split
      · exact .after fun _ => .pure rfl
      · exact .after fun _ => .pure rfl
    | some v =>
      dsimp only
      split
      · exact .after fun _ => .after fun _ => .after fun _ => .pure rfl
      · exact .after fun _ => .after fun _ => .pure rfl
  · exact .after fun _ => .pure rfl

/-- Other statements stay what they are. -/
theorem gives_checkStmt_kept {s : Stmt} (hs : s.releases = false) :
    Gives (checkStmt s) fun r => r.1.isRelease = false := by
  have hpair {x : Check TStmt} (hx : Gives x fun s => s.isRelease = false) :
      Gives (x >>= fun s => Pure.pure (s, true)) fun r => r.1.isRelease = false :=
    hx.bind fun _ h => .pure h
  cases s with
  | declare name mutable type value span =>
    cases value with
    | none => cases type <;> exact .after fun _ => hpair (gives_checkDeclare_kept _ _ _ _ _)
    | some v =>
      cases type <;>
        exact .after fun _ => .after fun _ => hpair (gives_checkDeclare_kept _ _ _ _ _)
  | assign target value span => exact .after fun _ => hpair (gives_checkAssign_kept _ _ _)
  | branch condition thenBlock elifs elseBlock span =>
    refine .after fun test => .after fun c => .after fun _ => .after fun _ => .after fun _ =>
      .after fun t => .after fun _ => .after fun _ => .after fun _ => .after fun _ =>
      .after fun m => .after fun l => .after fun _ => .after fun _ => .after fun _ => ?_
    cases test with
    | none => exact .pure rfl
    | some test => exact .afterIf fun _ => .pure rfl
  | loop condition body span =>
    exact .after fun c => .after fun _ => .after fun _ => .after fun _ => .after fun _ =>
      .after fun _ => .after fun _ => .pure rfl
  | block body span => exact .after fun _ => .pure rfl
  | ret value span =>
    cases value with
    | none => exact .after fun _ => .after fun _ => .pure rfl
    | some v => exact .after fun _ => .after fun _ => .after fun _ => .pure rfl
  | breakLoop span | continueLoop span => exact .after fun _ => .pure rfl
  | yieldNow span => exact .after fun _ => .afterIf fun _ => .pure rfl
  | eval expr span => exact .after fun _ => .pure rfl
  | free name span | collect span => cases hs

/-- A statement that stays, and those after it. -/
theorem follows_kept {s : Stmt} (hs : s.releases = false) {rest : List Stmt}
    (hstmt : Follows stmtBare (checkStmt s) (checkStmt s.bare))
    (hrest : Follows blockBare (checkStmts rest) (checkStmts (stmtsBare rest))) :
    Follows blockBare (checkStmts (s :: rest)) (checkStmts (s.bare :: stmtsBare rest)) := by
  have hkept := gives_checkStmt_kept hs
  have h : Follows (fun r => (if r.1.isRelease then [] else [r.1.bare], r.2)) (checkStmt s)
      ((fun r => ([r.1], r.2)) <$> checkStmt s.bare) := by
    intro env he
    obtain ⟨he₀, h⟩ := hstmt env he
    refine ⟨he₀, ?_⟩
    change (([(checkStmt s.bare env).1.1], (checkStmt s.bare env).1.2),
      (checkStmt s.bare env).2) = _
    rw [h]
    dsimp only
    rw [hkept env]
    rfl
  refine Follows.bind (z := fun r => checkStmts (stmtsBare rest) >>= fun more =>
    Pure.pure (r.1 ++ more.1, r.2 && more.2)) h fun r => hrest.bind fun more => ?_
  have hmore : tstmtsBare (r.1 :: more.1) =
      (if r.1.isRelease then [] else [r.1.bare]) ++ tstmtsBare more.1 := by
    rw [tstmtsBare]
    split <;> rfl
  dsimp only
  rw [← hmore]
  exact .pure blockBare (r.1 :: more.1, r.2 && more.2)

/-! ## Expressions and statements -/

/-- The task that is started, without early releases. -/
abbrev startBare (r : String × List TExpr × Ty) : String × List TExpr × Ty :=
  (r.1, texprsBare r.2.1, r.2.2)

theorem follows_declareEach (params : List TParam) {g : β → β'} {y : PUnit → Check β}
    {y' : PUnit → Check β'} (hy : ∀ a, Follows g (y a) (y' a)) :
    Follows g (forIn params PUnit.unit (fun p (_ : PUnit) => do
        declare p.name p.ty p.mutable .param .init p.span
        Pure.pure (ForInStep.yield PUnit.unit)) >>= y)
      (forIn params PUnit.unit (fun p (_ : PUnit) => do
        declare p.name p.ty p.mutable .param .init p.span
        Pure.pure (ForInStep.yield PUnit.unit)) >>= y') :=
  .step (Moves.takes (restores_declareEach params).steady) hy

theorem Follows.narrowingIf {g : β → β'} {c : Prop} [Decidable c] {id : Nat} {ty : Ty}
    {y : Unit → Check β} {y' : Unit → Check β'} (hy : ∀ a, Follows g (y a) (y' a)) :
    Follows g (if c then narrow id ty >>= y else y ())
      (if c then narrow id ty >>= y' else y' ()) := by
  split
  · exact .step (steady_narrow id ty).takes hy
  · exact hy ()

mutual

theorem follows_expr : (e : Expr) → Follows TExpr.bare (checkExpr e) (checkExpr e.bare)
  | .int _ _ | .float _ _ | .bool _ _ | .string _ _ | .null _ => .pure TExpr.bare _
  | .name name span => follows_checkName name span
  | .binary op left right span => by
    refine (follows_expr left).bind fun l => (follows_expr right).bind fun r => ?_
    rw [TExpr.ty_bare, TExpr.ty_bare]
    exact .step (reports_binaryType op l.ty r.ty span).steady.takes fun _ => .pure TExpr.bare _
  | .unary .not operand _ =>
    (follows_expr operand).bind fun e => (follows_coerce e .bool).bind fun e' =>
      .pure TExpr.bare (.mk (.unary .not e') _ _)
  | .unary .neg operand span => by
    refine (follows_expr operand).bind fun e => ?_
    rw [TExpr.ty_bare]
    exact .step (reports_negationType e.ty span).steady.takes fun _ =>
      .pure TExpr.bare (.mk (.unary .neg e) _ _)
  | .logical op left right _ =>
    (follows_expr left).asCondition.bind fun _ => (follows_expr right).asCondition.bind fun _ =>
      .pure TExpr.bare (.mk (.logical op _ _) _ _)
  | .call callee args span => by
    rw [Expr.bare, checkExpr, checkExpr, Expr.namedCallee?_bare, length_exprsBare]
    refine .step (reports_namedCallee? callee).steady.takes fun c => ?_
    cases c with
    | some c =>
      obtain ⟨target, name, sig⟩ := c
      refine .reportedIf fun _ => .step (reports_checkArity _ _ _ _).steady.takes fun _ => ?_
      exact (follows_args sig.params args).bind fun _ => .pure TExpr.bare (.mk (.call target _) _ _)
    | none =>
      refine (follows_expr callee).bind fun c => ?_
      rw [TExpr.ty_bare]
      cases c.ty with
      | function params ret =>
        exact .step (reports_checkArity _ _ _ _).steady.takes fun _ =>
          (follows_args params args).bind fun _ => .pure TExpr.bare (.mk (.callValue c _) _ _)
      | any =>
        exact (follows_boxed args).bind fun _ => .pure TExpr.bare (.mk (.callDynamic c _) _ _)
      | _ => exact .failed
  | .methodCall object method args span => by
    rw [Expr.bare, checkExpr, checkExpr, length_exprsBare]
    refine (follows_expr object).bind fun r => ?_
    rw [TExpr.ty_bare]
    cases r.ty with
    | struct struct =>
      refine .step (takes_reads _) fun sig => ?_
      cases sig.bind fun sig => sig.methods.lookup method with
      | none => exact .failed
      | some sig =>
        exact .step (reports_checkArity _ _ _ _).steady.takes fun _ =>
          (follows_args sig.params args).bind fun es =>
            .pure TExpr.bare (.mk (.call (.method struct method) (r :: es)) _ _)
    | any =>
      exact (follows_boxed args).bind fun es =>
        .pure TExpr.bare (.mk (.callMethodDynamic method (r :: es)) _ _)
    | _ => exact .failed
  | .field object field span => by
    refine (follows_expr object).bind fun e => ?_
    rw [TExpr.ty_bare]
    exact .step (reports_fieldType e.ty field span).steady.takes fun r =>
      .pure TExpr.bare (.mk (.field e field r.1) _ _)
  | .structInit name fields span => by
    refine .step (takes_reads _) fun sig => ?_
    cases sig with
    | none => exact (follows_values fields).bind fun _ => .failed
    | some sig =>
      have hslots : slotsBare (List.replicate sig.fields.length none) =
          List.replicate sig.fields.length none := List.map_replicate
      have hinits := follows_inits name sig span (List.replicate sig.fields.length none) fields
      rw [hslots] at hinits
      exact hinits.bind fun slots =>
        (follows_fillSlots name span sig.fields slots).bind fun values =>
        .pure TExpr.bare (.mk (.structInit name values) _ _)
  | .lambda params ret body span => by
    refine .step (reports_resolveReturn ret span).steady.takes fun ret => ?_
    refine .step (steady_mapM (fun p => ?_) params).takes fun params => ?_
    · exact (reports_resolveType _ _).steady.after fun _ => .pure fun _ => trivial
    refine .step (takes_enterFunction _ _) fun _ => follows_declareEach params fun _ =>
      (follows_stmts body).bind fun r => .reportedIf fun _ =>
        .step takes_exitFunction fun captures => ?_
    exact .pure TExpr.bare (.mk (.lambda params ret r.1 captures) _ _)
  | .spawn call span => by
    refine (follows_start span call).bind fun s => ?_
    cases s with
    | some s => exact .pure TExpr.bare (.mk (.spawn s.1 s.2.1) _ _)
    | none => exact (follows_expr call).bind fun _ => .failed
  | .await task span => by
    refine .step (takes_reads _) fun _ => .reportedIf fun _ =>
      (follows_start span task).bind fun s => ?_
    have hrest (t : TExpr) : Follows TExpr.bare (awaitedType t.ty span >>= fun ty =>
        Pure.pure (TExpr.mk (.await t) ty span)) (awaitedType t.bare.ty span >>= fun ty =>
        Pure.pure (TExpr.mk (.await t.bare) ty span)) := by
      rw [TExpr.ty_bare]
      exact .step (reports_awaitedType t.ty span).steady.takes fun ty =>
        .pure TExpr.bare (.mk (.await t) ty _)
    cases s with
    | some s =>
      rw [Expr.span_bare]
      exact hrest (.mk (.spawn s.1 s.2.1) _ _)
    | none => exact (follows_expr task).bind hrest
  | .cast value type span =>
    (follows_expr value).bind fun v =>
      .step (reports_resolveType type span).steady.takes fun target =>
      follows_castTo v target span
  | .format parts span =>
    (follows_parts span parts).bind fun es => .pure TExpr.bare (.mk (.format es) _ _)

theorem follows_start (span : Option Span) : (e : Expr) →
    Follows (Option.map startBare) (checkStart span e) (checkStart span e.bare)
  | .call (.name name _) args _ => by
    refine .step (reports_asyncSig? name).steady.takes fun sig => ?_
    cases sig with
    | none => exact .pure (Option.map startBare) none
    | some sig =>
      rw [length_exprsBare]
      exact .step (reports_checkArity _ _ _ _).steady.takes fun _ =>
        (follows_args sig.params args).bind fun es =>
        .pure (Option.map startBare) (some (name, es, sig.ret))
  | .int _ _ | .float _ _ | .bool _ _ | .string _ _ | .null _ | .name _ _ | .binary _ _ _ _
  | .unary _ _ _ | .logical _ _ _ _ | .methodCall _ _ _ _ | .field _ _ _ | .structInit _ _ _
  | .lambda _ _ _ _ | .spawn _ _ | .await _ _ | .cast _ _ _ | .format _ _
  | .call (.int _ _) _ _ | .call (.float _ _) _ _ | .call (.bool _ _) _ _ | .call (.string _ _) _ _
  | .call (.null _) _ _ | .call (.binary _ _ _ _) _ _ | .call (.unary _ _ _) _ _
  | .call (.logical _ _ _ _) _ _ | .call (.call _ _ _) _ _ | .call (.methodCall _ _ _ _) _ _
  | .call (.field _ _ _) _ _ | .call (.structInit _ _ _) _ _ | .call (.lambda _ _ _ _) _ _
  | .call (.spawn _ _) _ _ | .call (.await _ _) _ _ | .call (.cast _ _ _) _ _
  | .call (.format _ _) _ _ => .pure (Option.map startBare) none

theorem follows_args : (params : List Ty) → (args : List Expr) →
    Follows texprsBare (checkArgs params args) (checkArgs params (exprsBare args))
  | _, [] => .pure texprsBare []
  | params, arg :: rest => by
    refine (follows_expr arg).bind fun e => ?_
    have hrest (e' : TExpr) : Follows texprsBare (checkArgs params.tail rest >>= fun es =>
        Pure.pure (e' :: es)) (checkArgs params.tail (exprsBare rest) >>= fun es =>
        Pure.pure (e'.bare :: es)) :=
      (follows_args params.tail rest).bind fun es => .pure texprsBare (e' :: es)
    cases params.head? with
    | some ty => exact (follows_coerce e ty).bind hrest
    | none => exact hrest e

theorem follows_boxed : (args : List Expr) →
    Follows texprsBare (checkBoxed args) (checkBoxed (exprsBare args))
  | [] => .pure texprsBare []
  | arg :: rest =>
    (follows_expr arg).bind fun e => (follows_coerce e .any).bind fun e' =>
      (follows_boxed rest).bind fun es => .pure texprsBare (e' :: es)

theorem follows_parts (span : Option Span) : (parts : List Expr) →
    Follows texprsBare (checkParts span parts) (checkParts span (exprsBare parts))
  | [] => .pure texprsBare []
  | part :: rest => by
    refine (follows_expr part).bind fun e => ?_
    rw [TExpr.ty_bare, TExpr.span_bare]
    exact .reportedIf fun _ => (follows_parts span rest).bind fun es => .pure texprsBare (e :: es)

theorem follows_values : (fields : List (String × Expr)) →
    Follows id (checkValues fields) (checkValues (fieldsBare fields))
  | [] => .pure id ()
  | (_, value) :: rest => (follows_expr value).bind fun _ => follows_values rest

theorem follows_inits (struct : String) (sig : StructSig) (span : Option Span)
    (slots : List (Option TExpr)) : (fields : List (String × Expr)) →
    Follows slotsBare (checkInits struct sig span slots fields)
      (checkInits struct sig span (slotsBare slots) (fieldsBare fields))
  | [] => .pure slotsBare slots
  | (field, value) :: rest => by
    refine (follows_expr value).bind fun v => ?_
    rw [Expr.span_bare]
    exact (follows_initSlot struct sig field v _ slots).bind fun slots' =>
      follows_inits struct sig span slots' rest

theorem follows_stmt : (s : Stmt) →
    Follows stmtBare (checkStmt s) (checkStmt s.bare)
  | .declare name mutable none none span =>
    .step (Takes.pure none) fun stated =>
      (follows_checkDeclare name mutable stated none span).bind fun s => .pure stmtBare (s, true)
  | .declare name mutable (some t) none span =>
    ((Follows.same (reports_resolveType t span).steady.takes).map (g := id) (h := some) (k := some)
      fun _ => rfl).bind fun ty =>
        (follows_checkDeclare name mutable ty none span).bind fun s => .pure stmtBare (s, true)
  | .declare name mutable none (some value) span =>
    .step (Takes.pure none) fun stated => (follows_expr value).bind fun v =>
      (follows_checkDeclare name mutable stated (some v) span).bind fun s =>
        .pure stmtBare (s, true)
  | .declare name mutable (some t) (some value) span =>
    ((Follows.same (reports_resolveType t span).steady.takes).map (g := id) (h := some) (k := some)
      fun _ => rfl).bind fun ty => (follows_expr value).bind fun v =>
        (follows_checkDeclare name mutable ty (some v) span).bind fun s => .pure stmtBare (s, true)
  | .assign target value span =>
    (follows_expr value).bind fun v => (follows_checkAssign target v span).bind fun s =>
      .pure stmtBare (s, true)
  | .branch condition thenBlock elifs elseBlock span => by
    rw [Stmt.bare, checkStmt, checkStmt, Expr.nullTest?_bare, isEmpty_elifsBare, isSome_elseBare]
    refine .step (reports_nullTest? condition).steady.takes fun test => ?_
    refine (follows_expr condition).asCondition.bind fun c => ?_
    refine .step (takes_reads _) fun before => .step (takes_reads _) fun mark => ?_
    refine .step (steady_narrowWhere test true).takes fun _ => ?_
    refine (follows_stmts thenBlock).inBlock.bind fun t => ?_
    refine .step (steady_setNarrowings mark).takes fun _ =>
      .step (reports_pathEnd t.2).steady.takes fun paths => ?_
    refine .step (restores_setInitFacts before).steady.takes fun _ =>
      .step (steady_narrowWhere test false).takes fun _ => ?_
    refine (follows_elifs elifs).bind fun m => (follows_else elseBlock).bind fun l => ?_
    refine .step (reports_pathEnd l.2).steady.takes fun elsePaths =>
      .step (steady_setNarrowings mark).takes fun _ => ?_
    refine .step (restores_mergePaths _).steady.takes fun _ => ?_
    cases test with
    | none => exact .pure stmtBare (.branch c t.1 m.1 l.1 span, _)
    | some test => exact .narrowingIf fun _ => .pure stmtBare (.branch c t.1 m.1 l.1 span, _)
  | .loop condition body span =>
    (follows_expr condition).asCondition.bind fun c => .step (takes_reads _) fun before =>
      .step (takes_modifyContext _) fun _ => (follows_stmts body).inBlock.bind fun r =>
        .step (takes_modifyContext _) fun _ => .step (takes_reads _) fun after =>
          .step (restores_mergePaths _).steady.takes fun _ =>
            .pure stmtBare (.loop c r.1 span, true)
  | .block body span => (follows_stmts body).inBlock.bind fun r =>
    .pure stmtBare (.block r.1 span, r.2)
  | .ret none span =>
    .step (takes_reads _) fun ret => (follows_checkReturned none ret span).bind fun v => by
      cases v with
      | none => exact .pure stmtBare (.ret none span, false)
      | some v => exact .pure stmtBare (.ret (some v) span, false)
  | .ret (some value) span =>
    .step (takes_reads _) fun ret => (follows_expr value).bind fun v =>
      (follows_checkReturned (some v) ret span).bind fun v => by
        cases v with
        | none => exact .pure stmtBare (.ret none span, false)
        | some v => exact .pure stmtBare (.ret (some v) span, false)
  | .breakLoop span =>
    .step (steady_requireLoop "break" span).takes fun _ => .pure stmtBare (.breakLoop span, false)
  | .continueLoop span =>
    .step (steady_requireLoop "continue" span).takes fun _ =>
      .pure stmtBare (.continueLoop span, false)
  | .free name span =>
    .step (restores_checkFree name span).declaring.steady.takes fun _ =>
      .pure stmtBare (.free name span, true)
  | .collect span => .pure stmtBare (.collect span, true)
  | .yieldNow span =>
    .step (takes_reads _) fun _ => .reportedIf fun _ => .pure stmtBare (.yieldNow span, true)
  | .eval expr span => (follows_expr expr).bind fun e => .pure stmtBare (.eval e span, true)

theorem follows_stmts : (ss : List Stmt) →
    Follows blockBare (checkStmts ss) (checkStmts (stmtsBare ss))
  | [] => .pure blockBare ([], true)
  | s :: rest => by
    rw [stmtsBare]
    split
    · rename_i hs
      exact follows_released hs (follows_stmts rest)
    · rename_i hs
      exact follows_kept (Bool.eq_false_of_not_eq_true hs) (follows_stmt s) (follows_stmts rest)

theorem follows_else : (elseBlock : Option (List Stmt)) →
    Follows elseBare (checkElse elseBlock) (checkElse (ScopedScript.elseBare elseBlock))
  | none => .pure elseBare (none, true)
  | some body => (follows_stmts body).inBlock.bind fun r => .pure elseBare (some r.1, r.2)

theorem follows_elifs : (elifs : List (Expr × List Stmt)) →
    Follows elifsBare (checkElifs elifs) (checkElifs (ScopedScript.elifsBare elifs))
  | [] => .pure elifsBare ([], [])
  | (condition, body) :: rest => by
    rw [ScopedScript.elifsBare, checkElifs, checkElifs, Expr.nullTest?_bare]
    refine .step (reports_nullTest? condition).steady.takes fun test => ?_
    refine (follows_expr condition).asCondition.bind fun c => ?_
    refine .step (takes_reads _) fun before => .step (takes_reads _) fun mark => ?_
    refine .step (steady_narrowWhere test true).takes fun _ => ?_
    refine (follows_stmts body).inBlock.bind fun b => ?_
    refine .step (steady_setNarrowings mark).takes fun _ =>
      .step (reports_pathEnd b.2).steady.takes fun paths => ?_
    refine .step (restores_setInitFacts before).steady.takes fun _ =>
      (follows_elifs rest).bind fun m => ?_
    exact .pure elifsBare ((c, b.1) :: m.1, paths ++ m.2)

end

/-! ## Programs -/

theorem declareMethods_bare (d : StructDecl) (sig : StructSig) (methods : List FunctionDecl) :
    declareMethods d.bare sig (methods.map FunctionDecl.bare) = declareMethods d sig methods := by
  induction methods generalizing sig with
  | nil => rfl
  | cons method rest ih =>
    rw [List.map_cons]
    unfold declareMethods
    simp only [ih]
    rfl

theorem declareFields_bare (d : StructDecl) (sig : StructSig) (fields : List FieldDecl) :
    declareFields d.bare sig fields = declareFields d sig fields := by
  induction fields generalizing sig with
  | nil => rfl
  | cons field rest ih =>
    unfold declareFields
    simp only [ih]
    rfl

theorem declareStruct_bare (d : StructDecl) : declareStruct d.bare = declareStruct d := by
  unfold declareStruct
  rw [declareFields_bare]
  refine bind_congr fun sig => ?_
  have h := declareMethods_bare d sig d.methods
  change (declareMethods d.bare sig (d.methods.map FunctionDecl.bare) >>= _) = _
  rw [h]
  rfl

/-- Names are declared without looking at any statement. -/
theorem declareItems_bare (p : Program) : declareItems p.bare = declareItems p := by
  unfold declareItems
  rw [Program.structs_bare, Program.functions_bare]
  simp only [List.forM_eq_forM, List.forM_map, declareStruct_bare]
  rfl

theorem structInfo?_bare (d : StructDecl) : structInfo? d.bare = structInfo? d := by
  have h : d.bare.methods.map FunctionDecl.name = d.methods.map FunctionDecl.name := List.map_map
  unfold structInfo?
  rw [h]
  rfl

theorem follows_function (struct : Option String) (d : FunctionDecl) :
    Follows TFunction.bare (checkFunction struct d) (checkFunction struct d.bare) := by
  refine .step (steady_declaredSignature d struct).takes fun sig => ?_
  refine .step (takes_enterFunction _ _) fun _ =>
    .step (steady_declareSelf d struct).takes fun receiver => ?_
  refine .step (Moves.takes (steady_declareParams _ _ _)) fun params =>
    (follows_stmts d.body).bind fun r => ?_
  refine .reportedIf fun _ => .step takes_exitFunction fun _ => ?_
  exact .pure TFunction.bare ⟨_, params, sig.ret, r.1, d.isAsync, d.span⟩

theorem Follows.mapM {f : β → β'} {h : α → α'} {x : α → Check β} {x' : α' → Check β'}
    (hx : ∀ a, Follows f (x a) (x' (h a))) (as : List α) :
    Follows (List.map f) (as.mapM x) ((as.map h).mapM x') := by
  induction as with
  | nil => exact .pure (List.map f) []
  | cons a rest ih =>
    rw [List.map_cons, List.mapM_cons, List.mapM_cons]
    exact (hx a).bind fun b => ih.bind fun bs => .pure (List.map f) (b :: bs)

theorem follows_item (item : Item) :
    Follows (List.map TFunction.bare) (checkItem item) (checkItem item.bare) := by
  cases item with
  | function d => exact (follows_function none d).bind fun f => .pure (List.map TFunction.bare) [f]
  | struct d => exact .mapM (follows_function (some d.name)) d.methods

theorem follows_items (p : Program) : Follows TProgram.bare (checkItems p) (checkItems p.bare) := by
  have hstructs : p.bare.structs.mapM structInfo? = p.structs.mapM structInfo? := by
    rw [Program.structs_bare, List.mapM_map]
    exact congrArg (List.mapM · p.structs) (funext structInfo?_bare)
  unfold checkItems
  rw [declareItems_bare, hstructs]
  refine .step (steady_declareItems p).takes fun _ => ?_
  refine .step (Moves.takes (steady_mapM (fun d => ?_) p.structs)) fun structs => ?_
  · refine (steady_structSig? d.name).after fun sig => ?_
    split <;> exact .pure fun _ => trivial
  refine (Follows.mapM follows_item p.items).bind fun functions => ?_
  have hflat : (functions.map (List.map TFunction.bare)).flatten =
      functions.flatten.map TFunction.bare := List.map_flatten.symm
  rw [hflat]
  exact .pure TProgram.bare ⟨structs.filterMap id, functions.flatten, p.source⟩

end Check

/-- The bare form of an accepted program is accepted. -/
theorem Program.check_bare {p : Program} {natives : List (String × Signature)} {t : TProgram}
    (h : p.check natives = .ok t) : p.bare.check natives = .ok t.bare := by
  obtain ⟨rfl, herr⟩ := Program.check_ok h
  obtain ⟨-, hbare⟩ := Check.follows_items p (.ofNatives natives) herr
  have hrun : p.bare.check natives =
      if (Check.checkItems p.bare (.ofNatives natives)).2.errors.isEmpty then
        .ok (Check.checkItems p.bare (.ofNatives natives)).1
      else .error (Check.checkItems p.bare (.ofNatives natives)).2.errors := rfl
  rw [hrun, hbare]
  exact if_pos (Array.isEmpty_iff.2 herr)

end ScopedScript
