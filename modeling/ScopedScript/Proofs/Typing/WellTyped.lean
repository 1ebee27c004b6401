import ScopedScript.Proofs.Typing.Branching

/-!
# Accepted programs are well typed

What the checker makes of a tree follows the typing rules, when nothing is reported. This asks for
one thing of the source: a lambda may not branch on whether a binding of the function around it is
null, since the checker takes the outcome to hold outside of the lambda as well.
-/

namespace ScopedScript

open Check

/-! ## Trees that the rules cover -/

/-- A type to annotate with, when `any` may not be looked into. -/
def TypeExpr.Fits (loose : Prop) (t : TypeExpr) : Prop := loose ∨ (Ty.ofExpr t).Solid

theorem TypeExpr.Fits.declared {loose : Prop} {t : TypeExpr} (h : t.Fits loose) :
    (Ty.ofExpr t).Declared loose :=
  ⟨Ty.ofExpr_collapsed t, h⟩

/-- What is visible after a statement. -/
def Visible.after (N : Visible) : Stmt → Visible
  | .declare name _ _ _ _ => N.declare name
  | .assign _ _ _ | .branch _ _ _ _ _ | .loop _ _ _ | .block _ _ | .ret _ _ | .breakLoop _
  | .continueLoop _ | .free _ _ | .collect _ | .yieldNow _ | .eval _ _ => N

section

variable (loose : Prop)

/-! Annotations fit, and conditions in lambdas test no bindings of the functions around them for
null. -/

mutual

def Expr.Tame (N : Visible) : Expr → Prop
  | .int _ _ | .float _ _ | .bool _ _ | .string _ _ | .null _ | .name _ _ => True
  | .binary _ left right _ => left.Tame N ∧ right.Tame N
  | .unary _ operand _ => operand.Tame N
  | .logical _ left right _ => left.Tame N ∧ right.Tame N
  | .call callee args _ => callee.Tame N ∧ ExprsTame N args
  | .methodCall object _ args _ => object.Tame N ∧ ExprsTame N args
  | .field object _ _ => object.Tame N
  | .structInit _ fields _ => FieldsTame N fields
  | .lambda params ret body _ => (∀ p ∈ params, p.type.Fits loose) ∧ (∀ t ∈ ret, t.Fits loose) ∧
    StmtsTame (N.lambda (params.map Param.name)) body
  | .spawn call _ => call.Tame N
  | .await task _ => task.Tame N
  | .cast value _ _ => value.Tame N
  | .format parts _ => ExprsTame N parts

def ExprsTame (N : Visible) : List Expr → Prop
  | [] => True
  | e :: rest => e.Tame N ∧ ExprsTame N rest

def FieldsTame (N : Visible) : List (String × Expr) → Prop
  | [] => True
  | (_, e) :: rest => e.Tame N ∧ FieldsTame N rest

def Stmt.Tame (N : Visible) : Stmt → Prop
  | .declare _ _ type none _ => ∀ t ∈ type, t.Fits loose
  | .declare _ _ type (some value) _ => (∀ t ∈ type, t.Fits loose) ∧ value.Tame N
  | .assign _ value _ => value.Tame N
  | .branch condition thenBlock elifs elseBlock _ => condition.Tame N ∧ N.Allows condition ∧
    StmtsTame N thenBlock ∧ ElifsTame N elifs ∧ ElseTame N elseBlock
  | .loop condition body _ => condition.Tame N ∧ StmtsTame N body
  | .block body _ => StmtsTame N body
  | .ret none _ => True
  | .ret (some value) _ => value.Tame N
  | .eval expr _ => expr.Tame N
  | .breakLoop _ | .continueLoop _ | .free _ _ | .collect _ | .yieldNow _ => True

def StmtsTame (N : Visible) : List Stmt → Prop
  | [] => True
  | s :: rest => s.Tame N ∧ StmtsTame (N.after s) rest

def ElifsTame (N : Visible) : List (Expr × List Stmt) → Prop
  | [] => True
  | (condition, body) :: rest =>
    condition.Tame N ∧ N.Allows condition ∧ StmtsTame N body ∧ ElifsTame N rest

def ElseTame (N : Visible) : Option (List Stmt) → Prop
  | none => True
  | some body => StmtsTame N body

end

end

namespace Check

variable {loose : Prop} {N : Visible} {leaves : Ty → Prop} {p : Globals → Context → Prop}

/-! ## Steps of statements -/

theorem types_returnType : Types loose N returnType fun _ Γ t => t = Γ.ret ∧ t.Declared loose := by
  refine (takes_reads fun env => (env.contexts.head?.map FnContext.ret).getD .void).weaken ?_
  rintro _ env _ ⟨rfl, rfl⟩ hc
  obtain ⟨c, outer, hcs⟩ := List.exists_cons_of_ne_nil hc.inside
  refine ⟨hc, .refl _, ?_, ?_⟩
  · rw [Env.context, hcs]
    rfl
  · rw [hcs]
    exact hc.returns c (hcs ▸ List.mem_cons_self)

theorem takes_stmtsFall (body : List Stmt) :
    Takes (checkStmts body) fun _ _ r => r.2 = stmtsFall r.1 :=
  have h : Takes (checkStmts body) (FallingAll ⟨[], []⟩ (stmtsFrees body)) :=
    fallingAll_stmts body (List.Subset.refl _)
  h.weaken fun _ _ _ h => h.1

theorem types_param (span : Option Span) (params : List Param) :
    Types loose N (params.mapM fun p => do
      let ty ← resolveType p.type (p.span.or span)
      return TParam.mk p.name ty p.mutable p.span) fun _ _ ps =>
        ps.map TParam.name = params.map Param.name ∧
        ps.map TParam.ty = params.map fun p => Ty.ofExpr p.type := by
  induction params with
  | nil => exact .pure fun _ _ => ⟨rfl, rfl⟩
  | cons p rest ih =>
    rw [List.mapM_cons]
    refine Types.bind ((types_resolveType p.type (p.span.or span)).bind (r := fun _ _ q =>
      q.name = p.name ∧ q.ty = Ty.ofExpr p.type) fun ty => .pure fun _ _ _ h => ⟨rfl, h⟩)
      fun q => ?_
    refine ih.bind fun qs => .pure fun _ _ _ h _ hq => ⟨?_, ?_⟩
    · rw [List.map_cons, List.map_cons, h.1, hq.1]
    · rw [List.map_cons, List.map_cons, h.2, hq.2]

theorem declared_returned {ret : Option TypeExpr} (h : ∀ t ∈ ret, t.Fits loose) :
    ((ret.map Ty.ofExpr).getD .void).Declared loose := by
  cases ret with
  | none => exact ⟨trivial, .inr trivial⟩
  | some t => exact (h t rfl).declared

theorem declared_params {params : List Param} {ps : List TParam}
    (h : ∀ p ∈ params, p.type.Fits loose)
    (htypes : ps.map TParam.ty = params.map fun p => Ty.ofExpr p.type) :
    ∀ q ∈ ps, q.ty.Declared loose := by
  intro q hq
  obtain ⟨p, hp, heq⟩ := List.mem_map.1 (htypes ▸ List.mem_map_of_mem (f := TParam.ty) hq)
  exact heq ▸ (h p hp).declared

/-- A statement that is checked without a change of the context. -/
theorem Types.statement {x : Check (TStmt × Bool)}
    (hx : Types loose N x fun g Γ r => r.1.Typed g leaves Γ Γ) :
    Shifts loose N N p x fun g Γ Γ' r => r.1.Typed g leaves Γ Γ' :=
  hx.stays.weaken (fun _ _ _ h => h) fun _ _ _ _ _ ⟨hΓ, hs⟩ => hΓ ▸ hs

theorem Shifts.statement {x : Check TStmt} {falls : Bool}
    (hx : Shifts loose N N' p x fun g Γ Γ' s => s.Typed g leaves Γ Γ') :
    Shifts loose N N' p (x >>= fun s => Pure.pure (s, falls)) fun g Γ Γ' r =>
      r.1.Typed g leaves Γ Γ' :=
  (hx.then fun s => (s, falls)).weaken (fun _ _ _ h => h) fun _ _ _ _ _ ⟨_, hr, hs⟩ => hr ▸ hs

theorem types_stated (t : TypeExpr) (span : Option Span) :
    Types loose N (some <$> resolveType t span) fun _ _ ty => ty = some (Ty.ofExpr t) :=
  Types.bind (types_resolveType t span) fun _ => .pure fun _ _ _ h => h ▸ rfl

theorem declared_stated {t : TypeExpr} {ty : Ty} (h : t.Fits loose)
    (ht : some (Ty.ofExpr t) = some ty) : ty.Declared loose := Option.some.inj ht ▸ h.declared

theorem types_checkFree (name : String) (span : Option Span) :
    Types loose N (checkFree name span) fun _ _ _ => True :=
  (takes_checkFree name span).weaken fun env _ _ ⟨he, _⟩ hc => by
    subst he
    exact ⟨hc, .refl _, trivial⟩

/-! ## Trees -/

mutual

theorem types_expr (hl : loose → ∀ t, leaves t) {N : Visible} : (e : Expr) → e.Tame loose N →
    Types loose N (checkExpr e) (Derives loose leaves)
  | .int _ _, _ | .float _ _, _ | .bool _ _, _ | .string _ _, _ =>
    .pure fun _ _ => ⟨rfl, .inr trivial, .inr trivial⟩
  | .null _, _ => .pure fun _ _ => ⟨rfl, .inl rfl, .inr trivial⟩
  | .name name span, _ => types_name name span
  | .binary op left right span, h => by
    refine (types_expr hl left h.1).bind fun l => (types_expr hl right h.2).bind fun r => ?_
    refine (types_binaryType hl op l.ty r.ty span).bind fun ty =>
      .pure fun _ _ _ hty _ hr _ hl => ?_
    exact ⟨⟨hl.1, hr.1, (hty hl.2 hr.2).1⟩, (hty hl.2 hr.2).2⟩
  | .unary .not operand span, h => by
    refine (types_expr hl operand h).bind fun e => (types_coerce hl e .bool).bind fun e' => .pure ?_
    intro _ _ _ hc _ he
    obtain ⟨htyped, hflows⟩ := hc he trivial
    exact ⟨⟨htyped, Ty.flows_bool.1 hflows, rfl⟩, .inr trivial, .inr trivial⟩
  | .unary .neg operand span, h => by
    refine (types_expr hl operand h).bind fun e =>
      (types_negationType e.ty span).bind fun ty => .pure ?_
    rintro _ _ _ ⟨rfl, hty⟩ _ he
    refine ⟨⟨he.1, rfl,
      hty.imp_right (Or.imp_right fun hany => ⟨hany, hl (hany ▸ he.2).of_any _⟩)⟩, he.2⟩
  | .logical op left right span, h => by
    refine (types_asCondition hl (types_expr hl left h.1)).bind fun l =>
      (types_asCondition hl (types_expr hl right h.2)).bind fun r => .pure fun _ _ _ hr _ hl => ?_
    exact ⟨⟨hl.1, hr.1, hl.2, hr.2, rfl⟩, .inr trivial, .inr trivial⟩
  | .call callee args span, h => by
    refine (types_namedCallee? callee).bind fun c => ?_
    cases c with
    | some c =>
      obtain ⟨target, name, sig⟩ := c
      have hcall : Types loose N (checkArity name sig.params args.length span >>= fun _ =>
          checkArgs sig.params args >>= fun es =>
            Pure.pure (TExpr.mk (.call target es)
              (if sig.isAsync then .task sig.ret else sig.ret) span)) fun g Γ e =>
          Ty.AllCollapsed sig.params → ∃ es, e = TExpr.mk (.call target es)
            (if sig.isAsync then .task sig.ret else sig.ret) span ∧ ExprsTyped g leaves Γ es ∧
              ExprsFlow es sig.params :=
        (types_checkArity name sig.params args.length span).bind fun _ =>
          (types_args hl sig.params args h.2).bind fun es => .pure fun _ _ _ hes _ hlen hp =>
            ⟨es, rfl, hes hlen hp⟩
      refine (Types.reportedIf (x := fun _ => _) hcall).weaken ?_
      rintro g Γ e hg ⟨hsync, he⟩ - hnames
      have hsync : sig.isAsync = false := Bool.not_eq_true _ ▸ hsync
      have hnamed := hnames target name sig rfl
      cases hnamed with
      | function hs =>
        have hd := hg.functions _ sig hs
        obtain ⟨es, rfl, htyped, hflows⟩ := he hd.declared.params
        rw [hsync]
        exact ⟨⟨htyped, sig, hs, hsync, hflows, rfl⟩, hd.ret.allowed⟩
      | native hs =>
        have hd := hg.natives _ sig hs
        obtain ⟨es, rfl, htyped, hflows⟩ := he hd.params
        rw [hsync]
        exact ⟨⟨htyped, sig, hs, hflows, rfl⟩, hd.ret.allowed⟩
    | none =>
      refine (types_expr hl callee h.1).bind fun f => ?_
      have hnone {cause : TypeCause} {q : Globals → Context → TExpr → Prop} :
          Types loose N (report cause span >>= fun _ => Pure.pure (TExpr.poison span)) q :=
        Takes.reported (Takes.pure _)
      cases hty : f.ty with
      | function params ret =>
        refine (types_checkArity "function value" params args.length span).bind fun _ =>
          (types_args hl params args h.2).bind fun es => .pure fun _ _ _ hes _ hlen _ hf _ _ => ?_
        have hallowed : (Ty.function params ret).Allowed loose := hty ▸ hf.2
        obtain ⟨htyped, hflows⟩ := hes hlen (hallowed.1.resolve_left nofun).1
        exact ⟨⟨hf.1, htyped, params, hty, hflows⟩, (Ty.Declared.ret hallowed).allowed⟩
      | any =>
        refine (types_boxed hl args h.2).bind fun es => .pure fun _ _ _ hes _ hf _ _ => ?_
        have hloose : loose := (hty ▸ hf.2).of_any
        exact ⟨⟨hf.1, hes, hty, rfl, hl hloose _⟩, .inr trivial, .inl hloose⟩
      | _ => exact hnone
  | .methodCall object method args span, h => by
    refine (types_expr hl object h.1).bind fun r => ?_
    have hnone {cause : TypeCause} {q : Globals → Context → TExpr → Prop} :
        Types loose N (report cause span >>= fun _ => Pure.pure (TExpr.poison span)) q :=
      Takes.reported (Takes.pure _)
    cases hty : r.ty with
    | struct struct =>
      refine ((quiet_structSig? struct).types reports_reads).bind fun info => ?_
      cases hm : info.bind fun info => info.methods.lookup method with
      | none => exact hnone
      | some sig =>
        obtain ⟨info, rfl, hm⟩ := Option.bind_eq_some_iff.1 hm
        refine (types_checkArity (struct ++ "." ++ method) sig.params args.length span).bind
          fun _ => (types_args hl sig.params args h.2).bind fun es =>
            .pure fun g _ hg hes _ hlen _ hs _ hr => ?_
        have hd := hg.methods struct info method sig hs.symm hm
        obtain ⟨htyped, hflows⟩ := hes hlen hd.declared.params
        exact ⟨⟨⟨hr.1, htyped⟩, info, sig, hs.symm, hm, .cons (.inl hty) hflows, rfl⟩,
          hd.ret.allowed⟩
    | any =>
      refine (types_boxed hl args h.2).bind fun es => .pure fun _ _ _ hes _ hr => ?_
      have hloose : loose := (hty ▸ hr.2).of_any
      exact ⟨⟨⟨hr.1, hes⟩, rfl, hl hloose _⟩, .inr trivial, .inl hloose⟩
    | _ => exact hnone
  | .field object field span, h =>
    (types_expr hl object h).bind fun e => (types_fieldType hl e field span span).bind fun _ =>
      .pure fun _ _ _ hf _ he => hf he
  | .structInit name fields span, h => by
    refine ((quiet_structSig? name).types reports_reads).bind fun sig => ?_
    cases sig with
    | none => exact (types_values hl fields h).after fun _ => Takes.reported (Takes.pure _)
    | some sig =>
      refine (types_inits hl name sig span _ fields h).bind fun slots => ?_
      have hfill : Types loose N _ fun g Γ values => SlotsFlow leaves g Γ slots sig.fields → _ :=
        types_fillSlots name span sig.fields slots
      refine hfill.bind fun values => .pure fun g Γ _ hv _ hs _ hsig => ?_
      obtain ⟨htyped, hflows⟩ := hv (hs hsig.symm (slotsFlow_replicate g Γ sig.fields))
      exact ⟨⟨htyped, sig, hsig.symm, hflows, rfl⟩, .inr trivial, .inr trivial⟩
  | .lambda params ret body span, h => by
    obtain ⟨hparams, hret, hbody⟩ := h
    have hreturned : Types loose N _ _ := types_resolveReturn ret span
    have hresolved : Types loose N _ _ := types_param span params
    refine (Takes.bind hreturned fun ty => Takes.bind hresolved fun ps =>
      takes_lambda (shifts_declareEach ps (params.map Param.name)) (shifts_stmts hl body hbody)
        (f := fun body captures => TExpr.mk (.lambda ps ty body captures)
          (.function (ps.map TParam.ty) ty) span) fun r => ?_).weaken ?_
    · refine (Takes.reportedIf (takes_exitFunction.bind fun captures => Takes.pure _)).weaken ?_
      rintro env env' b ⟨hends, captures, _, ⟨rfl, rfl⟩, rfl, rfl⟩
      exact ⟨fun hr => by_contra fun hne => hends ⟨hr, hne⟩, rfl, rfl⟩
    · rintro env env' _ ⟨ty, first, hty, ps, second, hps, hb⟩ hc
      obtain ⟨hcFirst, hkeepsFirst, rfl⟩ := hty hc
      obtain ⟨hcSecond, hkeepsSecond, hnames, htypes⟩ := hps hcFirst
      have hret := declared_returned hret
      obtain ⟨hc', hkeeps, body, captures, Γ', rfl, hfalls, hbody⟩ :=
        hb hcSecond hret hnames (declared_params hparams htypes)
      have hbefore := hkeepsFirst.trans hkeepsSecond
      rw [hbefore.context, hbefore.globals] at hbody
      refine ⟨hc', hbefore.trans hkeeps, ⟨rfl, hfalls, Γ', hbody⟩, .inr ⟨?_, hret.1⟩, hret.2⟩
      rw [Ty.allCollapsed_iff, htypes]
      exact fun t ht => by obtain ⟨p, -, rfl⟩ := List.mem_map.1 ht; exact Ty.ofExpr_collapsed p.type
  | .spawn call span, h => by
    refine (types_start hl span call h).bind fun s => ?_
    cases s with
    | some s =>
      refine .pure fun g _ hg hs => ?_
      obtain ⟨sig, hsig, hasync, htyped, hflows, hret⟩ := hs s rfl
      have hd := (hg.functions _ sig hsig).ret
      exact ⟨⟨htyped, sig, hsig, hasync, hflows, congrArg Ty.task hret⟩, .inr (hret ▸ hd.1),
        hret ▸ hd.2⟩
    | none => exact (types_expr hl call h).after fun _ => Takes.reported (Takes.pure _)
  | .await task span, h => by
    have hrest (t : TExpr) : Types loose N (awaitedType t.ty span >>= fun ty =>
        Pure.pure (TExpr.mk (.await t) ty span)) fun g Γ e =>
          Derives loose leaves g Γ t → Derives loose leaves g Γ e :=
      (types_awaitedType t.ty span).bind fun ty => .pure fun _ _ _ hty ht =>
        ⟨⟨ht.1, hty⟩, (hty ▸ ht.2).awaited.allowed⟩
    refine Types.after reports_reads.types fun inside => ?_
    refine .unless ((types_start hl span task h).bind fun s => ?_)
    cases s with
    | some s =>
      refine (hrest _).weaken fun g Γ e hg he _ hs => he ?_
      obtain ⟨sig, hsig, hasync, htyped, hflows, hret⟩ := hs s rfl
      have hd := (hg.functions _ sig hsig).ret
      exact ⟨⟨htyped, sig, hsig, hasync, hflows, congrArg Ty.task hret⟩, .inr (hret ▸ hd.1),
        hret ▸ hd.2⟩
    | none =>
      refine ((types_expr hl task h).bind (r := Derives loose leaves) fun t => ?_).weaken
        fun _ _ _ _ he _ _ => he
      exact (hrest t).weaken fun _ _ _ _ he _ ht => he ht
  | .cast value type span, h =>
    (types_expr hl value h).bind fun v => (types_resolveType type span).after fun target =>
      (types_castTo hl v target span).weaken fun _ _ _ _ hc _ hv => hc hv
  | .format parts span, h =>
    (types_parts hl span parts h).bind fun _ => .pure fun _ _ _ hp =>
      ⟨⟨hp, rfl⟩, .inr trivial, .inr trivial⟩

theorem types_start (hl : loose → ∀ t, leaves t) {N : Visible} (span : Option Span) :
    (e : Expr) → e.Tame loose N →
    Types loose N (checkStart span e) fun g Γ s =>
      ∀ r, s = some r → ∃ sig, g.functions.lookup r.1 = some sig ∧
      sig.isAsync = true ∧ ExprsTyped g leaves Γ r.2.1 ∧ ExprsFlow r.2.1 sig.params ∧
      r.2.2 = sig.ret
  | .call (.name name _) args _, h => by
    refine (types_asyncSig? name).bind fun sig => ?_
    cases sig with
    | some sig =>
      refine (types_checkArity name sig.params args.length span).bind fun _ =>
        (types_args hl sig.params args h.2).bind fun es =>
          .pure fun g _ hg hes _ hlen _ hsig r hr => ?_
      cases hr
      obtain ⟨hs, hasync⟩ := hsig sig rfl
      obtain ⟨htyped, hflows⟩ := hes hlen (hg.functions name sig hs).declared.params
      exact ⟨sig, hs, hasync, htyped, hflows, rfl⟩
    | none => exact .pure fun _ _ _ _ r hr => nomatch hr
  | .int _ _, _ | .float _ _, _ | .bool _ _, _ | .string _ _, _ | .null _, _ | .name _ _, _
  | .binary _ _ _ _, _ | .unary _ _ _, _ | .logical _ _ _ _, _ | .methodCall _ _ _ _, _
  | .field _ _ _, _ | .structInit _ _ _, _ | .lambda _ _ _ _, _ | .spawn _ _, _ | .await _ _, _
  | .cast _ _ _, _ | .format _ _, _ | .call (.int _ _) _ _, _ | .call (.float _ _) _ _, _
  | .call (.bool _ _) _ _, _ | .call (.string _ _) _ _, _ | .call (.null _) _ _, _
  | .call (.binary _ _ _ _) _ _, _ | .call (.unary _ _ _) _ _, _ | .call (.logical _ _ _ _) _ _, _
  | .call (.call _ _ _) _ _, _ | .call (.methodCall _ _ _ _) _ _, _ | .call (.field _ _ _) _ _, _
  | .call (.structInit _ _ _) _ _, _ | .call (.lambda _ _ _ _) _ _, _ | .call (.spawn _ _) _ _, _
  | .call (.await _ _) _ _, _ | .call (.cast _ _ _) _ _, _
  | .call (.format _ _) _ _, _ => .pure fun _ _ r hr => nomatch hr

theorem types_args (hl : loose → ∀ t, leaves t) {N : Visible} :
    (params : List Ty) → (args : List Expr) →
    ExprsTame loose N args → Types loose N (checkArgs params args) fun g Γ es =>
      params.length = args.length → Ty.AllCollapsed params →
      ExprsTyped g leaves Γ es ∧ ExprsFlow es params
  | params, [], _ => .pure fun _ _ hlen _ => by
    obtain rfl := List.eq_nil_of_length_eq_zero hlen
    exact ⟨trivial, .nil⟩
  | [], arg :: rest, h => (types_expr hl arg h.1).after fun e =>
    (types_args hl [] rest h.2).after fun es =>
    .pure fun _ _ hlen => nomatch hlen
  | ty :: params, arg :: rest, h => by
    refine (types_expr hl arg h.1).bind fun e => (types_coerce hl e ty).bind fun e' =>
      (types_args hl params rest h.2).bind fun es =>
        .pure fun _ _ _ hes _ hc _ he hlen hcollapsed => ?_
    obtain ⟨htyped, hflows⟩ := hes (Nat.succ.inj hlen) hcollapsed.2
    exact ⟨⟨(hc he hcollapsed.1).1, htyped⟩, .cons (hc he hcollapsed.1).2 hflows⟩

theorem types_boxed (hl : loose → ∀ t, leaves t) {N : Visible} :
    (args : List Expr) → ExprsTame loose N args →
    Types loose N (checkBoxed args) fun g Γ es => ExprsTyped g leaves Γ es
  | [], _ => .pure fun _ _ => trivial
  | arg :: rest, h =>
    (types_expr hl arg h.1).bind fun e => (types_coerce hl e .any).bind fun _ =>
      (types_boxed hl rest h.2).bind fun _ => .pure fun _ _ _ hes _ hc _ he =>
        ⟨(hc he trivial).1, hes⟩

theorem types_parts (hl : loose → ∀ t, leaves t) {N : Visible} (span : Option Span) :
    (parts : List Expr) →
    ExprsTame loose N parts → Types loose N (checkParts span parts) fun g Γ es =>
      ExprsTyped g leaves Γ es
  | [], _ => .pure fun _ _ => trivial
  | part :: rest, h => by
    refine (types_expr hl part h.1).bind fun e => ?_
    have hrest : Types loose N (checkParts span rest >>= fun es => Pure.pure (e :: es))
        fun g Γ es =>
        e.Typed g leaves Γ → ExprsTyped g leaves Γ es :=
      (types_parts hl span rest h.2).bind fun es => .pure fun _ _ _ hes he => ⟨he, hes⟩
    exact (Types.reportedIf (x := fun _ => _) hrest).weaken fun _ _ _ _ hes _ he => hes.2 he.1

theorem types_values (hl : loose → ∀ t, leaves t) {N : Visible} : (fields : List (String × Expr)) →
    FieldsTame loose N fields → Types loose N (checkValues fields) fun _ _ _ => True
  | [], _ => .pure fun _ _ => trivial
  | (_, value) :: rest, h => (types_expr hl value h.1).after fun _ => types_values hl rest h.2

theorem types_inits (hl : loose → ∀ t, leaves t) {N : Visible} (struct : String) (sig : StructSig)
    (span : Option Span) (slots : List (Option TExpr)) : (fields : List (String × Expr)) →
    FieldsTame loose N fields → Types loose N (checkInits struct sig span slots fields)
      fun g Γ slots' =>
      g.structs.lookup struct = some sig → SlotsFlow leaves g Γ slots sig.fields →
        SlotsFlow leaves g Γ slots' sig.fields
  | [], _ => .pure fun _ _ _ h => h
  | (field, value) :: rest, h => by
    refine (types_expr hl value h.1).bind fun v =>
      (types_initSlot hl struct sig field v (value.span.or span) slots).bind fun slots' => ?_
    refine (types_inits hl struct sig span slots' rest h.2).weaken
      fun _ _ _ _ hrest _ hslot _ hv hs hslots => ?_
    exact hrest hs (hslot hs hv hslots)

theorem shifts_stmt (hl : loose → ∀ t, leaves t) {N : Visible} : (s : Stmt) → s.Tame loose N →
    Shifts loose N (N.after s) (fun _ _ => True) (checkStmt s) fun g Γ Γ' r =>
      r.1.Typed g leaves Γ Γ'
  | .declare name mutable none none span, _ =>
    (shifts_checkDeclare hl name mutable none none span fun _ _ _ => ⟨nofun, nofun⟩).statement
  | .declare name mutable (some t) none span, h =>
    (types_stated t span).shifts fun ty =>
      (shifts_checkDeclare hl name mutable ty none span fun _ _ hty =>
      ⟨fun _ hs => declared_stated (h t rfl) (hty.2.2.symm.trans hs), nofun⟩).statement
  | .declare name mutable none (some value) span, h =>
    (types_expr hl value h.2).shifts fun v =>
      (shifts_checkDeclare hl name mutable none (some v) span fun _ _ hv =>
      ⟨nofun, fun _ hw => Option.some.inj hw ▸ hv.2.2⟩).statement
  | .declare name mutable (some t) (some value) span, h =>
    (types_stated t span).shifts fun ty => (types_expr hl value h.2).shifts fun v =>
      (shifts_checkDeclare hl name mutable ty (some v) span fun _ _ hv =>
        ⟨fun _ hs => declared_stated (h.1 t rfl) (hv.2.1.2.2.symm.trans hs),
          fun _ hw => Option.some.inj hw ▸ hv.2.2⟩).statement
  | .assign target value span, h => by
    refine Types.statement (Types.bind (types_expr hl value h) fun v => ?_)
    exact (types_checkAssign hl target v span).bind fun s => .pure fun _ _ _ hs _ hv => hs hv
  | .branch condition thenBlock elifs elseBlock span, h => by
    obtain ⟨hc, hN, ht, hm, he⟩ := h
    refine (takes_head hl hN (types_expr hl condition hc) fun test c => takes_branches
      (shifts_stmts hl thenBlock ht) (types_elifs hl elifs hm)
      (types_else hl elseBlock he) c span test (k := fun t m l paths => do
        match test with
        | some n =>
          if elifs.isEmpty && (if n.isNe then elseBlock.isSome && !l.2 else !t.2) &&
              !paths.isEmpty then
            narrow n.id n.inner
        | none => Pure.pure ()
        return (.branch c t.1 m.1 l.1 span, !paths.isEmpty)) fun t m l paths =>
          takes_learns test elifs elseBlock t.2 l.2 (!paths.isEmpty) _).weaken ?_
    rintro env env' b ⟨test, c, mid, hbranch, hhead⟩ hc -
    obtain ⟨hcMid, hkeeps, htyped, hbool, named, htest, htests⟩ := hhead hc
    rw [hkeeps.context, hkeeps.globals] at hbranch
    obtain ⟨hc', hpass, hb⟩ := hbranch named hcMid htest htyped hbool htests
    exact ⟨hc', hkeeps.passes.trans hpass, hb⟩
  | .loop condition body span, h => by
    refine Types.statement (Types.bind (types_asCondition hl (types_expr hl condition h.1))
      fun c => ?_)
    refine (types_loop (shifts_stmts hl body h.2) fun r => (TStmt.loop c r.1 span, true)).weaken ?_
    rintro g Γ _ - ⟨r, Δ, rfl, hbody, -⟩ - ⟨hc, hbool⟩
    exact ⟨hc, hbool, ⟨Δ, hbody⟩, rfl⟩
  | .block body span, h =>
    Types.statement (Types.bind (types_block (shifts_stmts hl body h)) fun _ =>
      .pure fun _ _ _ ⟨Δ, hb, _⟩ => ⟨⟨Δ, hb⟩, rfl⟩)
  | .ret none span, _ => by
    refine Types.statement (Types.bind types_returnType fun ret =>
      (types_checkReturned hl none ret span).bind fun v => .pure fun _ Γ _ hv _ hret => ?_)
    obtain ⟨rfl, hd⟩ := hret
    obtain ⟨rfl, hvoid⟩ := (hv hd nofun).1 rfl
    exact ⟨hvoid, rfl⟩
  | .ret (some value) span, h => by
    refine Types.statement (Types.bind types_returnType fun ret =>
      (types_expr hl value h).bind fun e =>
      (types_checkReturned hl (some e) ret span).bind fun v => .pure fun _ Γ _ hv _ he _ hret => ?_)
    obtain ⟨rfl, hd⟩ := hret
    obtain ⟨v', rfl, hflow⟩ := (hv hd fun w hw => Option.some.inj hw ▸ he).2 e rfl
    exact ⟨hflow.1, hflow.2, rfl⟩
  | .breakLoop span, _ =>
    Types.shifts (reports_requireLoop "break" span).types fun _ => .pure fun _ _ _ => rfl
  | .continueLoop span, _ =>
    Types.shifts (reports_requireLoop "continue" span).types fun _ => .pure fun _ _ _ => rfl
  | .free name span, _ => Types.shifts (types_checkFree name span) fun _ => .pure fun _ _ _ => rfl
  | .collect span, _ => .pure fun _ _ _ => rfl
  | .yieldNow span, _ =>
    Types.statement (Types.after reports_reads.types fun _ => .unless (.pure fun _ _ => rfl))
  | .eval expr span, h => Types.shifts (types_expr hl expr h) fun e => .pure fun _ _ he =>
    ⟨he.2.2.1, rfl⟩

theorem shifts_stmts (hl : loose → ∀ t, leaves t) {N : Visible} :
    (ss : List Stmt) → StmtsTame loose N ss →
    Shifts loose N (ss.foldl Visible.after N) (fun _ _ => True) (checkStmts ss) (BlockTyped leaves)
  | [], _ => .pure fun _ _ _ => ⟨rfl, rfl⟩
  | s :: rest, h => by
    refine ((takes_stmtsFall (s :: rest)).and (Takes.bind (shifts_stmt hl s h.1) fun r =>
      Takes.bind (shifts_stmts hl rest h.2) fun rs =>
        Takes.pure (r.1 :: rs.1, r.2 && rs.2))).weaken ?_
    rintro env env' _ ⟨hfalls, r, mid, hs, rs, _, hrest, rfl, rfl⟩ hc -
    obtain ⟨hcMid, hpass, hs⟩ := hs hc trivial
    obtain ⟨hc', hpass', hrest, -⟩ := hrest hcMid trivial
    rw [hpass.globals] at hrest
    exact ⟨hc', hpass.trans hpass', ⟨mid.context, hs, hrest⟩, hfalls⟩

theorem types_else (hl : loose → ∀ t, leaves t) {N : Visible} : (elseBlock : Option (List Stmt)) →
    ElseTame loose N elseBlock → Types loose N (checkElse elseBlock) (LastTyped leaves elseBlock)
  | none, _ => .pure fun _ _ => ⟨trivial, rfl, rfl⟩
  | some body, h => (types_block (shifts_stmts hl body h)).bind fun _ =>
    .pure fun _ _ _ ⟨Δ, hb, hfalls⟩ =>
    ⟨⟨Δ, hb⟩, hfalls, rfl⟩

theorem types_elifs (hl : loose → ∀ t, leaves t) {N : Visible} : (elifs : List (Expr × List Stmt)) →
    ElifsTame loose N elifs → Types loose N (checkElifs elifs) (FurtherTyped leaves elifs)
  | [], _ => .pure fun _ _ => ⟨trivial, fun _ => rfl⟩
  | (condition, body) :: rest, h =>
    types_elif hl h.2.1 (types_expr hl condition h.1) (shifts_stmts hl body h.2.2.1)
      (types_elifs hl rest h.2.2.2)

end

end Check

end ScopedScript
