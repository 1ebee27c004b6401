import ScopedScript.Proofs.Typing.Passing

/-!
# Statements and the typing rules

Steps of the checker that change the context, and how they are put together. A block leaves the
context as it was; so does a lambda, whose body starts in a context of its own.
-/

namespace ScopedScript

namespace Check

/-- The results of two ways to look at a computation. -/
theorem Takes.and {x : Check α} {S T : Env → Env → α → Prop} (hs : Takes x S) (ht : Takes x T) :
    Takes x fun env env' a => S env env' a ∧ T env env' a :=
  fun env he => ⟨(hs env he).1, (hs env he).2, (ht env he).2⟩

/-- Where `p` holds the computation leads from one context to another one, with a value as these
say. -/
def Shifts (loose : Prop) (N N' : Visible) (p : Globals → Context → Prop) (x : Check α)
    (q : Globals → Context → Context → α → Prop) : Prop :=
  Takes x fun env env' a => env.Coherent loose N → p env.globals env.context →
    env'.Coherent loose N' ∧ env.Passes env' ∧ q env.globals env.context env'.context a

variable {loose : Prop} {N N' : Visible} {leaves : Ty → Prop} {p : Globals → Context → Prop}

theorem Shifts.weaken {x : Check α} {p' : Globals → Context → Prop}
    {q q' : Globals → Context → Context → α → Prop} (hx : Shifts loose N N' p x q)
    (hp : ∀ g Γ, g.Declared loose → p' g Γ → p g Γ)
    (h : ∀ g Γ Γ' a, p' g Γ → q g Γ Γ' a → q' g Γ Γ' a) : Shifts loose N N' p' x q' :=
  Takes.weaken hx fun _ _ _ hx hc hp' =>
    have ⟨hc', hpass, hq⟩ := hx hc (hp _ _ hc.globals hp')
    ⟨hc', hpass, h _ _ _ _ hp' hq⟩

/-- What is found out before the context changes holds where it does. -/
theorem Types.shifts {x : Check α} {y : α → Check β} {r : Globals → Context → α → Prop}
    {q : Globals → Context → Context → β → Prop} (hx : Types loose N x r)
    (hy : ∀ a, Shifts loose N N' (fun g Γ => g.Declared loose ∧ p g Γ ∧ r g Γ a) (y a) q) :
    Shifts loose N N' p (x >>= y) q := by
  refine (Takes.bind hx hy).weaken ?_
  rintro env env' b ⟨a, mid, hx, hy⟩ hc hp
  obtain ⟨hcx, hkx, hr⟩ := hx hc
  rw [hkx.context, hkx.globals] at hy
  obtain ⟨hcy, hpass, hq⟩ := hy hcx ⟨hc.globals, hp, hr⟩
  exact ⟨hcy, hkx.passes.trans hpass, hq⟩

theorem Shifts.pure {a : α} {q : Globals → Context → Context → α → Prop}
    (h : ∀ g Γ, p g Γ → q g Γ Γ a) : Shifts loose N N p (Pure.pure a) q :=
  (Takes.pure a).weaken fun env _ _ ⟨ha, he⟩ hc hp => by
    subst ha he
    exact ⟨hc, .refl _, h _ _ hp⟩

/-- A statement is made of what has been found out. -/
theorem Shifts.then {x : Check α} {q : Globals → Context → Context → α → Prop}
    (hx : Shifts loose N N' p x q)
    (f : α → β) : Shifts loose N N' p (x >>= fun a => Pure.pure (f a)) fun g Γ Γ' b =>
      ∃ a, b = f a ∧ q g Γ Γ' a := by
  refine (Takes.bind hx fun a => Takes.pure (f a)).weaken ?_
  rintro env env' _ ⟨a, mid, hx, rfl, rfl⟩ hc hp
  obtain ⟨hc', hpass, hq⟩ := hx hc hp
  exact ⟨hc', hpass, a, rfl, hq⟩

theorem Types.stays {x : Check α} {r : Globals → Context → α → Prop} (hx : Types loose N x r) :
    Shifts loose N N p x fun g Γ Γ' a => Γ' = Γ ∧ r g Γ a :=
  Takes.weaken hx fun _ _ _ hx hc _ =>
    have ⟨hc', hk, hr⟩ := hx hc
    ⟨hc', hk.passes, hk.context, hr⟩

/-! ## Declarations -/

theorem shifts_declare (name : String) (ty : Ty) (mutable : Bool) (kind : VarKind)
    (state : InitState) (span : Option Span) : Shifts loose N (N.declare name)
    (fun _ _ => ty.Declared loose)
      (declare name ty mutable kind state span) fun _ Γ Γ' _ =>
        Γ' = Γ.declare name ⟨ty, mutable, false⟩ := by
  refine (takes_declare name ty mutable kind state span).weaken ?_
  rintro env env' - rfl hc ht
  exact ⟨hc.declared rfl ht, Env.passes_declared hc, Env.context_declared hc rfl⟩

theorem types_coerceSome (hl : loose → ∀ t, leaves t) (e : TExpr) (target : Ty) :
    Types loose N (some <$> coerce e target) fun g Γ v =>
      Derives loose leaves g Γ e → target.Collapsed →
      ∃ e', v = some e' ∧ FlowsInto leaves target g Γ e' :=
  Types.bind (types_coerce hl e target) fun e' => .pure fun _ _ _ h he ht => ⟨e', rfl, h he ht⟩

/-- A declaration, with a type that may be declared or with the type of its value. -/
theorem shifts_checkDeclare (hl : loose → ∀ t, leaves t) (name : String) (mutable : Bool)
    (stated : Option Ty) (value : Option TExpr) (span : Option Span)
    (hp : ∀ g Γ, p g Γ → (∀ t, stated = some t → t.Declared loose) ∧
      ∀ v, value = some v → Derives loose leaves g Γ v) :
    Shifts loose N (N.declare name) p (checkDeclare name mutable stated value span)
      fun g Γ Γ' s => s.Typed g leaves Γ Γ' := by
  have hdeclare (ty : Ty) (value' : Option TExpr)
      (state : InitState) {p' : Globals → Context → Prop}
      (hp' : ∀ g Γ, p' g Γ → ty.Declared loose ∧ ∀ v, value' = some v → FlowsInto leaves ty g Γ v) :
      Shifts loose N (N.declare name) p' (declare name ty mutable .letBound state span >>= fun _ =>
        Pure.pure (TStmt.declare name mutable ty value' span)) fun g Γ Γ' s =>
            s.Typed g leaves Γ Γ' := by
    refine ((shifts_declare name ty mutable .letBound state span).then fun _ => _).weaken
      (fun g Γ _ h => (hp' g Γ h).1) ?_
    rintro g Γ Γ' _ h ⟨-, rfl, hΓ⟩
    cases value' with
    | none => exact hΓ
    | some v => exact ⟨((hp' g Γ h).2 v rfl).1, ((hp' g Γ h).2 v rfl).2, hΓ⟩
  have hdeclared {g : Globals} {Γ : Context} {ty : Ty} (h : p g Γ)
      (ht : stated = some ty ∨ stated = none ∧
      ∃ v, value = some v ∧ ty = v.ty ∧ ty ≠ .null) : ty.Declared loose := by
    rcases ht with ht | ⟨-, v, hv, rfl, hne⟩
    · exact (hp g Γ h).1 ty ht
    · obtain ⟨hcollapsed, hsolid⟩ := ((hp g Γ h).2 v hv).2
      exact ⟨hcollapsed.resolve_left hne, hsolid⟩
  refine (types_declaredType name stated value span).shifts fun ty => ?_
  cases value with
  | none => exact hdeclare ty none _ fun g Γ h => ⟨hdeclared h.2.1 h.2.2, nofun⟩
  | some v =>
    refine (types_coerceSome hl v ty).shifts fun value' => hdeclare ty value' _ fun g Γ h => ?_
    obtain ⟨-, ⟨-, hpre, ht⟩, hcoerced⟩ := h
    have hty := hdeclared hpre ht
    refine ⟨hty, fun w hw => ?_⟩
    obtain ⟨e', rfl, hflow⟩ := hcoerced ((hp g Γ hpre).2 v rfl) hty.1
    cases hw
    exact hflow

/-! ## Names -/

theorem unresolved_find {name : String} {cs : List FnContext} (h : resolveIn name cs = none) :
    (cs.findSome? fun c => c.find? name) = none := by
  induction cs with
  | nil => rfl
  | cons c outer ih =>
    rw [resolveIn] at h
    split at h
    · cases h
    · rename_i hnone
      rw [List.findSome?_cons, hnone]
      exact ih (Option.map_eq_none_iff.1 h)

theorem Env.type?_of_unresolved {env : Env} {name : String}
    (h : resolveIn name env.contexts = none) : env.context.type? name = none := by
  rw [← Option.not_isSome_iff_eq_none, Env.type?_isSome, unresolved_find h]
  exact Bool.false_ne_true

/-- A name that is looked up has the type that the context says, and nothing is lost of the context.
-/
theorem takes_lookup_type (name : String) : Takes (lookup name) fun env env' r =>
      env.Coherent loose N →
    env'.Coherent loose N ∧ env.Keeps env' ∧ (r = none → env.context.type? name = none) ∧
      ∀ v, r = some v → env.context.type? name = some ((env'.narrowed.lookup v.id).getD v.ty) ∧
        ((env'.narrowed.lookup v.id).getD v.ty).Declared loose := by
  intro env he
  unfold lookup at he ⊢
  rw [modifyGet_eq] at he ⊢
  cases hr : resolveIn name env.contexts with
  | none =>
    rw [hr] at he
    exact ⟨he, fun hc => ⟨hc, .refl _, fun _ => Env.type?_of_unresolved hr, nofun⟩⟩
  | some r =>
    obtain ⟨v, cs⟩ := r
    rw [hr] at he
    refine ⟨he, fun hc => ?_⟩
    obtain ⟨hresumed, w, hw, hid, hty, -⟩ := resolveIn_resumed hr
    have hkeeps : env.Keeps { env with contexts := cs } := ⟨rfl, hresumed, fun _ _ => rfl, le_rfl⟩
    have htype := Env.type?_context hc hw
    rw [hid, hty] at htype
    refine ⟨hkeeps.coherent hc hc.old, hkeeps, nofun, fun u hu => ?_⟩
    cases hu
    refine ⟨htype, ?_⟩
    have hmem := mem_varsOf_of_find hw
    have hdeclared := hty ▸ hc.types w hmem
    change (List.lookup v.id env.narrowed).getD v.ty |>.Declared loose
    cases ht : env.narrowed.lookup v.id with
    | none => exact hdeclared
    | some t =>
      have hnullable := (hc.narrowed w hmem t (hid ▸ ht)).2
      rw [← hty, hnullable] at hdeclared
      exact hdeclared.nonNull

/-- What a name is checked to. -/
def Means (loose : Prop) (name : String) (span : Option Span) (g : Globals) (Γ : Context)
    (e : TExpr) : Prop :=
  (∃ t, Γ.type? name = some t ∧ t.Declared loose ∧ e = .mk (.binding name) t span) ∨
    Γ.type? name = none ∧ ((∃ sig, g.functions.lookup name = some sig ∧ sig.isAsync = false ∧
      e = .mk (.function name) sig.toTy span) ∨
      ∃ sig, g.natives.lookup name = some sig ∧ e = .mk (.native name) sig.toTy span)

/-- What a name means when no binding has it. -/
theorem types_globalName (name : String) (span : Option Span) : Types loose N (do
    match ← functionSig? name with
    | some sig =>
      if sig.isAsync then reportInvalid (.asyncAsValue name) span
      return TExpr.mk (.function name) sig.toTy span
    | none =>
      match ← nativeSig? name with
      | some sig => return .mk (.native name) sig.toTy span
      | none =>
        report (.unresolved .name name) span
        return .poison span) fun g _ e =>
    (∃ sig, g.functions.lookup name = some sig ∧ sig.isAsync = false ∧
      e = .mk (.function name) sig.toTy span) ∨
    ∃ sig, g.natives.lookup name = some sig ∧ e = .mk (.native name) sig.toTy span := by
  have hfunction : Types loose N (functionSig? name) fun g _ sig => sig = g.functions.lookup name :=
    (quiet_functionSig? name).types reports_reads
  refine hfunction.bind fun sig => ?_
  split
  · rename_i sig
    refine (Types.reportedIf
      (Types.pure (q := fun _ _ e => e = TExpr.mk (.function name) sig.toTy span)
      fun _ _ => rfl)).weaken ?_
    rintro g Γ e - ⟨hsync, rfl⟩ - hs
    exact .inl ⟨sig, hs.symm, Bool.not_eq_true _ ▸ hsync, rfl⟩
  · have hnative : Types loose N (nativeSig? name) fun g _ sig => sig = g.natives.lookup name :=
      Quiet.types (fun env _ => ⟨⟨env.narrowed, rfl⟩, rfl⟩) reports_reads
    refine (hnative.bind (r := fun g _ e => ∃ sig, g.natives.lookup name = some sig ∧
      e = .mk (.native name) sig.toTy span) fun sig => ?_).weaken fun _ _ _ _ h _ _ => .inr h
    split
    · rename_i sig
      exact .pure fun g _ _ hs => ⟨sig, hs.symm, rfl⟩
    · exact Takes.reported (Takes.pure _)

theorem types_checkName (name : String) (span : Option Span) :
    Types loose N (checkName name span) (Means loose name span) := by
  have hlookup : Takes (lookup name) fun env env' r =>
      env.Coherent loose N → env'.Coherent loose N ∧
      env.Keeps env' ∧ (r = none → env.context.type? name = none) ∧
        ∀ v, r = some v → env.context.type? name = some ((env'.narrowed.lookup v.id).getD v.ty) ∧
          ((env'.narrowed.lookup v.id).getD v.ty).Declared loose := takes_lookup_type name
  refine (hlookup.bind (S := fun r env env' e =>
    (∃ v, r = some v ∧ env' = env ∧ e = .mk (.binding name)
      ((env.narrowed.lookup v.id).getD v.ty) span) ∨
      r = none ∧ (env.Coherent loose N → env'.Coherent loose N ∧ env.Keeps env' ∧
        ((∃ sig, env.globals.functions.lookup name = some sig ∧ sig.isAsync = false ∧
          e = .mk (.function name) sig.toTy span) ∨
        ∃ sig, env.globals.natives.lookup name = some sig ∧ e = .mk (.native name) sig.toTy span)))
    fun r => ?_).weaken ?_
  · cases r with
    | none => exact Takes.weaken (types_globalName name span) fun _ _ _ h => .inr ⟨rfl, h⟩
    | some v =>
      have hrest : Takes (narrowedType? v.id >>= fun ty =>
          Pure.pure (TExpr.mk (.binding name) (ty.getD v.ty) span)) fun env env' e =>
            env' = env ∧ e = .mk (.binding name) ((env.narrowed.lookup v.id).getD v.ty) span :=
        fun _ he => ⟨he, rfl, rfl⟩
      refine ((takes_reads fun env => env.init.state v.id).bind (S := fun _ env env' e =>
        env' = env ∧ e = .mk (.binding name) ((env.narrowed.lookup v.id).getD v.ty) span)
        fun state => ?_).weaken ?_
      · cases state with
        | init => exact hrest
        | maybe => exact .reported hrest
        | uninit => exact .reported hrest
      · rintro env env' e ⟨_, _, ⟨rfl, -⟩, rfl, rfl⟩
        exact .inl ⟨v, rfl, rfl, rfl⟩
  · rintro env env' e ⟨r, mid, hr, h⟩ hc
    obtain ⟨hc', hk, hnone, hsome⟩ := hr hc
    rcases h with ⟨v, rfl, rfl, rfl⟩ | ⟨rfl, h⟩
    · exact ⟨hc', hk, .inl ⟨_, (hsome v rfl).1, (hsome v rfl).2, rfl⟩⟩
    · obtain ⟨hc'', hk', h⟩ := h hc'
      rw [hk.globals] at h
      exact ⟨hc'', hk.trans hk', .inr ⟨hnone rfl, h⟩⟩

theorem types_name (name : String) (span : Option Span) :
    Types loose N (checkName name span) (Derives loose leaves) := by
  refine (types_checkName name span).weaken ?_
  rintro g Γ e hg (⟨t, ht, hd, rfl⟩ | ⟨-, ⟨sig, hs, ha, rfl⟩ | ⟨sig, hs, rfl⟩⟩)
  · exact ⟨ht, hd.allowed⟩
  · exact ⟨⟨sig, hs, ha, rfl⟩, (hg.functions name sig hs).declared.allowed⟩
  · exact ⟨⟨sig, hs, rfl⟩, (hg.natives name sig hs).allowed⟩

/-! ## Assignments -/

theorem types_checkFieldWrite (name : String) (v : Var) (fields : List String)
    (span : Option Span) :
    Types loose N (checkFieldWrite name v fields span) fun g _ r => v.ty.Declared loose →
      PathTyped g v.ty r.1 r.2 ∧ r.2.Declared loose := by
  have hpath : Types loose N (do
      if (← initState v.id) ≠ .init then reportNull (.fieldOfUninitialized name) span
      fieldPath v.ty span fields) fun g _ r => v.ty.Declared loose →
        PathTyped g v.ty r.1 r.2 ∧ r.2.Declared loose :=
    Types.after (reports_reads (r := fun env => env.init.state v.id)).types fun _ =>
      (Types.reportedIf (types_fieldPath span fields v.ty)).weaken fun _ _ _ _ h => h.2
  unfold checkFieldWrite
  exact (Types.reportedIf (x := fun _ => _) hpath).weaken fun _ _ _ _ h => h.2

/-- The value is written along some path from a binding of type `ty`. -/
def Writes (loose : Prop) (leaves : Ty → Prop) (ty : Ty) (name : String) (value : TExpr)
    (place span : Option Span) (g : Globals) (Γ : Context) (s : TStmt) : Prop :=
  ty.Declared loose → ∃ path last value', s = .assign ⟨name, path, place⟩ value' span ∧
    PathTyped g ty path last ∧ (Derives loose leaves g Γ value → FlowsInto leaves last g Γ value')

/-- What is written is of the type of the binding, or of the field that the path leads to. -/
theorem types_checkAssign (hl : loose → ∀ t, leaves t) (target : Expr) (value : TExpr)
    (span : Option Span) :
    Types loose N (checkAssign target value span) fun g Γ s => Derives loose leaves g Γ value →
      s.Typed g leaves Γ Γ := by
  unfold checkAssign
  split
  rename_i root fields _
  split
  · rename_i name rootSpan _
    refine ((takes_lookup name).bind (S := fun r env env' s => ∃ v, r = some v ∧ v.kind ≠ .capture ∧
      (env.Coherent loose N → env'.Coherent loose N ∧ env.Keeps env' ∧
        Writes loose leaves v.ty name value target.span span env.globals env.context s))
      fun r => ?_).weaken ?_
    · split
      · refine Takes.weaken (T := fun _ _ _ => False) ?_ fun _ _ _ h => h.elim
        refine (Takes.bind (takes_reads _) (S := fun _ _ _ _ => False) fun sig => ?_).weaken
          fun _ _ _ ⟨_, _, _, h⟩ => h
        split
        · exact .reported (Takes.pure _)
        · exact .reported (Takes.pure _)
      · rename_i v
        split
        · have htyped : Types loose N
              (checkBindingWrite name v span >>= fun _ => coerce value v.ty >>= fun value =>
                markInit v.id >>= fun _ =>
                Pure.pure (TStmt.assign ⟨name, [], target.span⟩ value span))
              (Writes loose leaves v.ty name value target.span span) := by
            have hmark : Types loose N (markInit v.id) fun _ _ _ => True :=
              (takes_modify (fun e => { e with init := (v.id, .init) :: e.init })
                fun _ => rfl).weaken fun env _ _ he hc =>
                  he ▸ ⟨hc.withInit _, Env.keeps_init env _, trivial⟩
            refine (reports_checkBindingWrite name v span).types.after fun _ =>
              (types_coerce hl value v.ty).bind fun value' => hmark.after fun _ => .pure ?_
            exact fun g Γ _ h hv => ⟨[], v.ty, value', rfl, rfl, fun hd => h hd hv.1⟩
          refine ((takes_checkBindingWrite name v span).bind fun _ =>
            (Quiet.takes quiet_coerce).bind fun value' =>
            (takes_modify (fun e => { e with init := (v.id, .init) :: e.init })
              fun _ => rfl).bind fun _ => Takes.pure _).and htyped |>.weaken ?_
          rintro env env' s ⟨⟨_, _, ⟨-, hk, -⟩, -⟩, h⟩
          exact ⟨v, rfl, hk, h⟩
        · have htyped : Types loose N
              (checkFieldWrite name v fields span >>= fun r => coerce value r.2 >>= fun value =>
                Pure.pure (TStmt.assign ⟨name, r.1, target.span⟩ value span))
              (Writes loose leaves v.ty name value target.span span) := by
            refine (types_checkFieldWrite name v fields span).bind fun r =>
              (types_coerce hl value r.2).bind fun value' => .pure fun g Γ _ h _ hr hv => ?_
            exact ⟨r.1, r.2, value', rfl, (hr hv).1, fun hd => h hd (hr hv).2.1⟩
          refine ((takes_checkFieldWrite name v fields span).bind fun r =>
            (Quiet.takes quiet_coerce).bind fun value' => Takes.pure _).and htyped |>.weaken ?_
          rintro env env' s ⟨⟨_, _, ⟨-, hk, -⟩, -⟩, h⟩
          exact ⟨v, rfl, hk, h⟩
    · rintro env env' s ⟨r, mid, hr, v, rfl, hk, h⟩ hc
      obtain ⟨hnone, -⟩ | ⟨w, cs, hw, hresolve, rfl⟩ := hr
      · cases hnone
      cases hw
      obtain ⟨rfl, c, outer, hcs, hfind⟩ := resolveIn_local hresolve hk
      obtain ⟨hc', hkeeps, h⟩ := h hc
      have hv : v ∈ varsOf env.contexts :=
        hcs ▸ List.mem_append_left _ (FnContext.mem_vars_of_find? hfind)
      obtain ⟨path, last, value', rfl, hpath, hflow⟩ := h (hc.types v hv)
      refine ⟨hc', hkeeps, fun hd =>
        ⟨(hflow hd).1, ⟨v.known env.narrowed, last, ?_, hpath, (hflow hd).2⟩, rfl⟩⟩
      rw [Env.find?_context, hcs, List.head?_cons, Option.bind_some, hfind]
      rfl
  · exact Takes.reported (Takes.pure _)

end Check

end ScopedScript
