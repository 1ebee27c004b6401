import ScopedScript.Proofs.Typing.Shifting

/-!
# Branches, loops and lambdas by the typing rules

What a condition says about null holds in the branch that it leads to, and after an `if` whose other
branch leaves. A block, and the body of a lambda, are checked in contexts that end with them.
-/

namespace ScopedScript

variable {loose : Prop} {N N' : Visible} {leaves : Ty → Prop} {p : Globals → Context → Prop}

/-! ## Tests for null -/

/-- The name that a condition compares with `null`. -/
def Expr.testedName? : Expr → Option String
  | .binary op left right _ =>
    if op = .eq ∨ op = .ne then Check.comparedWithNull? left right else none
  | _ => none

/-- The condition compares no binding of a function around the one at hand with `null`. -/
def Visible.Allows (N : Visible) (condition : Expr) : Prop :=
  ∀ name, condition.testedName? = some name → name ∈ N.own ∨ name ∉ N.outer

namespace Check

/-- A test that is made is of an immutable binding of a nullable type. -/
theorem takes_nullTest? (condition : Expr) : Takes (nullTest? condition) fun env env' test =>
      env' = env ∧ ∀ t, test = some t → ∃ name v, condition.testedName? = some name ∧
      (env.contexts.findSome? fun c => c.find? name) = some v ∧ v.mutable = false ∧
      v.ty = .nullable t.inner ∧
      v.id = t.id ∧ ∃ l r s, condition = .binary (if t.isNe then .ne else .eq) l r s := by
  have hnone {T : Env → NullTest → Prop} :
      Takes (Pure.pure none) fun env env' test => env' = env ∧ ∀ t, test = some t → T env t :=
    (Takes.pure none).weaken fun env _ _ h => ⟨h.2, fun t ht => by rw [h.1] at ht; cases ht⟩
  unfold nullTest?
  split
  · rename_i op left right span
    split
    · rename_i hop
      split
      · rename_i name hname
        refine ((takes_reads fun env => env.contexts.findSome? fun c => c.find? name).bind
          (S := fun r env env' (test : Option NullTest) => env' = env ∧ ∀ t, test = some t →
            ∃ v, r = some v ∧ v.mutable = false ∧ v.ty = .nullable t.inner ∧ v.id = t.id ∧
              t.isNe = decide (op = .ne)) fun r => ?_).weaken ?_
        · split
          · rename_i v
            split
            · exact hnone
            · rename_i hm
              split
              · rename_i inner hty
                refine (Takes.pure _).weaken fun env _ _ h => ⟨h.2, fun t ht => ?_⟩
                rw [h.1] at ht
                cases ht
                exact ⟨v, rfl, Bool.not_eq_true _ ▸ hm, hty, rfl, rfl⟩
              · exact hnone
          · exact hnone
        · rintro env env' test ⟨_, _, ⟨rfl, rfl⟩, rfl, h⟩
          refine ⟨rfl, fun t ht => ?_⟩
          obtain ⟨v, hv, hm, hty, hid, hne⟩ := h t ht
          refine ⟨name, v, ?_, hv, hm, hty, hid, left, right, span, ?_⟩
          · rw [Expr.testedName?, if_pos hop, hname]
          · rw [hne]
            rcases hop with rfl | rfl <;> rfl
      · exact hnone
    · exact hnone
  · exact hnone

/-- A test that is allowed is one that the rules know. -/
theorem exists_testsAs {env : Env} {condition : Expr} {test : Option NullTest}
    (hc : env.Coherent loose N) (hN : N.Allows condition)
    (h : ∀ t, test = some t → ∃ name v, condition.testedName? = some name ∧
      (env.contexts.findSome? fun c => c.find? name) = some v ∧ v.mutable = false ∧
      v.ty = .nullable t.inner ∧
      v.id = t.id ∧ ∃ l r s, condition = .binary (if t.isNe then .ne else .eq) l r s) :
    ∃ named, env.TestsAs test named ∧ ∀ name isNe, named = some (name, isNe) →
      condition.testedName? = some name ∧ ∃ l r s,
      condition = .binary (if isNe then .ne else .eq) l r s := by
  cases test with
  | none => exact ⟨none, trivial, nofun⟩
  | some t =>
    obtain ⟨name, v, hname, hv, hm, hty, hid, hshape⟩ := h t rfl
    refine ⟨some (name, t.isNe), ⟨?_, rfl⟩, fun n b hn => by cases hn; exact ⟨hname, hshape⟩⟩
    obtain ⟨c, outer, hcs⟩ := List.exists_cons_of_ne_nil hc.inside
    have hfind : c.find? name = some v := by
      rw [hcs, List.findSome?_cons] at hv
      cases hf : c.find? name with
      | some w => rwa [hf] at hv
      | none =>
        rw [hf] at hv
        rcases hN name hname with hown | houter
        · have := (hc.own name).2 hown
          rw [Env.find?_context, hcs, List.head?_cons, Option.bind_some, hf] at this
          cases this
        · refine absurd (hc.outer name ?_) houter
          change (Option.map _ (env.contexts.tail.findSome? fun c => c.find? name)).isSome = true
          rw [hcs, List.tail_cons, show (outer.findSome? fun c => c.find? name) = some v from hv]
          rfl
    exact ⟨c, outer, v, hcs, hfind, hm, hty, hid⟩

theorem quiet_coerce_same (e : TExpr) (target : Ty) :
    Quiet (coerce e target) fun _ e' => e.ty = target → e' = e := by
  by_cases h : e.ty = target
  · unfold coerce
    rw [if_pos h]
    exact .pure fun _ _ => rfl
  · exact quiet_coerce.weaken fun _ _ _ h' => absurd h' h

theorem quiet_equalityType (isNe : Bool) (l r : Ty) (span : Option Span) :
    Quiet (binaryType (if isNe then .ne else .eq) l r span) fun _ ty => ty = .bool := by
  have hbool : Quiet (do
      if !(l.assignableTo r || r.assignableTo l) then reportMismatch l r span
      return Ty.bool) fun _ ty => ty = .bool := .reportedIf fun _ => .pure fun _ => rfl
  cases isNe with
  | true => exact hbool
  | false => exact hbool

/-- A comparison with `null` is checked to one, as long as the name means a binding. -/
theorem types_comparison {isNe : Bool} {l r : Expr} {span : Option Span} {name : String}
    (h : comparedWithNull? l r = some name) :
    Types loose N (asCondition (checkExpr (.binary (if isNe then .ne else .eq) l r span)))
      fun _ Γ e =>
      (Γ.type? name).isSome = true → e.ComparesNull name isNe := by
  have hbinding {g : Globals} {Γ : Context} {e : TExpr} {s : Option Span}
      (h : Means loose name s g Γ e)
      (hsome : (Γ.type? name).isSome = true) : ∃ t, e = .mk (.binding name) t s := by
    rcases h with ⟨t, -, -, rfl⟩ | ⟨hnone, -⟩
    · exact ⟨t, rfl⟩
    · rw [hnone] at hsome
      cases hsome
  have hrest (left right : TExpr) :
      Types loose N (binaryType (if isNe then .ne else .eq) left.ty right.ty span >>=
      fun ty => coerce (.mk (.binary (if isNe then .ne else .eq) left right) ty span) .bool)
        fun _ _ e =>
        ∃ ty, e = .mk (.binary (if isNe then .ne else .eq) left right) ty span := by
    refine ((quiet_equalityType isNe left.ty right.ty span).types (reports_binaryType _ _ _ _)).bind
      fun ty => ?_
    refine ((quiet_coerce_same _ .bool).types reports_coerce).weaken fun _ _ e _ h _ hty =>
      ⟨ty, h hty⟩
  unfold comparedWithNull? at h
  split at h
  · rename_i n s s'
    cases h
    refine (types_checkName name s).bind fun left => (hrest left (.mk .null .null s')).weaken ?_
    rintro g Γ _ - ⟨ty, rfl⟩ - hmeans hsome
    obtain ⟨t, rfl⟩ := hbinding hmeans hsome
    exact ⟨t, .null, span, s', s, ty, .inl rfl⟩
  · rename_i s n s'
    cases h
    refine (types_checkName name s').bind fun right => (hrest (.mk .null .null s) right).weaken ?_
    rintro g Γ _ - ⟨ty, rfl⟩ - hmeans hsome
    obtain ⟨t, rfl⟩ := hbinding hmeans hsome
    exact ⟨t, .null, span, s, s', ty, .inr rfl⟩
  · cases h

/-- The head of a branch: what is tested, and the condition. -/
theorem takes_head (hl : loose → ∀ t, leaves t) {condition : Expr} (hN : N.Allows condition)
    (hx : Types loose N (checkExpr condition) (Derives loose leaves))
    {k : Option NullTest → TExpr → Check β} {S : Option NullTest → TExpr → Env → Env → β → Prop}
    (hk : ∀ test c, Takes (k test c) (S test c)) :
    Takes (nullTest? condition >>= fun test =>
      asCondition (checkExpr condition) >>= fun c => k test c)
      fun env env' b => ∃ test c mid, S test c mid env' b ∧
        (env.Coherent loose N → mid.Coherent loose N ∧
        env.Keeps mid ∧ c.Typed env.globals leaves env.context ∧ c.ty = .bool ∧
        ∃ named, mid.TestsAs test named ∧ Tests env.context c named) := by
  have hcondition := types_asCondition hl hx
  have hshape : Takes (asCondition (checkExpr condition)) fun env _ c => env.Coherent loose N →
      ∀ name isNe, condition.testedName? = some name →
        (∃ l r s, condition = .binary (if isNe then .ne else .eq) l r s) →
        (env.context.type? name).isSome = true → c.ComparesNull name isNe := by
    intro env he
    refine ⟨(hcondition env he).1, ?_⟩
    rintro hc name isNe hname ⟨l, r, s, rfl⟩ hsome
    have hcompared : comparedWithNull? l r = some name := by
      cases isNe <;> simpa [Expr.testedName?] using hname
    exact ((types_comparison hcompared env he).2 hc).2.2 hsome
  refine ((takes_nullTest? condition).bind fun test => (hcondition.and hshape).bind fun c =>
    hk test c).weaken ?_
  rintro _ env' b ⟨test, env, ⟨rfl, htest⟩, c, mid, ⟨hc, hshape⟩, hS⟩
  refine ⟨test, c, mid, hS, fun hcoh => ?_⟩
  obtain ⟨hmid, hkeeps, htyped, hbool⟩ := hc hcoh
  obtain ⟨named, hnamed, hsource⟩ := exists_testsAs hcoh hN htest
  refine ⟨hmid, hkeeps, htyped, hbool, named, hnamed.of_resumed hkeeps.contexts,
    fun name isNe hn => ?_⟩
  obtain ⟨hname, hcompares⟩ := hsource name isNe hn
  subst hn
  cases test with
  | none => exact hnamed.elim
  | some t =>
    obtain ⟨⟨f, outer, v, hcs, hfind, hm, hty, -⟩, -⟩ := hnamed
    have hfound : env.context.find? name = some (v.known env.narrowed) := by
      rw [Env.find?_context, hcs, List.head?_cons, Option.bind_some, hfind]
      rfl
    refine ⟨⟨_, t.inner, hfound, hm, hty⟩, hshape hcoh name isNe hname hcompares ?_⟩
    rw [Context.type?, hfound]
    rfl

/-! ## Blocks -/

theorem types_block {x : Check α} {q : Globals → Context → Context → α → Prop}
    (hx : Shifts loose N N' (fun _ _ => True) x q) :
    Types loose N (inBlock x) fun g Γ a => ∃ Δ, q g Γ.opened Δ a := by
  refine (Env.takes_block hx).weaken ?_
  rintro env _ a ⟨mid, h, rfl⟩ hc
  obtain ⟨hmid, hpass, hq⟩ := h hc.opened trivial
  obtain ⟨hkeeps, hclosed⟩ := Env.Passes.closed hc hpass hmid
  have hglobals : env.opened.globals = env.globals := by
    unfold Env.opened Env.modifyHead
    split <;> rfl
  rw [Env.context_opened hc, hglobals] at hq
  exact ⟨hclosed, hkeeps, mid.context, hq⟩

/-! Facts about values that bindings have. -/

theorem types_setInit (I : Env → InitFacts) :
    Types loose N (modify fun e => { e with init := I e }) fun _ _ _ => True :=
  (takes_modify (fun e => { e with init := I e }) fun _ => rfl).weaken
    fun env _ _ he hc => he ▸ ⟨hc.withInit _, Env.keeps_init env _, trivial⟩

theorem types_mergePaths (paths : List InitFacts) :
    Types loose N (mergePaths paths) fun _ _ _ => True := by
  cases paths with
  | nil => exact .pure fun _ _ => trivial
  | cons first rest => exact types_setInit fun _ => rest.foldl InitFacts.join first

theorem types_initFacts : Types loose N initFacts fun _ _ _ => True := reports_reads.types

/-- How deep in loops something stands does not matter for types. -/
theorem types_loopDepth (f : Nat → Nat) :
    Types loose N (modifyContext fun c => { c with loopDepth := f c.loopDepth }) fun _ _ _ =>
      True := by
  refine (takes_modifyContext _).weaken ?_
  rintro env _ _ rfl hc
  obtain ⟨c, outer, hcs⟩ := List.exists_cons_of_ne_nil hc.inside
  have hkeeps : env.Keeps (env.modifyHead fun c => { c with loopDepth := f c.loopDepth }) := by
    rw [Env.modifyHead_eq hcs]
    refine ⟨rfl, ?_, fun _ _ => rfl, le_rfl⟩
    rw [hcs]
    exact .cons ⟨rfl, rfl⟩ (resumed_refl outer)
  refine ⟨hkeeps.coherent hc fun id t ht => (hc.old id t ?_).trans_le hkeeps.nextId,
    hkeeps, trivial⟩
  rw [Env.modifyHead_eq hcs] at ht
  exact ht

theorem types_loop {x : Check α} {q : Globals → Context → Context → α → Prop}
    (hx : Shifts loose N N' (fun _ _ => True) x q) (f : α → β) :
    Types loose N (initFacts >>= fun before => enterLoop >>= fun _ => inBlock x >>= fun a =>
      exitLoop >>= fun _ => initFacts >>= fun after =>
      mergePaths [before, after] >>= fun _ => Pure.pure (f a)) fun g Γ b =>
        ∃ a Δ, b = f a ∧ q g Γ.opened Δ a := by
  refine types_initFacts.after fun before => (types_loopDepth (· + 1)).after fun _ =>
    (types_block hx).bind fun a => ?_
  refine ((types_loopDepth (· - 1)).after fun _ => types_initFacts.after fun after =>
    (types_mergePaths [before, after]).after fun _ =>
      .pure (q := fun _ _ b => b = f a) fun _ _ => rfl).weaken ?_
  rintro g Γ b - rfl - ⟨Δ, h⟩
  exact ⟨a, Δ, rfl, h⟩

/-! ## Branches -/

/-- Facts about null that are forgotten leave the environment as it was. -/
theorem restored {env mid : Env} {test : Option NullTest} {named : Option (String × Bool)}
    {isNe : Bool} (hc : env.Coherent loose N) (ht : env.TestsAs test named)
    (hk : (env.narrowedWhere test isNe).Keeps mid) :
    env.Keeps { mid with narrowed := env.narrowed } ∧
      ({ mid with narrowed := env.narrowed } : Env).Coherent loose N := by
  have hsame : (env.narrowedWhere test isNe).contexts = env.contexts ∧
      (env.narrowedWhere test isNe).globals = env.globals ∧
      (env.narrowedWhere test isNe).nextId = env.nextId := by
    unfold Env.narrowedWhere
    split
    · split <;> exact ⟨rfl, rfl, rfl⟩
    · exact ⟨rfl, rfl, rfl⟩
  have hkeeps : env.Keeps { mid with narrowed := env.narrowed } :=
    ⟨hk.globals.trans hsame.2.1, hsame.1 ▸ hk.contexts, fun _ _ => rfl, hsame.2.2 ▸ hk.nextId⟩
  exact ⟨hkeeps, hkeeps.coherent hc fun id t h => (hc.old id t h).trans_le hkeeps.nextId⟩

/-- A block where the test has an outcome. -/
theorem takes_guardedBlock {x : Check α} {q : Globals → Context → Context → α → Prop}
    (hx : Shifts loose N N' (fun _ _ => True) x q) (test : Option NullTest) (isNe : Bool)
    (mark : List (Nat × Ty)) {k : α → Check β} {S : α → Env → Env → β → Prop}
    (hk : ∀ a, Takes (k a) (S a)) :
    Takes (narrowWhere test isNe >>= fun _ => inBlock x >>= fun a =>
      setNarrowings mark >>= fun _ => k a)
      fun env env' b => ∃ a mid, S a mid env' b ∧ ∀ named, mark = env.narrowed →
        env.Coherent loose N →
        env.TestsAs test named → env.Keeps mid ∧ mid.Coherent loose N ∧
        mid.narrowed = env.narrowed ∧
          ∃ Δ, q env.globals (env.context.narrowIf named isNe).opened Δ a := by
  refine ((Env.takes_narrowWhere test isNe).bind fun _ => Takes.bind (types_block hx) fun a =>
    (takes_modify (fun e => { e with narrowed := mark }) fun _ => rfl).bind fun _ => hk a).weaken ?_
  rintro env env' b ⟨_, _, rfl, a, mid, hblock, _, _, rfl, hS⟩
  refine ⟨a, _, hS, ?_⟩
  rintro named rfl hc ht
  obtain ⟨hnarrowed, hpass, hcontext⟩ := ht.narrowed hc isNe
  obtain ⟨-, hkeeps, Δ, hq⟩ := hblock hnarrowed
  obtain ⟨hk, hcoherent⟩ := restored hc ht hkeeps
  rw [hcontext, hpass.globals] at hq
  exact ⟨hk, hcoherent, rfl, Δ, hq⟩

/-- Statements of a block, which all follow the rules. -/
def BlockTyped (leaves : Ty → Prop) (g : Globals) (Γ Γ' : Context) (r : List TStmt × Bool) : Prop :=
  StmtsTyped g leaves Γ r.1 Γ' ∧ r.2 = stmtsFall r.1

/-- Further branches, of which there are none where none are checked. -/
def FurtherTyped (leaves : Ty → Prop) (elifs : List (Expr × List Stmt)) (g : Globals) (Γ : Context)
    (r : List (TExpr × List TStmt) × List InitFacts) : Prop :=
  ElifsTyped g leaves Γ r.1 ∧ (elifs = [] → r.1 = [])

def LastTyped (leaves : Ty → Prop) (elseBlock : Option (List Stmt)) (g : Globals) (Γ : Context)
    (r : Option (List TStmt) × Bool) : Prop :=
  ElseTyped g leaves Γ r.1 ∧ r.2 = elseFalls r.1 ∧ r.1.isSome = elseBlock.isSome

/-- What is learnt about null after an `if`, by how its blocks end. -/
def Learns (test : Option NullTest) (elifs : List (Expr × List Stmt))
    (elseBlock : Option (List Stmt)) (thenFalls elseFalls : Bool) (env env' : Env) : Prop :=
  env' = env ∨ ∃ t, test = some t ∧ elifs = [] ∧ env' = env.narrowing t.id t.inner ∧
    (if t.isNe then elseBlock.isSome = true ∧ elseFalls = false else thenFalls = false)

theorem takes_branches {elifs : List (Expr × List Stmt)} {elseBlock : Option (List Stmt)}
    {xt : Check (List TStmt × Bool)} {xm : Check (List (TExpr × List TStmt) × List InitFacts)}
    {xl : Check (Option (List TStmt) × Bool)}
    (ht : Shifts loose N N' (fun _ _ => True) xt (BlockTyped leaves))
    (hm : Types loose N xm (FurtherTyped leaves elifs))
    (hl : Types loose N xl (LastTyped leaves elseBlock)) (c : TExpr) (span : Option Span)
    (test : Option NullTest) {k : List TStmt × Bool → List (TExpr × List TStmt) × List InitFacts →
      Option (List TStmt) × Bool → List InitFacts → Check (TStmt × Bool)}
    (hk : ∀ t m l paths, Takes (k t m l paths) fun env env' b =>
      b.1 = .branch c t.1 m.1 l.1 span ∧ Learns test elifs elseBlock t.2 l.2 env env') :
    Takes (initFacts >>= fun before => narrowings >>= fun mark => narrowWhere test true >>= fun _ =>
        inBlock xt >>= fun t => setNarrowings mark >>= fun _ => pathEnd t.2 >>= fun paths =>
        setInitFacts before >>= fun _ => narrowWhere test false >>= fun _ => xm >>= fun m =>
        xl >>= fun l => pathEnd l.2 >>= fun elsePaths => setNarrowings mark >>= fun _ =>
        mergePaths (paths ++ m.2 ++ elsePaths) >>= fun _ => k t m l (paths ++ m.2 ++ elsePaths))
      fun env env' b => ∀ named, env.Coherent loose N → env.TestsAs test named →
        c.Typed env.globals leaves env.context → c.ty = .bool → Tests env.context c named →
        env'.Coherent loose N ∧ env.Passes env' ∧
        b.1.Typed env.globals leaves env.context env'.context := by
  have hmeet (paths : List InitFacts) : Types loose N (mergePaths paths) fun _ _ _ => True :=
    types_mergePaths paths
  refine ((takes_reads Env.init).bind fun before => (takes_reads Env.narrowed).bind fun mark =>
    takes_guardedBlock ht test true mark fun t =>
      (takes_reads fun env => if t.2 then [env.init] else []).bind
      fun paths => (takes_modify (fun e => { e with init := before }) fun _ => rfl).bind fun _ =>
        (Env.takes_narrowWhere test false).bind fun _ => Takes.bind hm fun m =>
          Takes.bind hl fun l =>
          (takes_reads fun env => if l.2 then [env.init] else []).bind fun elsePaths =>
            (takes_modify (fun e => { e with narrowed := mark }) fun _ => rfl).bind fun _ =>
              Takes.bind (hmeet _) fun _ => hk t m l _).weaken ?_
  rintro _ env' b ⟨before, _, ⟨rfl, -⟩, mark, env, ⟨rfl, hmark⟩, t, _,
    ⟨paths, first, ⟨rfl, -⟩, _, _, rfl, _, _, rfl, m, afterElifs, helifs, l, _, helse, elsePaths,
      afterElse, ⟨rfl, -⟩, _, _, rfl, _, last, hmerge, hb, hlearns⟩,
    hthen⟩ named hc htest hcond hbool htests
  -- the first block
  obtain ⟨hkeepsThen, hcThen, hnarrowed, Δ, hblock, hfalls⟩ := hthen named hmark hc htest
  have hcSecond := hcThen.withInit before
  have hkeepsSecond := hkeepsThen.trans (Env.keeps_init first before)
  have htestSecond := htest.of_resumed hkeepsSecond.contexts
  -- the blocks where the condition fails
  obtain ⟨hcOther, hpassOther, hcontextOther⟩ := htestSecond.narrowed hcSecond false
  obtain ⟨hcElifs, hkeepsElifs, helifs, hnone⟩ := helifs hcOther
  obtain ⟨hcElse, hkeepsElse, helse, helseFalls, hsome⟩ := helse hcElifs
  rw [hkeepsElifs.context, hkeepsElifs.globals] at helse
  rw [hcontextOther, hpassOther.globals, hkeepsSecond.context, hkeepsSecond.globals] at helifs helse
  -- where all of them meet
  obtain ⟨hkeepsRest, hcRest⟩ := restored hcSecond htestSecond (hkeepsElifs.trans hkeepsElse)
  have hmark' : mark = first.narrowed := hmark.trans hnarrowed.symm
  rw [hmark'] at hmerge
  obtain ⟨hcLast, hkeepsLast, -⟩ := hmerge hcRest
  have hkeeps := (hkeepsSecond.trans hkeepsRest).trans hkeepsLast
  rw [hb]
  have htyped {Γ' : Context} (h : Γ' = env.context ∨ ∃ name isNe,
      named = some (name, isNe) ∧ m.1 = [] ∧
      Γ' = env.context.narrow name ∧ (if isNe then l.1.isSome = true ∧ elseFalls l.1 = false
        else stmtsFall t.1 = false)) :
      (TStmt.branch c t.1 m.1 l.1 span).Typed env.globals leaves env.context Γ' :=
    ⟨hcond, hbool, named, htests, ⟨Δ, hblock⟩, helifs, helse, h⟩
  rcases hlearns with rfl | ⟨test, rfl, hnil, rfl, hleaves⟩
  · exact ⟨hcLast, hkeeps.passes, htyped (.inl hkeeps.context)⟩
  · -- the test is still about the same binding
    have htestLast := htest.of_resumed hkeeps.contexts
    cases named with
    | none => exact htestLast.elim
    | some n =>
      obtain ⟨name, isNe⟩ := n
      obtain ⟨hcon, rfl⟩ := htestLast
      refine ⟨hcLast.narrowing hcon, hkeeps.passes.trans (hcon.passes hcLast), htyped (.inr ?_)⟩
      refine ⟨name, test.isNe, rfl, hnone hnil, ?_, ?_⟩
      · rw [Env.context_narrowing hcLast hcon, hkeeps.context]
      · rw [hsome, ← helseFalls, ← hfalls]
        exact hleaves

theorem takes_narrowingWhen {c : Prop} [Decidable c] {x : Unit → Check α} {a : α}
    {id : Nat} {ty : Ty} (hx : Takes (x ()) fun env env' b => b = a ∧ env' = env) :
    Takes (if c then narrow id ty >>= x else x ()) fun env env' b =>
      b = a ∧ (env' = env ∨ c ∧ env' = env.narrowing id ty) := by
  split
  · rename_i hc
    refine ((takes_modify (fun env => env.narrowing id ty) fun _ => rfl).bind fun _ => hx).weaken ?_
    rintro env _ _ ⟨_, _, rfl, rfl, rfl⟩
    exact ⟨rfl, .inr ⟨hc, rfl⟩⟩
  · exact hx.weaken fun _ _ _ h => ⟨h.1, .inl h.2⟩

/-- The end of an `if`. -/
theorem takes_learns (test : Option NullTest) (elifs : List (Expr × List Stmt))
    (elseBlock : Option (List Stmt)) (thenFalls elseFalls falls : Bool) (s : TStmt) : Takes (do
      match test with
      | some t =>
        if elifs.isEmpty && (if t.isNe then elseBlock.isSome && !elseFalls else !thenFalls) &&
            falls then
          narrow t.id t.inner
      | none => Pure.pure ()
      return (s, falls)) fun env env' b =>
          b.1 = s ∧ Learns test elifs elseBlock thenFalls elseFalls env env' := by
  have hend : Takes (Pure.pure (s, falls)) fun env env' b => b = (s, falls) ∧ env' = env :=
    Takes.pure _
  cases test with
  | none => exact hend.weaken fun _ _ _ h => ⟨h.1 ▸ rfl, .inl h.2⟩
  | some t =>
    refine (takes_narrowingWhen hend).weaken ?_
    rintro env env' _ ⟨rfl, rfl | ⟨hlearns, rfl⟩⟩
    · exact ⟨rfl, .inl rfl⟩
    · simp only [Bool.and_eq_true, List.isEmpty_iff] at hlearns
      refine ⟨rfl, .inr ⟨t, rfl, hlearns.1.1, rfl, ?_⟩⟩
      have hleaves := hlearns.1.2
      cases ht : t.isNe <;> simpa [ht] using hleaves

theorem types_elif (hl : loose → ∀ t, leaves t) {condition : Expr} {elifs : List (Expr × List Stmt)}
    {xb : Check (List TStmt × Bool)} {xr : Check (List (TExpr × List TStmt) × List InitFacts)}
    (hN : N.Allows condition) (hx : Types loose N (checkExpr condition) (Derives loose leaves))
    (hb : Shifts loose N N' (fun _ _ => True) xb (BlockTyped leaves))
    (hr : Types loose N xr (FurtherTyped leaves elifs)) {body : List Stmt} :
    Types loose N (nullTest? condition >>= fun test =>
      asCondition (checkExpr condition) >>= fun c =>
        initFacts >>= fun before => narrowings >>= fun mark => narrowWhere test true >>= fun _ =>
        inBlock xb >>= fun b => setNarrowings mark >>= fun _ => pathEnd b.2 >>= fun paths =>
        setInitFacts before >>= fun _ => xr >>= fun r => Pure.pure ((c, b.1) :: r.1, paths ++ r.2))
      (FurtherTyped leaves ((condition, body) :: elifs)) := by
  refine (takes_head hl hN hx fun test c => (takes_reads Env.init).bind fun before =>
    (takes_reads Env.narrowed).bind fun mark => takes_guardedBlock hb test true mark fun b =>
      (takes_reads fun env => if b.2 then [env.init] else []).bind fun paths =>
        (takes_modify (fun e => { e with init := before }) fun _ => rfl).bind fun _ =>
          Takes.bind hr fun r =>
          Takes.pure ((c, b.1) :: r.1, paths ++ r.2)).weaken ?_
  rintro env env' _
    ⟨test, c, _, ⟨before, _, ⟨rfl, -⟩, mark, mid, ⟨rfl, hmark⟩, b, _, ⟨paths, first, ⟨rfl, -⟩, _, _,
    rfl, r, last, hrest, rfl, rfl⟩, hblock⟩, hhead⟩ hc
  obtain ⟨hcMid, hkeepsMid, hcond, hbool, named, htest, htests⟩ := hhead hc
  obtain ⟨hkeepsFirst, hcFirst, -, Δ, hbody, -⟩ := hblock named hmark hcMid htest
  obtain ⟨hcLast, hkeepsLast, hrest, -⟩ := hrest (hcFirst.withInit before)
  have hkeeps := (hkeepsMid.trans hkeepsFirst).trans (Env.keeps_init first before)
  rw [hkeeps.context, hkeeps.globals] at hrest
  rw [hkeepsMid.context, hkeepsMid.globals] at hbody
  exact ⟨hcLast, hkeeps.trans hkeepsLast, ⟨hcond, hbool, ⟨named, Δ, htests, hbody⟩, hrest⟩, nofun⟩

/-! ## Lambdas -/

/-- Parameters are declared one after the other. -/
theorem shifts_declareEach (params : List TParam) (names : List String) :
    Shifts loose N (names.foldl Visible.declare N)
      (fun _ _ => params.map TParam.name = names ∧ ∀ p ∈ params, p.ty.Declared loose)
      (forIn params PUnit.unit fun p (_ : PUnit) => do
        declare p.name p.ty p.mutable .param .init p.span
        Pure.pure (ForInStep.yield PUnit.unit)) fun _ Γ Γ' _ =>
          Γ' = params.foldl (fun Γ p => Γ.declare p.name ⟨p.ty, p.mutable, false⟩) Γ := by
  induction params generalizing N names with
  | nil =>
    refine (Takes.pure PUnit.unit).weaken ?_
    rintro env _ _ ⟨rfl, rfl⟩ hc ⟨rfl, -⟩
    exact ⟨hc, .refl _, rfl⟩
  | cons p rest ih =>
    rw [List.forIn_cons]
    have hfirst : Shifts loose N (N.declare p.name) _ _ _ :=
      shifts_declare p.name p.ty p.mutable .param .init p.span
    refine (Takes.bind hfirst fun _ => ih (N := N.declare p.name) names.tail).weaken ?_
    rintro env env' _ ⟨_, mid, hp, hrest⟩ hc ⟨rfl, hd⟩
    obtain ⟨hcMid, hpass, hcontext⟩ := hp hc (hd p List.mem_cons_self)
    obtain ⟨hc', hpass', hcontext'⟩ :=
      hrest hcMid ⟨rfl, fun q hq => hd q (List.mem_cons_of_mem _ hq)⟩
    rw [hcontext] at hcontext'
    exact ⟨hc', hpass.trans hpass', hcontext'⟩

end Check

namespace Env

/-- A function starts with no bindings of its own. -/
theorem Coherent.entered {env : Env} {ret : Ty} {isAsync : Bool} (h : env.Coherent loose N)
    (hret : ret.Declared loose) : (env.entered ret isAsync).Coherent loose ⟨[], N.own ++ N.outer⟩ ∧
      (env.entered ret isAsync).context = .start [] env.context.type? ret := by
  have hcaptured : (env.entered ret isAsync).context.captured = env.context.type? := by
    funext name
    change (env.contexts.findSome? fun c => c.find? name).map
      (fun v => (v.known env.narrowed).read) = _
    cases hv : env.contexts.findSome? fun c => c.find? name with
    | none =>
      have := type?_isSome env name
      rw [hv] at this
      exact (Option.isNone_iff_eq_none.1 (Option.isSome_eq_false_iff.1 this)).symm
    | some v =>
      rw [type?_context h hv, Option.map_some, h.read (mem_varsOf_of_find hv)]
  constructor
  · constructor
    case globals => exact h.globals
    case inside => exact List.cons_ne_nil _ _
    case scopes => exact List.cons_ne_nil _ _
    case distinct => exact h.distinct
    case below => exact h.below
    case types => exact h.types
    case returns => exact List.forall_mem_cons.2 ⟨hret, h.returns⟩
    case old => exact h.old
    case narrowed => exact h.narrowed
    case own =>
      intro n
      rw [find?_context]
      exact ⟨nofun, nofun⟩
    case outer =>
      intro n hn
      rw [hcaptured, Context.type?] at hn
      refine List.mem_append.2 ?_
      cases hf : env.context.find? n with
      | some k => exact .inl ((h.own n).1 (by rw [hf]; rfl))
      | none =>
        rw [hf] at hn
        exact .inr (h.outer n hn)
  · rw [Context.start, List.foldl_nil, ← hcaptured]
    rfl

/-- After a lambda all is as it was before it. -/
theorem Passes.exited {env mid : Env} {ret : Ty} {isAsync : Bool} (h : env.Coherent loose N)
    (hp : (env.entered ret isAsync).Passes mid) (hm : mid.Coherent loose N') :
    env.Keeps mid.exited ∧ mid.exited.Coherent loose N := by
  have hkeeps : env.Keeps mid.exited := ⟨hp.globals, hp.outer, hp.narrowed, hp.nextId⟩
  exact ⟨hkeeps, hkeeps.coherent h hm.old⟩

end Env

namespace Check

/-- The body of a lambda is typed where the names around it are known by their types. -/
theorem takes_lambda {xe : Check PUnit} {xb : Check (List TStmt × Bool)} {params : List TParam}
    {names : List String} {ret : Ty}
    (he : Shifts loose ⟨[], N.own ++ N.outer⟩ (N.lambda names)
      (fun _ _ => params.map TParam.name = names ∧ ∀ p ∈ params, p.ty.Declared loose) xe
      fun _ Γ Γ' _ =>
        Γ' = params.foldl (fun Γ p => Γ.declare p.name ⟨p.ty, p.mutable, false⟩) Γ)
    (hb : Shifts loose (N.lambda names) N' (fun _ _ => True) xb (BlockTyped leaves))
    {k : List TStmt × Bool → Check β} {isAsync : Bool} {f : List TStmt → List String → β}
    (hk : ∀ r, Takes (k r) fun env env' b => (r.2 = true → ret = .void) ∧ b = f r.1 env.captures ∧
      env' = env.exited) :
    Takes (enterFunction ret isAsync >>= fun _ => xe >>= fun _ => xb >>= fun r => k r)
      fun env env' b =>
      env.Coherent loose N → ret.Declared loose → params.map TParam.name = names →
        (∀ p ∈ params, p.ty.Declared loose) → env'.Coherent loose N ∧ env.Keeps env' ∧
        ∃ body captures Γ', b = f body captures ∧ (stmtsFall body = true → ret = .void) ∧
          StmtsTyped env.globals leaves (.start params env.context.type? ret) body Γ' := by
  refine ((takes_enterFunction ret isAsync).bind fun _ => Takes.bind he fun _ =>
    Takes.bind hb fun r =>
    hk r).weaken ?_
  rintro env _ b ⟨_, _, rfl, _, start, he, r, last, hb, hvoid, rfl, rfl⟩ hc hret hnames hparams
  have ⟨hcEntered, hcontext⟩ : (env.entered ret isAsync).Coherent loose _ ∧ _ := hc.entered hret
  obtain ⟨hcStart, hpassStart, hstart⟩ := he hcEntered ⟨hnames, hparams⟩
  obtain ⟨hcLast, hpassLast, hbody, hfalls⟩ := hb hcStart trivial
  obtain ⟨hkeeps, hc'⟩ := (hpassStart.trans hpassLast).exited hc hcLast
  refine ⟨hc', hkeeps, r.1, last.captures, last.context, rfl, fun h => hvoid (hfalls.trans h), ?_⟩
  rw [hstart, hcontext, hpassStart.globals] at hbody
  exact hbody

end Check

end ScopedScript
