import ScopedScript.Proofs.Compile.Releases
import ScopedScript.Proofs.Typing.Looped
import ScopedScript.Proofs.Typing.Checked

/-!
# What lambdas capture

The checker notes a name as captured when it looks it up and does not find it in the function at
hand. So a lambda captures exactly the names that its body uses and neither its parameters nor its
declarations mean, those in lambdas inside it among them.
-/

namespace ScopedScript

/-! ## Names in use -/

def usedNames (uses : List Use) : Set String := {name | ∃ u ∈ uses, u.name = name}

@[simp]
theorem usedNames_nil : usedNames [] = ∅ := by
  simp [usedNames]

@[simp]
theorem usedNames_append (us vs : List Use) :
    usedNames (us ++ vs) = usedNames us ∪ usedNames vs := by
  ext name
  simp only [usedNames, List.mem_append, Set.mem_ofPred_eq, Set.mem_union, or_and_right, exists_or]

@[simp]
theorem usedNames_unlessHidden (name : String) (escapes : Bool) :
    usedNames (Use.unlessHidden [] name escapes) = {name} := by
  ext n
  simp [usedNames, Use.unlessHidden, eq_comm]

theorem usedNames_captures (captures : List String) :
    usedNames (captures.flatMap fun name => Use.unlessHidden [] name true) =
      {name | name ∈ captures} := by
  ext name
  simp [usedNames, Use.unlessHidden]

/-- Declarations hide names from the statements after them. -/
theorem usedNames_cons (s : TStmt) (rest : List TStmt) : usedNames (blockUses [] (s :: rest)) =
    usedNames (stmtUses [] s) ∪ (usedNames (blockUses [] rest) \ {name | name ∈ s.declared}) := by
  rw [blockUses, usedNames_append, List.append_nil]
  congr 1
  ext name
  constructor
  · rintro ⟨u, hu, rfl⟩
    obtain ⟨hu, hd⟩ := (mem_blockUses s.declared rest).1 hu
    exact ⟨⟨u, hu, rfl⟩, hd⟩
  · rintro ⟨⟨u, hu, rfl⟩, hd⟩
    exact ⟨u, (mem_blockUses s.declared rest).2 ⟨hu, hd⟩, rfl⟩

/-- A returned name is one of those that the returned value uses. -/
theorem mem_uses_of_returnedName? {name : String} : {e : TExpr} → returnedName? e = some name →
    name ∈ usedNames (exprUses [] e)
  | .mk (.binding n) _ _, h => by
    obtain rfl : n = name := Option.some.inj h
    change n ∈ usedNames (Use.unlessHidden [] n false)
    rw [usedNames_unlessHidden]
    exact rfl
  | .mk (.box inner) _ _, h | .mk (.unbox inner) _ _, h => mem_uses_of_returnedName? (e := inner) h

theorem usedNames_ret (value : TExpr) (span : Option Span) :
    usedNames (stmtUses [] (.ret (some value) span)) = usedNames (exprUses [] value) := by
  rw [stmtUses, usedNames_append]
  refine Set.union_eq_self_of_subset_left ?_
  cases h : returnedName? value with
  | none => exact (usedNames_nil).subset.trans (Set.empty_subset _)
  | some name =>
    change usedNames (Use.unlessHidden [] name true) ⊆ _
    rw [usedNames_unlessHidden]
    exact Set.singleton_subset_iff.2 (mem_uses_of_returnedName? h)

/-- The captures are the names from outside that the body uses. -/
def Body.Sealed (b : Body) : Prop := ∀ name,
  name ∈ b.captures ↔ name ∈ usedNames (blockUses [] b.stmts) ∧ name ∉ b.params.map TParam.name

def AllSealed (bodies : List Body) : Prop := ∀ b ∈ bodies, b.Sealed

@[simp]
theorem allSealed_nil : AllSealed [] := nofun

@[simp]
theorem allSealed_append {as bs : List Body} : AllSealed (as ++ bs) ↔ AllSealed as ∧ AllSealed bs :=
  List.forall_mem_append

/-- Something has been checked that uses these names and has these lambdas in it. -/
structure Exact (uses : List Use) (bodies : List Body) (names : Set String) : Prop where
  names : names = usedNames uses
  bodies : AllSealed bodies

section

variable {us vs : List Use} {as bs : List Body} {N M : Set String}

theorem Exact.nil : Exact [] [] ∅ := ⟨usedNames_nil.symm, allSealed_nil⟩

theorem Exact.append (h : Exact us as N) (h' : Exact vs bs M) :
    Exact (us ++ vs) (as ++ bs) (N ∪ M) :=
  ⟨by rw [usedNames_append, h.names, h'.names], allSealed_append.2 ⟨h.bodies, h'.bodies⟩⟩

/-- Nothing more is used. -/
theorem Exact.last (h : Exact us as N) : Exact us as (N ∪ ∅) := by
  rwa [Set.union_empty]

theorem Exact.congr (h : Exact us as N) (hu : usedNames vs = usedNames us) (hb : bs = as) :
    Exact vs bs N :=
  ⟨h.names.trans hu.symm, hb ▸ h.bodies⟩

/-- An expression that enters or leaves `any` uses what it used before. -/
theorem Check.Coerced.exact {e e' : TExpr} (h : Coerced e e')
    (he : Exact (exprUses [] e) (exprBodies e) N) : Exact (exprUses [] e') (exprBodies e') N := by
  cases h with
  | same => exact he
  | boxed => exact he
  | unboxed => exact he

end

/-! ## Functions being checked -/

/-- The names that mean nothing in this function alone. -/
def FnContext.missing (c : FnContext) : Set String := {name | c.find? name = none}

/-- Between the two these names have been looked up: each function that does not have one of them
has captured it, up to the function that has it. -/
def Marked : Set String → List FnContext → List FnContext → Prop
  | _, [], [] => True
  | names, c :: outer, c' :: outer' => c'.scopes = c.scopes ∧
    (∀ name, name ∈ c'.captures ↔ name ∈ c.captures ∨ name ∈ names ∩ c.missing) ∧
      Marked (names ∩ c.missing) outer outer'
  | _, [], _ :: _ => False
  | _, _ :: _, [] => False

/-- As `Marked`, where names have been declared in the innermost scope. -/
def Passed (declared : List String) (names : Set String) : List FnContext → List FnContext → Prop
  | c :: outer, c' :: outer' => c'.scopes ≠ [] ∧ c'.scopes.tail = c.scopes.tail ∧
    c'.missing = c.missing \ {name | name ∈ declared} ∧
    (∀ name, name ∈ c'.captures ↔ name ∈ c.captures ∨ name ∈ names ∩ c.missing) ∧
      Marked (names ∩ c.missing) outer outer'
  | _, _ => False

section

variable {N M : Set String} {as bs cs : List FnContext} {D D' : List String}

theorem missing_of_scopes {c c' : FnContext} (h : c'.scopes = c.scopes) :
    c'.missing = c.missing := by
  ext name
  change c'.find? name = none ↔ c.find? name = none
  rw [FnContext.find?, FnContext.find?, h]

theorem marked_refl (cs : List FnContext) : Marked ∅ cs cs := by
  induction cs with
  | nil => trivial
  | cons c outer ih =>
    refine ⟨rfl, fun name => by simp, ?_⟩
    rw [Set.empty_inter]
    exact ih

theorem Marked.trans (h : Marked N as bs) (h' : Marked M bs cs) : Marked (N ∪ M) as cs := by
  induction as generalizing N M bs cs with
  | nil =>
    cases bs with
    | nil =>
      cases cs with
      | nil => trivial
      | cons _ _ => exact h'.elim
    | cons _ _ => exact h.elim
  | cons a as ih =>
    cases bs with
    | nil => exact h.elim
    | cons b bs =>
      cases cs with
      | nil => exact h'.elim
      | cons c cs =>
        obtain ⟨hs, hc, hr⟩ := h
        obtain ⟨hs', hc', hr'⟩ := h'
        rw [missing_of_scopes hs] at hc' hr'
        refine ⟨hs'.trans hs, fun name => ?_, ?_⟩
        · rw [hc', hc, Set.union_inter_distrib_right, Set.mem_union, or_assoc]
        · rw [Set.union_inter_distrib_right]
          exact ih hr hr'

/-- Only names that the innermost function does not have matter to the others. -/
theorem Marked.congr {c : FnContext} (hc : as = c :: bs) (h : Marked N as cs)
    (hN : N ∩ c.missing = M ∩ c.missing) : Marked M as cs := by
  subst hc
  cases cs with
  | nil => exact h.elim
  | cons c' cs =>
    obtain ⟨hs, hcap, hr⟩ := h
    exact ⟨hs, hN ▸ hcap, hN ▸ hr⟩

/-- What is captured where a name is looked up. -/
theorem marked_resolveIn {name : String} {v : Var} (h : resolveIn name cs = some (v, bs)) :
    Marked {name} cs bs := by
  induction cs generalizing v bs with
  | nil => cases h
  | cons c outer ih =>
    rw [resolveIn] at h
    split at h
    · rename_i w hw
      cases h
      refine (marked_refl _).congr rfl ?_
      ext n
      simp only [Set.empty_inter, Set.mem_empty_iff_false, Set.mem_inter_iff,
        Set.mem_singleton_iff, false_iff]
      rintro ⟨rfl, hn⟩
      rw [show c.find? n = none from hn] at hw
      cases hw
    · rename_i hnone
      obtain ⟨⟨w, outer'⟩, ho, he⟩ := Option.map_eq_some_iff.1 h
      cases he
      have hinter : {name} ∩ c.missing = {name} :=
        Set.inter_eq_left.2 (Set.singleton_subset_iff.2 hnone)
      refine ⟨(FnContext.grown_capture c name).scopes, fun n => ?_, ?_⟩
      · rw [hinter, Set.mem_singleton_iff]
        constructor
        · exact FnContext.mem_of_mem_capture
        · rintro (hn | rfl)
          · exact (FnContext.grown_capture c name).captures hn
          · exact FnContext.mem_capture c n
      · rw [hinter]
        exact ih ho

theorem Marked.passed (h : Marked N as bs) (ha : as ≠ []) (hs : (as.head ha).scopes ≠ []) :
    Passed [] N as bs := by
  cases as with
  | nil => exact absurd rfl ha
  | cons a as =>
    cases bs with
    | nil => exact h.elim
    | cons b bs =>
      obtain ⟨hsc, hc, hr⟩ := h
      refine ⟨hsc ▸ hs, congrArg List.tail hsc, ?_, hc, hr⟩
      rw [missing_of_scopes hsc]
      simp

theorem Marked.before (h : Marked N as bs) (h' : Passed D M bs cs) : Passed D (N ∪ M) as cs := by
  cases as with
  | nil =>
    cases bs with
    | nil => exact h'.elim
    | cons _ _ => exact h.elim
  | cons a as =>
    cases bs with
    | nil => exact h.elim
    | cons b bs =>
      cases cs with
      | nil => exact h'.elim
      | cons c cs =>
        obtain ⟨hs, hc, hr⟩ := h
        obtain ⟨hne, htail, hmiss, hc', hr'⟩ := h'
        rw [missing_of_scopes hs] at hmiss hc' hr'
        refine ⟨hne, htail.trans (congrArg List.tail hs), hmiss, fun name => ?_, ?_⟩
        · rw [hc', hc, Set.union_inter_distrib_right, Set.mem_union, or_assoc]
        · rw [Set.union_inter_distrib_right]
          exact hr.trans hr'

/-- Statements one after the other: what the first ones declare is not looked up further out. -/
theorem Passed.trans (h : Passed D N as bs) (h' : Passed D' M bs cs) :
    Passed (D' ++ D) (N ∪ (M \ {name | name ∈ D})) as cs := by
  cases as with
  | nil => exact h.elim
  | cons a as =>
    cases bs with
    | nil => exact h.elim
    | cons b bs =>
      cases cs with
      | nil => exact h'.elim
      | cons c cs =>
        obtain ⟨-, htail, hmiss, hc, hr⟩ := h
        obtain ⟨hne, htail', hmiss', hc', hr'⟩ := h'
        have hinter : M ∩ b.missing = (M \ {name | name ∈ D}) ∩ a.missing := by
          rw [hmiss]
          ext name
          simp only [Set.mem_inter_iff, Set.mem_sdiff, Set.mem_ofPred_eq]
          tauto
        rw [hinter] at hc' hr'
        refine ⟨hne, htail'.trans htail, ?_, fun name => ?_, ?_⟩
        · rw [hmiss', hmiss, Set.sdiff_sdiff]
          congr 1
          ext name
          simp only [List.mem_append, Set.mem_ofPred_eq, Set.mem_union]
          tauto
        · rw [hc', hc, Set.union_inter_distrib_right, Set.mem_union, or_assoc]
        · rw [Set.union_inter_distrib_right]
          exact hr.trans hr'

end

/-- Something is being checked in an open scope of a function. -/
def Env.Inside (env : Env) : Prop := ∃ c outer, env.contexts = c :: outer ∧ c.scopes ≠ []

section

variable {env env' : Env} {N : Set String} {D : List String}

theorem Env.Inside.marked (h : env.Inside) (hm : Marked N env.contexts env'.contexts) :
    env'.Inside := by
  obtain ⟨c, outer, hc, hs⟩ := h
  rw [hc] at hm
  cases hc' : env'.contexts with
  | nil =>
    rw [hc'] at hm
    exact hm.elim
  | cons c' outer' =>
    rw [hc'] at hm
    exact ⟨c', outer', hc', hm.1 ▸ hs⟩

theorem Env.Inside.passed (h : env.Inside) (hm : Marked N env.contexts env'.contexts) :
    Passed [] N env.contexts env'.contexts := by
  obtain ⟨c, outer, hc, hs⟩ := h
  rw [hc] at hm ⊢
  exact hm.passed (List.cons_ne_nil _ _) hs

theorem Passed.inside (h : Passed D N env.contexts env'.contexts) : env'.Inside := by
  cases hc : env.contexts with
  | nil =>
    rw [hc] at h
    exact h.elim
  | cons c outer =>
    cases hc' : env'.contexts with
    | nil =>
      rw [hc, hc'] at h
      exact h.elim
    | cons c' outer' =>
      rw [hc, hc'] at h
      exact ⟨c', outer', hc', h.1⟩

end

/-! ## Computations of the checker -/

namespace Check

/-- In a computation that ends without errors names are looked up, and its value tells which. -/
def Seals (x : Check α) (q : Set String → α → Prop) : Prop :=
  Takes x fun env env' a => env.Inside → ∃ names,
    Marked names env.contexts env'.contexts ∧ q names a

/-- As `Seals`, for a statement, which may declare names. -/
def SealsStmt (x : Check (TStmt × Bool)) (q : Set String → TStmt × Bool → Prop) : Prop :=
  Takes x fun env env' r => env.Inside →
    ∃ names, Passed r.1.declared names env.contexts env'.contexts ∧ q names r

/-- As `Seals`, for the statements of one scope. -/
def SealsStmts (x : Check (List TStmt × Bool)) : Prop :=
  Takes x fun env env' r => env.Inside → ∃ names declared,
    Passed declared names env.contexts env'.contexts ∧
    Exact (blockUses [] r.1) (stmtsBodies r.1) names

variable {q : Set String → α → Prop} {r : Set String → β → Prop}

theorem Seals.pure {a : α} (h : q ∅ a) : Seals (Pure.pure a) q := by
  refine (Takes.pure a).weaken ?_
  rintro env env' _ ⟨rfl, rfl⟩ -
  exact ⟨∅, marked_refl _, h⟩

theorem Seals.bind {x : Check α} {y : α → Check β} (hx : Seals x q)
    (hy : ∀ a, Seals (y a) fun M b => ∀ N, q N a → r (N ∪ M) b) : Seals (x >>= y) r := by
  refine (Takes.bind hx hy).weaken ?_
  rintro env env' b ⟨a, mid, hx, hy⟩ hin
  obtain ⟨N, hN, hq⟩ := hx hin
  obtain ⟨M, hM, hr⟩ := hy (hin.marked hN)
  exact ⟨N ∪ M, hN.trans hM, hr N hq⟩

theorem Seals.weaken {x : Check α} {q' : Set String → α → Prop} (hx : Seals x q)
    (h : ∀ N a, q N a → q' N a) : Seals x q' :=
  Takes.weaken hx fun _ _ _ hx hin => (hx hin).imp fun N hN => ⟨hN.1, h N _ hN.2⟩

/-- A step that looks up nothing. -/
theorem Seals.skip {x : Check α} {y : α → Check β} (hx : Seals x fun N _ => N = ∅)
    (hy : ∀ a, Seals (y a) r) : Seals (x >>= y) r :=
  hx.bind fun a => (hy a).weaken fun M b h N hN => by
    subst hN
    rwa [Set.empty_union]

theorem Seals.reported {x : Check α} {q' : Set String → α → Prop} {cause : TypeCause}
    {span : Option Span} (hx : Seals x q) : Seals (report cause span >>= fun _ => x) q' :=
  Takes.reported hx

theorem Seals.reportedIf {c : Prop} [Decidable c] {x : Unit → Check α} {cause : TypeCause}
    {span : Option Span}
    (hx : Seals (x ()) q) : Seals (if c then report cause span >>= x else x ()) q :=
  (Takes.reportedIf hx).weaken fun _ _ _ h => h.2

/-- Nothing is said of a computation that reports an error. -/
theorem Seals.failed {a : α} {cause : TypeCause} {span : Option Span} :
    Seals (report cause span >>= fun _ => Pure.pure a) q :=
  .reported (q := fun _ _ => True) (.pure trivial)

/-- A step that leaves the functions being checked as they are. -/
theorem Takes.seals {x : Check α} {T : Env → Env → α → Prop} (hx : Takes x T)
    (h : ∀ env env' a, T env env' a → env'.contexts = env.contexts ∧ q ∅ a) : Seals x q :=
  Takes.weaken hx fun env env' a ht _ => by
    obtain ⟨hc, hq⟩ := h env env' a ht
    exact ⟨∅, hc ▸ marked_refl _, hq⟩

theorem Quiet.seals {x : Check α} {Q : Globals → α → Prop} (hx : Quiet x Q) :
    Seals x fun N _ => N = ∅ :=
  (Quiet.takes hx).seals fun _ _ _ ⟨⟨_, h⟩, _⟩ => ⟨by rw [h], rfl⟩

theorem seals_reads {f : Env → α} : Seals (do return f (← get)) fun N _ => N = ∅ :=
  (takes_reads f).seals fun _ _ _ h => ⟨by rw [h.1], rfl⟩

theorem seals_modify {g : Env → Env} (he : ∀ env, (g env).errors = env.errors)
    (hc : ∀ env, (g env).contexts = env.contexts) : Seals (modify g) fun N _ => N = ∅ :=
  (takes_modify g he).seals fun env _ _ h => ⟨by rw [h, hc], rfl⟩

theorem seals_setNarrowings (n : List (Nat × Ty)) : Seals (setNarrowings n) fun N _ => N = ∅ :=
  seals_modify (fun _ => rfl) fun _ => rfl

theorem seals_setInitFacts (f : InitFacts) : Seals (setInitFacts f) fun N _ => N = ∅ :=
  seals_modify (fun _ => rfl) fun _ => rfl

theorem seals_mergePaths (paths : List InitFacts) : Seals (mergePaths paths) fun N _ => N = ∅ :=
  (takes_mergePaths paths).seals fun _ _ _ h => ⟨by rw [h], rfl⟩

theorem seals_pathEnd (falls : Bool) : Seals (pathEnd falls) fun N _ => N = ∅ := seals_reads

/-- A change of the innermost function that keeps its names. -/
theorem seals_modifyContext {g : FnContext → FnContext} (hs : ∀ c, (g c).scopes = c.scopes)
    (hc : ∀ c, (g c).captures = c.captures) : Seals (modifyContext g) fun N _ => N = ∅ := by
  refine (takes_modifyContext g).weaken ?_
  rintro env _ _ rfl ⟨c, outer, he, -⟩
  rw [Env.modifyHead_eq he, he]
  refine ⟨∅, ⟨hs c, fun name => ?_, ?_⟩, rfl⟩
  · rw [hc, Set.empty_inter]
    exact (or_iff_left id).symm
  · rw [Set.empty_inter]
    exact marked_refl outer

theorem seals_enterLoop : Seals enterLoop fun N _ => N = ∅ :=
  seals_modifyContext (fun _ => rfl) fun _ => rfl

theorem seals_exitLoop : Seals exitLoop fun N _ => N = ∅ :=
  seals_modifyContext (fun _ => rfl) fun _ => rfl

theorem seals_coerce {e : TExpr} {target : Ty} : Seals (coerce e target) fun M e' =>
    ∀ N, Exact (exprUses [] e) (exprBodies e) N → Exact (exprUses [] e') (exprBodies e') (N ∪ M) :=
  (Quiet.takes quiet_coerce).seals fun _ _ _ ⟨⟨_, h⟩, hc⟩ =>
    ⟨by rw [h], fun _ he => (hc.exact he).last⟩

theorem Seals.asCondition {x : Check TExpr}
    (h : Seals x fun N e => Exact (exprUses [] e) (exprBodies e) N) :
    Seals (asCondition x) fun N e => Exact (exprUses [] e) (exprBodies e) N :=
  h.bind fun _ => seals_coerce

/-- Before the rest of a computation a value enters or leaves `any`. -/
theorem Seals.coerced {x : Check TExpr} {target : Ty} {y : TExpr → Check β}
    (hx : Seals x fun N e => Exact (exprUses [] e) (exprBodies e) N)
    (hy : ∀ e, Seals (y e) fun M b => ∀ N, Exact (exprUses [] e) (exprBodies e) N → r (N ∪ M) b) :
    Seals (x >>= fun e => coerce e target >>= y) r :=
  hx.bind fun _ => seals_coerce.bind fun e => (hy e).weaken fun M b h K hK N hN => by
    rw [← Set.union_assoc]
    exact h _ (hK N hN)

theorem seals_checkName (name : String) (span : Option Span) :
    Seals (checkName name span) fun N e => Exact (exprUses [] e) (exprBodies e) N := by
  refine ((takes_lookup name).bind (S := fun r env env' e => env'.contexts = env.contexts ∧
    ((r.isSome ∧ ∃ ty, e = .mk (.binding name) ty span) ∨
      r = none ∧ exprUses [] e = [] ∧ exprBodies e = [])) fun r => ?_).weaken ?_
  · split
    · rename_i v
      have hrest : Takes (narrowedType? v.id >>= fun ty =>
          Pure.pure (TExpr.mk (.binding name) (ty.getD v.ty) span)) fun env env' e =>
            env'.contexts = env.contexts ∧
              ((some v).isSome ∧ (∃ ty, e = .mk (.binding name) ty span) ∨
              some v = none ∧ exprUses [] e = [] ∧ exprBodies e = []) :=
        fun _ he => ⟨he, rfl, .inl ⟨rfl, _, rfl⟩⟩
      refine ((takes_reads fun env => env.init.state v.id).bind (S := fun _ env env' e =>
        env'.contexts = env.contexts ∧ ((some v).isSome ∧ (∃ ty, e = .mk (.binding name) ty span) ∨
          some v = none ∧ exprUses [] e = [] ∧ exprBodies e = [])) fun state => ?_).weaken ?_
      · split
        · exact hrest
        · exact .reported hrest
        · exact .reported hrest
      · rintro env env' e ⟨_, _, ⟨rfl, -⟩, h⟩
        exact h
    · refine (Quiet.takes (quiet_global name span)).weaken ?_
      rintro env env' e ⟨⟨n, rfl⟩, ⟨ty, rfl, -⟩ | ⟨ty, rfl⟩⟩
      · exact ⟨rfl, .inr ⟨rfl, rfl, rfl⟩⟩
      · exact ⟨rfl, .inr ⟨rfl, rfl, rfl⟩⟩
  · rintro env env' e ⟨r, mid, hr, hc, ⟨hsome, ty, rfl⟩ | ⟨rfl, hu, hb⟩⟩ -
    · obtain ⟨rfl, -⟩ | ⟨v, cs, rfl, hresolve, rfl⟩ := hr
      · cases hsome
      · exact ⟨{name}, hc ▸ marked_resolveIn hresolve, (usedNames_unlessHidden name false).symm,
          allSealed_nil⟩
    · obtain ⟨-, rfl⟩ | ⟨v, cs, hv, -⟩ := hr
      · exact ⟨∅, hc ▸ marked_refl _, Exact.nil.congr (congrArg usedNames hu) hb⟩
      · cases hv

/-! ## Struct initializers -/

/-- The values that fill slots use these names, and the lambdas in them are sealed. -/
structure SlotsExact (slots : List (Option TExpr)) (names : Set String) : Prop where
  names : names = {name | ∃ e, some e ∈ slots ∧ name ∈ usedNames (exprUses [] e)}
  bodies : ∀ e, some e ∈ slots → AllSealed (exprBodies e)

theorem slotsExact_replicate (n : Nat) : SlotsExact (List.replicate n none) ∅ where
  names := by
    refine (Set.eq_empty_of_forall_notMem ?_).symm
    rintro name ⟨e, he, -⟩
    cases List.eq_of_mem_replicate he
  bodies := fun e he => nomatch List.eq_of_mem_replicate he

theorem SlotsExact.set {slots : List (Option TExpr)} {K N : Set String}
    (h : SlotsExact slots K) {i : Nat} (hi : slots[i]? = some none) {v : TExpr}
    (hv : Exact (exprUses [] v) (exprBodies v) N) :
    SlotsExact (slots.set i (some v)) (K ∪ N) := by
  have hmem (e : TExpr) : some e ∈ slots.set i (some v) ↔ some e ∈ slots ∨ e = v := by
    simp only [List.mem_iff_getElem?, List.getElem?_set]
    constructor
    · rintro ⟨j, hj⟩
      split at hj
      · split at hj
        · exact .inr (Option.some.inj (Option.some.inj hj)).symm
        · cases hj
      · exact .inl ⟨j, hj⟩
    · rintro (⟨j, hj⟩ | rfl)
      · refine ⟨j, ?_⟩
        rw [if_neg]
        · exact hj
        · rintro rfl
          rw [hi] at hj
          cases hj
      · exact ⟨i, by rw [if_pos rfl, if_pos (List.getElem?_eq_some_iff.1 hi).1]⟩
  constructor
  case names =>
    ext name
    rw [h.names, hv.names]
    simp only [Set.mem_union, Set.mem_ofPred_eq, hmem, or_and_right, exists_or, exists_eq_left]
  case bodies =>
    intro e he
    rcases (hmem e).1 he with he | rfl
    · exact h.bodies e he
    · exact hv.bodies

theorem lt_of_field? {sig : StructSig} {field : String} {index : Nat} {ty : Ty}
    (h : sig.field? field = some (index, ty)) : index < sig.fields.length := by
  have hgo (fields : List (String × Ty)) (i : Nat)
      (h : StructSig.field?.go field fields i = some (index, ty)) : index < i + fields.length := by
    induction fields generalizing i with
    | nil => cases h
    | cons f rest ih =>
      obtain ⟨n, t⟩ := f
      rw [StructSig.field?.go] at h
      split at h
      · cases h
        exact Nat.lt_add_of_pos_right (Nat.succ_pos _)
      · have := ih (i + 1) h
        rw [List.length_cons]
        omega
  exact (Nat.zero_add sig.fields.length) ▸ hgo sig.fields 0 h

/-- The names that an initializer has looked up are those of its slots. -/
def Fills (sig : StructSig) (slots slots' : List (Option TExpr)) (names : Set String) : Prop :=
  slots.length = sig.fields.length →
    slots'.length = sig.fields.length ∧ ∀ K, SlotsExact slots K → SlotsExact slots' (K ∪ names)

theorem seals_initSlot (struct : String) (sig : StructSig) (field : String) (value : TExpr)
    (span : Option Span) (slots : List (Option TExpr)) :
    Seals (initSlot struct sig field value span slots) fun M slots' =>
      ∀ N, Exact (exprUses [] value) (exprBodies value) N → Fills sig slots slots' (N ∪ M) := by
  unfold initSlot
  split
  · rename_i index ty hfield
    split
    · exact .failed
    · rename_i hslot
      refine seals_coerce.bind fun v => .pure fun M hv N hN hlen =>
        ⟨by rw [List.length_set, hlen], fun K hK => ?_⟩
      have hi : slots[index]? = some none := by
        have hlt : index < slots.length := hlen ▸ lt_of_field? hfield
        cases hs : slots[index]? with
        | none => exact absurd (List.getElem?_eq_none_iff.1 hs) (Nat.not_le.2 hlt)
        | some s =>
          cases s with
          | none => rfl
          | some e => exact absurd hs (hslot e)
      rw [Set.union_empty]
      exact hK.set hi (hv N hN)
  · exact .failed

theorem takes_fillSlots (struct : String) (span : Option Span) : (fields : List (String × Ty)) →
    (slots : List (Option TExpr)) → Takes (fillSlots struct span fields slots)
      fun env env' values =>
      env' = env ∧ (slots.length = fields.length → slots = values.map some)
  | (_, _) :: fields, some value :: slots => by
    refine ((takes_fillSlots struct span fields slots).bind fun _ => Takes.pure _).weaken ?_
    rintro env env' values ⟨rest, _, ⟨rfl, hrest⟩, rfl, rfl⟩
    refine ⟨rfl, fun hlen => ?_⟩
    rw [List.map_cons, ← hrest (Nat.succ.inj hlen)]
  | (_, _) :: fields, none :: slots =>
    Takes.reported ((takes_fillSlots struct span fields slots).bind fun _ => Takes.pure _)
  | [], slots => (Takes.pure _).weaken fun _ _ _ h => ⟨h.2, fun hlen => by
      rw [h.1, List.length_eq_zero_iff.1 hlen]
      rfl⟩
  | _ :: _, [] => (Takes.pure _).weaken fun _ _ _ h => ⟨h.2, fun hlen => nomatch hlen⟩

theorem SlotsExact.values {values : List TExpr} {N : Set String}
    (h : SlotsExact (values.map some) N) : Exact (exprsUses [] values) (exprsBodies values) N := by
  have hnames (vs : List TExpr) : usedNames (exprsUses [] vs) =
      {name | ∃ e ∈ vs, name ∈ usedNames (exprUses [] e)} := by
    induction vs with
    | nil => simp [exprsUses]
    | cons v rest ih =>
      rw [exprsUses, usedNames_append, ih]
      ext name
      simp
  have hbodies (vs : List TExpr) (hvs : ∀ e ∈ vs, AllSealed (exprBodies e)) :
      AllSealed (exprsBodies vs) := by
    induction vs with
    | nil => exact allSealed_nil
    | cons v rest ih =>
      obtain ⟨hv, hrest⟩ := List.forall_mem_cons.1 hvs
      exact allSealed_append.2 ⟨hv, ih hrest⟩
  refine ⟨?_, hbodies values fun e he => h.bodies e (List.mem_map_of_mem he)⟩
  rw [h.names, hnames]
  simp

/-! ## Scopes -/

/-- A name is declared. -/
theorem takes_declares (name : String) (ty : Ty) (mutable : Bool) (kind : VarKind)
    (state : InitState) (declaredAt : Option Span) :
    Takes (declare name ty mutable kind state declaredAt) fun env env' _ =>
      env.Inside → Passed [name] ∅ env.contexts env'.contexts := by
  refine (takes_declare name ty mutable kind state declaredAt).weaken ?_
  rintro env _ _ rfl ⟨c, outer, hc, hs⟩
  obtain ⟨scope, more, hs⟩ := List.exists_cons_of_ne_nil hs
  rw [Env.contexts_declared hc, hc]
  refine ⟨?_, FnContext.tail_scopes_declare _ _ _, ?_, fun n => ?_, ?_⟩
  · simp [FnContext.declare, hs]
  · ext n
    change (c.declare name _).find? n = none ↔ c.find? n = none ∧ n ∉ [name]
    simp only [FnContext.find?, FnContext.declare, hs, List.findSome?_cons, List.lookup_cons,
      List.mem_singleton]
    cases hn : n == name with
    | true => simp [beq_iff_eq.1 hn]
    | false => simp [ne_of_beq_false hn]
  · rw [FnContext.captures_declare, Set.empty_inter]
    exact (or_iff_left id).symm
  · rw [Set.empty_inter]
    exact marked_refl outer

/-- Parameters are declared one after the other. -/
def Names (params : List TParam) (env env' : Env) : Prop :=
  env.Inside → ∃ D, Passed D ∅ env.contexts env'.contexts ∧ ∀ name, name ∈ D ↔
    name ∈ params.map TParam.name

theorem names_nil {env : Env} : Names [] env env :=
  fun h => ⟨[], h.passed (marked_refl _), fun _ => Iff.rfl⟩

theorem Names.append {ps qs : List TParam} {env mid env' : Env} (h : Names ps env mid)
    (h' : Names qs mid env') : Names (ps ++ qs) env env' := by
  intro hin
  obtain ⟨D, hD, hmem⟩ := h hin
  obtain ⟨D', hD', hmem'⟩ := h' hD.inside
  refine ⟨D' ++ D, ?_, fun name => ?_⟩
  · have := hD.trans hD'
    rwa [Set.empty_sdiff, Set.union_empty] at this
  · rw [List.mem_append, hmem, hmem', List.map_append, List.mem_append]
    exact or_comm

theorem Names.cons {p : TParam} {ps : List TParam} {env mid env' : Env} (h : Names [p] env mid)
    (h' : Names ps mid env') : Names (p :: ps) env env' := h.append h'

theorem names_declare (p : TParam) (kind : VarKind) (span : Option Span) :
    Takes (declare p.name p.ty p.mutable kind .init span) fun env env' _ => Names [p] env env' :=
  (takes_declares _ _ _ _ _ _).weaken fun _ _ _ h hin => ⟨[p.name], h hin, fun _ => Iff.rfl⟩

theorem names_declareEach (params : List TParam) :
    Takes (forIn params PUnit.unit fun p (_ : PUnit) => do
      declare p.name p.ty p.mutable .param .init p.span
      Pure.pure (ForInStep.yield PUnit.unit)) fun env env' _ => Names params env env' := by
  induction params with
  | nil =>
    refine (Takes.pure _).weaken ?_
    rintro env env' _ ⟨-, rfl⟩
    exact names_nil
  | cons p rest ih =>
    rw [List.forIn_cons]
    refine ((names_declare p .param p.span).bind fun _ => ih).weaken ?_
    rintro env env' _ ⟨_, mid, h, h'⟩
    exact h.cons h'

/-- A function that is checked between entering and leaving it captures what its statements look up
and do not find. -/
theorem takes_function {xe : Check PUnit} {xb : Check (List TStmt × Bool)}
    {params : List TParam} {ret : Ty} {isAsync : Bool}
    (he : Takes xe fun env env' _ => Names params env env') (hb : SealsStmts xb)
    {k : List TStmt × Bool → Check β} {g : List TStmt → List String → β}
    (hk : ∀ r, Takes (k r) fun env env' b => b = g r.1 env.captures ∧ env' = env.exited) :
    Takes (enterFunction ret isAsync >>= fun _ => xe >>= fun _ => xb >>= fun r => k r)
      fun env env' b =>
      ∃ body captures, b = g body captures ∧ AllSealed (stmtsBodies body) ∧
        (∀ span, (Body.mk params ret body captures isAsync span).Sealed) ∧
        Marked {name | name ∈ captures} env.contexts env'.contexts := by
  refine ((takes_enterFunction ret isAsync).bind fun _ => he.bind fun _ => hb.bind fun r =>
    hk r).weaken ?_
  rintro env env' b ⟨_, _, rfl, _, mid, he, r, last, hb, rfl, rfl⟩
  obtain ⟨D, hD, hparams⟩ := he ⟨_, _, rfl, List.cons_ne_nil _ _⟩
  obtain ⟨N, D', hN, hexact⟩ := hb hD.inside
  have h := hD.trans hN
  rw [Set.empty_union] at h
  obtain ⟨c, outer, hlast, -⟩ := hN.inside
  rw [hlast] at h
  obtain ⟨-, -, -, hcap, hr⟩ := h
  -- in the function's first scope nothing has been declared
  have hmissing : FnContext.missing ⟨ret, isAsync, [[]], 0, []⟩ = Set.univ :=
    Set.eq_univ_of_forall fun _ => rfl
  rw [hmissing, Set.inter_univ] at hcap hr
  have hcaptures : ∀ name, name ∈ last.captures ↔ name ∈ N \ {name | name ∈ D} := by
    intro name
    rw [Env.captures, hlast]
    exact (hcap name).trans (or_iff_right (List.not_mem_nil))
  refine ⟨r.1, last.captures, rfl, hexact.bodies, fun span name => ?_, ?_⟩
  · rw [← hexact.names, ← hparams]
    exact hcaptures name
  · have hset : {name | name ∈ last.captures} = N \ {name | name ∈ D} := Set.ext hcaptures
    rw [hset]
    change Marked _ env.contexts last.contexts.tail
    rw [hlast]
    exact hr

/-- Statements in a scope of their own. -/
theorem SealsStmts.inBlock {x : Check (List TStmt × Bool)} (hx : SealsStmts x) :
    Seals (inBlock x) fun N r => Exact (blockUses [] r.1) (stmtsBodies r.1) N := by
  refine (takes_inBlock hx).weaken ?_
  rintro env _ r ⟨mid, n, h, rfl⟩ ⟨c, outer, hc, hs⟩
  have hopened : env.opened.contexts = { c with scopes := [] :: c.scopes } :: outer := by
    rw [Env.opened, Env.modifyHead_eq hc]
  obtain ⟨N, D, hN, hexact⟩ := h ⟨_, _, hopened, List.cons_ne_nil _ _⟩
  obtain ⟨c', outer', hmid, -⟩ := hN.inside
  rw [hopened, hmid] at hN
  obtain ⟨-, htail, -, hcap, hr⟩ := hN
  refine ⟨N, ?_, hexact⟩
  have hclosed : (Env.closed { mid with narrowed := n }).contexts =
      { c' with scopes := c'.scopes.tail } :: outer' := by
    rw [Env.closed, Env.modifyHead_eq (by exact hmid)]
  rw [hclosed, hc]
  exact ⟨htail, hcap, hr⟩

/-! ## Statements -/

/-- A statement that declares nothing uses these names. -/
def Leaves (names : Set String) (r : TStmt × Bool) : Prop :=
  r.1.declared = [] ∧ Exact (stmtUses [] r.1) (stmtBodies r.1) names

theorem Seals.leaves {x : Check (TStmt × Bool)} (hx : Seals x Leaves) :
    SealsStmt x fun N r => Exact (stmtUses [] r.1) (stmtBodies r.1) N := by
  refine Takes.weaken hx fun env env' r h hin => ?_
  obtain ⟨N, hN, hd, hexact⟩ := h hin
  exact ⟨N, hd ▸ hin.passed hN, hexact⟩

theorem Seals.stmt {x : Check α} {y : α → Check (TStmt × Bool)}
    {s : Set String → TStmt × Bool → Prop} (hx : Seals x q)
    (hy : ∀ a, SealsStmt (y a) fun M b => ∀ N, q N a → s (N ∪ M) b) :
    SealsStmt (x >>= y) s := by
  refine (Takes.bind hx hy).weaken ?_
  rintro env env' b ⟨a, mid, hx, hy⟩ hin
  obtain ⟨N, hN, hq⟩ := hx hin
  obtain ⟨M, hM, hr⟩ := hy (hin.marked hN)
  exact ⟨N ∪ M, hN.before hM, hr N hq⟩

theorem SealsStmt.weaken {x : Check (TStmt × Bool)} {s s' : Set String → TStmt × Bool → Prop}
    (hx : SealsStmt x s) (h : ∀ N r, s N r → s' N r) : SealsStmt x s' :=
  Takes.weaken hx fun _ _ _ hx hin => (hx hin).imp fun N hN => ⟨hN.1, h N _ hN.2⟩

/-- What a declared or returned value uses. -/
def optionUses : Option TExpr → List Use
  | none => []
  | some e => exprUses [] e

def optionBodies : Option TExpr → List Body
  | none => []
  | some e => exprBodies e

/-- As `Seals.skip`, before a statement. -/
theorem Seals.skipStmt {x : Check α} {y : α → Check (TStmt × Bool)}
    {s : Set String → TStmt × Bool → Prop} (hx : Seals x fun N _ => N = ∅)
    (hy : ∀ a, SealsStmt (y a) s) : SealsStmt (x >>= y) s :=
  hx.stmt fun a => (hy a).weaken fun M r h N hN => by rwa [hN, Set.empty_union]

theorem sealsStmt_declare (name : String) (mutable : Bool) (stated : Option Ty)
    (value : Option TExpr)
    (span : Option Span) : SealsStmt (checkDeclare name mutable stated value span >>= fun s =>
      Pure.pure (s, true)) fun M r => ∀ N, Exact (optionUses value) (optionBodies value) N →
        Exact (stmtUses [] r.1) (stmtBodies r.1) (N ∪ M) := by
  have hdeclare (ty : Ty) (value' : Option TExpr) : SealsStmt (declare name ty mutable .letBound
        (if value'.isSome || ty.isNullable || ty = .any then InitState.init else .uninit) span >>=
        fun _ =>
      Pure.pure (TStmt.declare name mutable ty value' span, true)) fun M r =>
        ∀ N, Exact (optionUses value') (optionBodies value') N →
          Exact (stmtUses [] r.1) (stmtBodies r.1) (N ∪ M) := by
    refine ((takes_declares _ _ _ _ _ _).bind fun _ => Takes.pure _).weaken ?_
    rintro env env' _ ⟨_, _, h, rfl, rfl⟩ hin
    refine ⟨∅, h hin, fun N hN => ?_⟩
    cases value' with
    | none => exact hN.last
    | some v => exact hN.last
  cases value with
  | none =>
    simp only [checkDeclare, bind_assoc, pure_bind]
    exact (reports_declaredType name stated none span).quiet.seals.skipStmt fun ty =>
      hdeclare ty none
  | some v =>
    simp only [checkDeclare, bind_assoc, pure_bind]
    refine (reports_declaredType name stated (some v) span).quiet.seals.skipStmt fun ty => ?_
    have hcoerce : Seals (some <$> coerce v ty) fun M value' =>
        ∀ N, Exact (exprUses [] v) (exprBodies v) N →
        Exact (optionUses value') (optionBodies value') (N ∪ M) :=
      seals_coerce.bind fun v' => .pure fun M hv N hN => by
        rw [Set.union_empty]
        exact hv N hN
    refine hcoerce.stmt fun value' => (hdeclare ty value').weaken fun M r h K hK N hN => ?_
    rw [← Set.union_assoc]
    exact h _ (hK N hN)

theorem leaves_assign (target : Expr) (value : TExpr) (span : Option Span) :
    Seals (checkAssign target value span >>= fun s => Pure.pure (s, true)) fun M r =>
      ∀ N, Exact (exprUses [] value) (exprBodies value) N → Leaves (N ∪ M) r := by
  refine ((takes_checkAssign target value span).bind fun s => Takes.pure _).weaken ?_
  rintro env env' _ ⟨s, _, ⟨name, path, value', c, outer, v, rfl, hv, hc, hfind, -, n, hw⟩,
    rfl, rfl⟩ -
  have hcontexts : env'.contexts = env.contexts := by
    rcases hw with ⟨-, rfl, -⟩ | ⟨-, rfl, -⟩ <;> rfl
  refine ⟨{name}, ?_, fun N hN => ⟨rfl, ?_⟩⟩
  · rw [hcontexts]
    refine (marked_refl _).congr hc ?_
    rw [Set.empty_inter, eq_comm, Set.singleton_inter_eq_empty]
    exact fun hmiss => nomatch hfind.symm.trans hmiss
  · refine ⟨?_, (hv.exact hN).bodies⟩
    change _ = usedNames (exprUses [] value' ++ Use.unlessHidden [] name false)
    rw [usedNames_append, usedNames_unlessHidden, ← (hv.exact hN).names]

theorem leaves_free (name : String) (span : Option Span) :
    Seals (checkFree name span >>= fun _ => Pure.pure (TStmt.free name span, true)) Leaves := by
  refine ((takes_checkFree name span).bind fun _ => Takes.pure _).weaken ?_
  rintro env env' _ ⟨_, _, ⟨rfl, c, outer, v, hc, hfind⟩, rfl, rfl⟩ -
  refine ⟨{name}, ?_, rfl, (usedNames_unlessHidden name false).symm, allSealed_nil⟩
  refine (marked_refl _).congr hc ?_
  rw [Set.empty_inter, eq_comm, Set.singleton_inter_eq_empty]
  exact fun hmiss => nomatch hfind.symm.trans hmiss

theorem seals_checkReturned (value : Option TExpr) (ret : Ty) (span : Option Span) :
    Seals (checkReturned value ret span) fun M value' =>
      ∀ N, Exact (optionUses value) (optionBodies value) N →
        Exact (optionUses value') (optionBodies value') (N ∪ M) := by
  unfold checkReturned
  split
  · split
    · exact .failed
    · exact seals_coerce.bind fun v' => .pure fun M hv N hN => by
        rw [Set.union_empty]
        exact hv N hN
  · exact .reportedIf (.pure fun N hN => hN.last)

theorem leaves_ret (value : Option TExpr) (span : Option Span) : Seals
    (Pure.pure (TStmt.ret value span, false) : Check (TStmt × Bool)) fun M r =>
      ∀ N, Exact (optionUses value) (optionBodies value) N → Leaves (N ∪ M) r := by
  refine .pure fun N hN => ⟨rfl, hN.last.congr ?_ ?_⟩
  · cases value with
    | none => rfl
    | some v => exact usedNames_ret v span
  · cases value <;> rfl

/-- After a test for null has narrowed a binding. -/
theorem Seals.narrowingIf {c : Prop} [Decidable c] {x : Unit → Check α} {id : Nat} {ty : Ty}
    (hx : ∀ a, Seals (x a) q) : Seals (if c then narrow id ty >>= x else x ()) q := by
  split
  · exact (quiet_narrow id ty).seals.skip hx
  · exact hx ()

/-! ## Trees -/

mutual

theorem seals_expr : (e : Expr) → Seals (checkExpr e) fun N e' =>
      Exact (exprUses [] e') (exprBodies e') N
  | .int _ _ | .float _ _ | .bool _ _ | .string _ _ | .null _ => .pure .nil
  | .name name span => seals_checkName name span
  | .binary op left right span =>
    (seals_expr left).bind fun l => (seals_expr right).bind fun r =>
      (reports_binaryType op l.ty r.ty span).quiet.seals.skip fun _ => .pure fun _ hr _ hl =>
        hl.append hr.last
  | .unary .not operand _ => (seals_expr operand).coerced fun _ => .pure fun _ h => h.last
  | .unary .neg operand span =>
    (seals_expr operand).bind fun e => (reports_negationType e.ty span).quiet.seals.skip fun _ =>
      .pure fun _ h => h.last
  | .logical _ left right _ =>
    (seals_expr left).asCondition.bind fun _ => (seals_expr right).asCondition.bind fun _ =>
      .pure fun _ hr _ hl => hl.append hr.last
  | .call callee args span => by
    refine (quiet_namedCallee? callee).seals.skip fun c => ?_
    cases c with
    | some c =>
      obtain ⟨target, name, sig⟩ := c
      refine .reportedIf ((reports_checkArity _ _ _ _).quiet.seals.skip fun _ => ?_)
      exact (seals_args sig.params args).bind fun _ => .pure fun _ h => h.last
    | none =>
      refine (seals_expr callee).bind fun c => ?_
      cases c.ty with
      | function params ret =>
        refine (reports_checkArity _ _ _ _).quiet.seals.skip fun _ => ?_
        exact (seals_args params args).bind fun _ => .pure fun _ ha _ hc => hc.append ha.last
      | any => exact (seals_boxed args).bind fun _ => .pure fun _ ha _ hc => hc.append ha.last
      | _ => exact .failed
  | .methodCall object method args span => by
    refine (seals_expr object).bind fun r => ?_
    cases r.ty with
    | struct struct =>
      refine (quiet_structSig? struct).seals.skip fun sig => ?_
      cases sig.bind fun sig => sig.methods.lookup method with
      | none => exact .failed
      | some sig =>
        refine (reports_checkArity _ _ _ _).quiet.seals.skip fun _ => ?_
        exact (seals_args sig.params args).bind fun _ => .pure fun _ ha _ hr => hr.append ha.last
    | any => exact (seals_boxed args).bind fun _ => .pure fun _ ha _ hr => hr.append ha.last
    | _ => exact .failed
  | .field object field span =>
    (seals_expr object).bind fun e => (reports_fieldType e.ty field span).quiet.seals.skip fun _ =>
      .pure fun _ h => h.last
  | .structInit name fields span => by
    refine (quiet_structSig? name).seals.skip fun sig => ?_
    cases sig with
    | none => exact (seals_values fields).bind fun _ => .failed
    | some sig =>
      refine (seals_inits name sig span _ fields).bind fun slots => ?_
      refine ((takes_fillSlots name span sig.fields slots).bind fun values => Takes.pure _).seals ?_
      rintro env env' _ ⟨values, _, ⟨rfl, hvalues⟩, rfl, rfl⟩
      refine ⟨rfl, fun N hN => ?_⟩
      obtain ⟨hlen, hslots⟩ := hN List.length_replicate
      have hexact := hslots ∅ (slotsExact_replicate _)
      rw [hvalues hlen, Set.empty_union] at hexact
      exact hexact.values.last
  | .lambda params ret body span => by
    refine (reports_resolveReturn ret span).quiet.seals.skip fun ret => ?_
    refine (quiet_mapM (fun p => ?_) params).seals.skip fun params => ?_
    · exact (reports_resolveType _ _).quiet.after fun _ => .pure fun _ => trivial
    refine (takes_function (names_declareEach params) (seals_stmts body) (g := fun body captures =>
      TExpr.mk (.lambda params ret body captures) (.function (params.map TParam.ty) ret) span)
        fun r => ?_).weaken ?_
    · refine (Takes.reportedIf (takes_exitFunction.bind fun captures => Takes.pure _)).weaken ?_
      rintro env env' b ⟨-, captures, _, ⟨rfl, rfl⟩, rfl, rfl⟩
      exact ⟨rfl, rfl⟩
    · rintro env env' b ⟨body, captures, rfl, hbodies, hsealed, hmarked⟩ -
      refine ⟨_, hmarked, (usedNames_captures captures).symm,
        allSealed_append.2 ⟨hbodies, fun b hb => ?_⟩⟩
      rw [List.mem_singleton.1 hb]
      exact hsealed span
  | .spawn call span => by
    refine (seals_start span call).bind fun s => ?_
    cases s with
    | some s => exact .pure fun _ h => h.last
    | none => exact (seals_expr call).bind fun _ => .failed
  | .await task span => by
    refine seals_reads.skip fun _ => .reportedIf ?_
    refine (seals_start span task).bind fun s => ?_
    have hrest (t : TExpr) : Seals (awaitedType t.ty span >>= fun ty =>
        Pure.pure (TExpr.mk (.await t) ty span)) fun M e =>
          ∀ N, Exact (exprUses [] t) (exprBodies t) N →
          Exact (exprUses [] e) (exprBodies e) (N ∪ M) :=
      (reports_awaitedType t.ty span).quiet.seals.skip fun _ => .pure fun _ h => h.last
    cases s with
    | some s => exact (hrest _).weaken fun _ _ h N hs => h N hs
    | none =>
      refine (seals_expr task).bind fun t => (hrest t).weaken fun M e h N hN K hK => ?_
      rw [show K = ∅ from hK, Set.empty_union]
      exact h N hN
  | .cast value type span => by
    refine (seals_expr value).bind fun v =>
      (reports_resolveType type span).quiet.seals.skip fun target => ?_
    refine (Quiet.takes (quiet_castTo v target span)).seals ?_
    rintro env env' _ ⟨⟨n, rfl⟩, -, rfl⟩
    exact ⟨rfl, fun _ h => h.last⟩
  | .format parts span => (seals_parts span parts).bind fun _ => .pure fun _ h => h.last

theorem seals_start (span : Option Span) : (e : Expr) → Seals (checkStart span e) fun N s =>
    match s with
    | some r => Exact (exprsUses [] r.2.1) (exprsBodies r.2.1) N
    | none => N = ∅
  | .call (.name name _) args _ => by
    refine (quiet_asyncSig? name).seals.skip fun sig => ?_
    cases sig with
    | some sig =>
      refine (reports_checkArity _ _ _ _).quiet.seals.skip fun _ => ?_
      exact (seals_args sig.params args).bind fun es => .pure fun _ h => h.last
    | none => exact .pure rfl
  | .int _ _ | .float _ _ | .bool _ _ | .string _ _ | .null _ | .name _ _ | .binary _ _ _ _
  | .unary _ _ _ | .logical _ _ _ _ | .methodCall _ _ _ _ | .field _ _ _ | .structInit _ _ _
  | .lambda _ _ _ _ | .spawn _ _ | .await _ _ | .cast _ _ _ | .format _ _
  | .call (.int _ _) _ _ | .call (.float _ _) _ _ | .call (.bool _ _) _ _ | .call (.string _ _) _ _
  | .call (.null _) _ _ | .call (.binary _ _ _ _) _ _ | .call (.unary _ _ _) _ _
  | .call (.logical _ _ _ _) _ _ | .call (.call _ _ _) _ _ | .call (.methodCall _ _ _ _) _ _
  | .call (.field _ _ _) _ _ | .call (.structInit _ _ _) _ _ | .call (.lambda _ _ _ _) _ _
  | .call (.spawn _ _) _ _ | .call (.await _ _) _ _ | .call (.cast _ _ _) _ _
  | .call (.format _ _) _ _ => .pure rfl

theorem seals_args : (params : List Ty) → (args : List Expr) →
    Seals (checkArgs params args) fun N es => Exact (exprsUses [] es) (exprsBodies es) N
  | _, [] => .pure .nil
  | params, arg :: rest => by
    have hrest (e : TExpr) :
        Seals (checkArgs params.tail rest >>= fun es => Pure.pure (e :: es)) fun M es =>
        ∀ N, Exact (exprUses [] e) (exprBodies e) N →
            Exact (exprsUses [] es) (exprsBodies es) (N ∪ M) :=
      (seals_args params.tail rest).bind fun es => .pure fun _ hs _ he => he.append hs.last
    rw [checkArgs]
    cases params.head? with
    | some ty => exact (seals_expr arg).coerced hrest
    | none => exact (seals_expr arg).bind hrest

theorem seals_boxed : (args : List Expr) →
    Seals (checkBoxed args) fun N es => Exact (exprsUses [] es) (exprsBodies es) N
  | [] => .pure .nil
  | arg :: rest =>
    (seals_expr arg).coerced fun _ => (seals_boxed rest).bind fun _ => .pure fun _ hs _ he =>
      he.append hs.last

theorem seals_parts (span : Option Span) : (parts : List Expr) →
    Seals (checkParts span parts) fun N es => Exact (exprsUses [] es) (exprsBodies es) N
  | [] => .pure .nil
  | part :: rest =>
    (seals_expr part).bind fun _ => .reportedIf ((seals_parts span rest).bind fun _ =>
      .pure fun _ hs _ he => he.append hs.last)

theorem seals_values : (fields : List (String × Expr)) → Seals (checkValues fields) fun _ _ => True
  | [] => .pure trivial
  | (_, value) :: rest => (seals_expr value).bind fun _ =>
    (seals_values rest).weaken fun _ _ _ _ _ => trivial

theorem seals_inits (struct : String) (sig : StructSig) (span : Option Span)
    (slots : List (Option TExpr)) :
    (fields : List (String × Expr)) → Seals (checkInits struct sig span slots fields)
      fun N slots' =>
      Fills sig slots slots' N
  | [] => .pure fun hlen => ⟨hlen, fun K hK => by rwa [Set.union_empty]⟩
  | (field, value) :: rest => by
    refine (seals_expr value).bind fun v =>
      (seals_initSlot struct sig field v _ slots).bind fun slots' => ?_
    refine (seals_inits struct sig span slots' rest).weaken fun M last h K hK N hN hlen => ?_
    obtain ⟨hlen', hslots⟩ := hK N hN hlen
    obtain ⟨hlast, hall⟩ := h hlen'
    refine ⟨hlast, fun L hL => ?_⟩
    have := hall _ (hslots L hL)
    rwa [Set.union_assoc, Set.union_assoc] at this

theorem sealsStmt_stmt : (s : Stmt) → SealsStmt (checkStmt s) fun N r =>
      Exact (stmtUses [] r.1) (stmtBodies r.1) N
  | .declare name mutable none none span =>
    (sealsStmt_declare name mutable none none span).weaken fun M r h => by
      have := h ∅ .nil
      rwa [Set.empty_union] at this
  | .declare name mutable (some t) none span => by
    refine ((reports_resolveType t span).quiet.map (R := fun _ _ => True)
      fun _ _ h => h).seals.skipStmt fun ty => ?_
    refine (sealsStmt_declare name mutable ty none span).weaken fun M r h => ?_
    have := h ∅ .nil
    rwa [Set.empty_union] at this
  | .declare name mutable none (some value) span => by
    refine (Seals.pure (q := fun N _ => N = ∅) rfl).skipStmt fun ty => ?_
    exact (seals_expr value).stmt fun v => sealsStmt_declare name mutable ty (some v) span
  | .declare name mutable (some t) (some value) span => by
    refine ((reports_resolveType t span).quiet.map (R := fun _ _ => True)
      fun _ _ h => h).seals.skipStmt fun ty => ?_
    exact (seals_expr value).stmt fun v => sealsStmt_declare name mutable ty (some v) span
  | .assign target value span =>
    ((seals_expr value).bind fun v => leaves_assign target v span).leaves
  | .branch condition thenBlock elifs elseBlock span => by
    refine Seals.leaves ?_
    refine (reports_nullTest? condition).quiet.seals.skip fun test => ?_
    refine (seals_expr condition).asCondition.bind fun c => ?_
    refine seals_reads.skip fun before => seals_reads.skip fun mark => ?_
    refine (quiet_narrowWhere test true).seals.skip fun _ => ?_
    refine (seals_stmts thenBlock).inBlock.bind fun t => ?_
    refine (seals_setNarrowings mark).skip fun _ => (seals_pathEnd t.2).skip fun thenPaths => ?_
    refine (seals_setInitFacts before).skip fun _ =>
      (quiet_narrowWhere test false).seals.skip fun _ => ?_
    refine (seals_elifs elifs).bind fun m => (seals_else elseBlock).bind fun l => ?_
    refine (seals_pathEnd l.2).skip fun elsePaths => (seals_setNarrowings mark).skip fun _ => ?_
    refine (seals_mergePaths _).skip fun _ => ?_
    have hrest (falls : Bool) :
        Seals (Pure.pure (TStmt.branch c t.1 m.1 l.1 span, falls)) fun J r =>
        ∀ L, Exact (elseUses [] l.1) (elseBodies l.1) L →
          ∀ M, Exact (elifsUses [] m.1) (elifsBodies m.1) M →
          ∀ T, Exact (blockUses [] t.1) (stmtsBodies t.1) T →
          ∀ C, Exact (exprUses [] c) (exprBodies c) C → Leaves (C ∪ (T ∪ (M ∪ (L ∪ J)))) r := by
      refine .pure fun L hl M hm T ht C hc => ⟨rfl, ?_⟩
      have h := ((hc.append ht).append hm).append hl.last
      rwa [Set.union_assoc, Set.union_assoc] at h
    cases test with
    | none => exact hrest _
    | some test => exact .narrowingIf fun _ => hrest _
  | .loop condition body span => by
    refine Seals.leaves ?_
    refine (seals_expr condition).asCondition.bind fun c => seals_reads.skip fun before => ?_
    refine seals_enterLoop.skip fun _ => (seals_stmts body).inBlock.bind fun b => ?_
    refine seals_exitLoop.skip fun _ => seals_reads.skip fun after =>
      (seals_mergePaths _).skip fun _ => ?_
    exact .pure fun _ hb _ hc => ⟨rfl, hc.append hb.last⟩
  | .block body _ =>
    Seals.leaves ((seals_stmts body).inBlock.bind fun _ => .pure fun _ h => ⟨rfl, h.last⟩)
  | .ret none span => by
    refine Seals.leaves (seals_reads.skip fun ret =>
      (seals_checkReturned none ret span).bind fun v =>
      (leaves_ret v span).weaken fun M r h K hK => ?_)
    have := h _ (hK ∅ .nil)
    rwa [Set.empty_union] at this
  | .ret (some value) span => by
    refine Seals.leaves (seals_reads.skip fun ret => (seals_expr value).bind fun v =>
      (seals_checkReturned (some v) ret span).bind fun v' =>
        (leaves_ret v' span).weaken fun M r h K hK N hN => ?_)
    rw [← Set.union_assoc]
    exact h _ (hK N hN)
  | .breakLoop span =>
    Seals.leaves ((reports_requireLoop "break" span).quiet.seals.skip fun _ => .pure ⟨rfl, .nil⟩)
  | .continueLoop span =>
    Seals.leaves ((reports_requireLoop "continue" span).quiet.seals.skip fun _ => .pure ⟨rfl, .nil⟩)
  | .free name span => Seals.leaves (leaves_free name span)
  | .collect span => Seals.leaves (.pure ⟨rfl, .nil⟩)
  | .yieldNow span => Seals.leaves (seals_reads.skip fun _ => .reportedIf (.pure ⟨rfl, .nil⟩))
  | .eval expr span => Seals.leaves ((seals_expr expr).bind fun _ => .pure fun _ h => ⟨rfl, h.last⟩)

theorem seals_stmts : (ss : List Stmt) → SealsStmts (checkStmts ss)
  | [] => by
    refine (Takes.pure _).weaken ?_
    rintro env env' _ ⟨rfl, rfl⟩ hin
    exact ⟨∅, [], hin.passed (marked_refl _), .nil⟩
  | s :: rest => by
    refine (Takes.bind (sealsStmt_stmt s) fun s => (seals_stmts rest).bind fun _ =>
      Takes.pure _).weaken ?_
    rintro env env' _ ⟨s, mid, hs, ss, last, hrest, rfl, rfl⟩ hin
    obtain ⟨N, hN, hexact⟩ := hs hin
    obtain ⟨M, D, hM, hexact'⟩ := hrest hN.inside
    refine ⟨_, _, hN.trans hM, ?_, allSealed_append.2 ⟨hexact.bodies, hexact'.bodies⟩⟩
    rw [usedNames_cons, hexact.names, hexact'.names]

theorem seals_else : (elseBlock : Option (List Stmt)) →
    Seals (checkElse elseBlock) fun N r => Exact (elseUses [] r.1) (elseBodies r.1) N
  | none => .pure .nil
  | some body => (seals_stmts body).inBlock.bind fun _ => .pure fun _ h => h.last

theorem seals_elifs : (elifs : List (Expr × List Stmt)) →
    Seals (checkElifs elifs) fun N r => Exact (elifsUses [] r.1) (elifsBodies r.1) N
  | [] => .pure .nil
  | (condition, body) :: rest => by
    refine (reports_nullTest? condition).quiet.seals.skip fun test => ?_
    refine (seals_expr condition).asCondition.bind fun c => ?_
    refine seals_reads.skip fun before => seals_reads.skip fun mark => ?_
    refine (quiet_narrowWhere test true).seals.skip fun _ => ?_
    refine (seals_stmts body).inBlock.bind fun b => ?_
    refine (seals_setNarrowings mark).skip fun _ => (seals_pathEnd b.2).skip fun paths => ?_
    refine (seals_setInitFacts before).skip fun _ => (seals_elifs rest).bind fun r =>
      .pure fun M hr B hb C hc => ?_
    have h := (hc.append hb).append hr.last
    rwa [Set.union_assoc] at h

end

/-! ## Programs -/

theorem takes_each {P : β → Prop} {g : α → Check β} (hg : ∀ a, Takes (g a) fun _ _ b => P b)
    (as : List α) : Takes (as.mapM g) fun _ _ bs => ∀ b ∈ bs, P b := by
  induction as with
  | nil => exact fun _ he => ⟨he, nofun⟩
  | cons a rest ih =>
    rw [List.mapM_cons]
    refine ((hg a).bind fun b => ih.bind fun bs => Takes.pure _).weaken ?_
    rintro env env' _ ⟨b, _, hb, bs, _, hbs, rfl, -⟩
    exact List.forall_mem_cons.2 ⟨hb, hbs⟩

theorem names_declareParams (span : Option Span) (before : List TParam)
    (params : List (Param × Ty)) : Takes (declareParams span before params) fun env env' ps =>
      ∃ new, ps = before ++ new ∧ Names new env env' := by
  induction params generalizing before with
  | nil =>
    refine (Takes.pure _).weaken ?_
    rintro env env' _ ⟨rfl, rfl⟩
    exact ⟨[], (List.append_nil _).symm, names_nil⟩
  | cons p rest ih =>
    obtain ⟨p, ty⟩ := p
    let p' : TParam := ⟨p.name, ty, p.mutable, p.span⟩
    refine (Takes.reportedIf (T := fun env env' ps => ∃ new,
      ps = before ++ new ∧ Names new env env') ?_).weaken fun _ _ _ h => h.2
    refine ((names_declare p' .param p.span).bind fun _ => ih (before ++ [p'])).weaken ?_
    rintro env env' _ ⟨_, mid, hp, new, rfl, hnew⟩
    exact ⟨p' :: new, by rw [List.append_assoc]; rfl, hp.cons hnew⟩

theorem names_declareSelf (d : FunctionDecl) (struct : Option String) :
    Takes (declareSelf d struct) fun env env' ps => Names ps env env' := by
  cases struct with
  | none =>
    refine (Takes.pure _).weaken ?_
    rintro env env' _ ⟨rfl, rfl⟩
    exact names_nil
  | some name =>
    let self : TParam := ⟨"self", .struct name, false, d.span⟩
    refine ((names_declare self .receiver d.span).bind fun _ => Takes.pure [self]).weaken ?_
    rintro env env' _ ⟨_, _, h, rfl, rfl⟩
    exact h

/-- The lambdas of a function are sealed. -/
theorem sealed_function (struct : Option String) (d : FunctionDecl) :
    Takes (checkFunction struct d) fun _ _ f => AllSealed (stmtsBodies f.body) := by
  have hfinish (r : List TStmt × Bool) (f : TFunction) {c : Prop}
      [Decidable c] {cause : TypeCause} :
      Takes (if c then report cause d.span >>= fun _ => exitFunction >>= fun _ => Pure.pure f
        else exitFunction >>= fun _ => Pure.pure f) fun _ _ g => g = f :=
    (Takes.reportedIf (x := fun _ => exitFunction >>= fun _ => Pure.pure f)
      (takes_exitFunction.bind fun _ => Takes.pure f)).weaken fun _ _ _ ⟨_, _, _, _, h, _⟩ => h
  refine (Takes.bind (T := fun _ _ _ => True)
    (fun env he => ⟨((steady_declaredSignature d struct) env he).1, trivial⟩)
    fun sig => (takes_enterFunction sig.ret d.isAsync).bind fun _ =>
      (names_declareSelf d struct).bind
      fun receiver => (names_declareParams d.span receiver _).bind fun params =>
        (seals_stmts d.body).bind fun r => hfinish r _).weaken ?_
  rintro env env' f ⟨sig, start, -, _, _, rfl, receiver, _, hself, params, _, ⟨new, rfl, hnew⟩, r,
    _, hbody, rfl⟩
  obtain ⟨D, hD, -⟩ := hself ⟨_, _, rfl, List.cons_ne_nil _ _⟩
  obtain ⟨D', hD', -⟩ := hnew hD.inside
  obtain ⟨_, _, -, hexact⟩ := hbody hD'.inside
  exact hexact.bodies

theorem sealed_item (item : Item) :
    Takes (checkItem item) fun _ _ fs => ∀ f ∈ fs, AllSealed (stmtsBodies f.body) := by
  cases item with
  | function d =>
    refine ((sealed_function none d).bind fun f => Takes.pure _).weaken ?_
    rintro env env' _ ⟨f, _, h, rfl, -⟩
    exact List.forall_mem_singleton.2 h
  | struct d => exact takes_each (sealed_function _) _

theorem sealed_items (p : Program) :
    Takes (checkItems p) fun _ _ t => ∀ f ∈ t.functions, AllSealed (stmtsBodies f.body) := by
  have hdeclare : Takes (declareItems p) fun _ _ _ => True :=
    fun env he => ⟨(steady_declareItems p env he).1, trivial⟩
  refine (hdeclare.bind fun _ => (Quiet.takes (quiet_structInfos p.structs)).bind fun infos =>
    (takes_each sealed_item p.items).bind fun fs => Takes.pure _).weaken ?_
  rintro env env' _ ⟨_, _, -, _, _, -, fs, _, hfs, rfl, -⟩ f hf
  obtain ⟨gs, hgs, hf⟩ := List.mem_flatten.1 hf
  exact hfs gs hgs f hf

end Check

/-- The lambdas of an accepted program capture the names from outside that their bodies use, and no
others. -/
theorem Program.check_sealed {p : Program} {natives : List (String × Signature)} {t : TProgram}
    (h : p.check natives = .ok t) : ∀ f ∈ t.functions, AllSealed (stmtsBodies f.body) := by
  obtain ⟨rfl, herr⟩ := Program.check_ok h
  exact (Check.sealed_items p _ herr).2

end ScopedScript
