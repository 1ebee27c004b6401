import ScopedScript.Proofs.Typing.Assignability
import ScopedScript.Proofs.Typing.Rules
import ScopedScript.Proofs.Typing.Tracking

/-!
# The contexts of the checker

What the checker knows at some place amounts to a context of the typing rules. Checking an
expression leaves the context as it was, so what is said of parts of an expression is said of them
in one context.

When `any` is not to be looked into, no declared type has `any` among the values that are reached
from it (`Ty.Solid`); the assumption `loose` stands for programs without this restriction.
-/

namespace ScopedScript

namespace Ty

/-- No value of the type, and none that a call or an `await` of it gives, is of type `any`. -/
def Solid : Ty → Prop
  | any => False
  | nullable inner => inner.Solid
  | function _ ret => ret.Solid
  | task inner => inner.Solid
  | _ => True

variable {loose : Prop} {t : Ty}

/-- A type that something may be declared with. -/
def Declared (loose : Prop) (t : Ty) : Prop := t.Collapsed ∧ (loose ∨ t.Solid)

/-- A type that an expression may have. -/
def Allowed (loose : Prop) (t : Ty) : Prop := (t = null ∨ t.Collapsed) ∧ (loose ∨ t.Solid)

theorem Declared.allowed (h : t.Declared loose) : t.Allowed loose := ⟨.inr h.1, h.2⟩

theorem Allowed.of_any (h : any.Allowed loose) : loose := h.2.resolve_right id

theorem Allowed.static (h : t.Allowed loose) (hany : t ≠ any) : t.Static :=
  ⟨hany, h.1.imp_right collapsed_iff.1⟩

theorem Declared.nonNull (h : t.Declared loose) : t.nonNull.Declared loose := by
  cases t with
  | nullable inner => exact ⟨h.1.1, h.2⟩
  | _ => exact h

theorem Declared.ret {params : List Ty} {ret : Ty} (h : (function params ret).Allowed loose) :
    ret.Declared loose := ⟨(h.1.resolve_left Ty.noConfusion).2, h.2⟩

theorem Allowed.awaited (h : (task t).Allowed loose) : t.Declared loose :=
  ⟨h.1.resolve_left Ty.noConfusion, h.2⟩

/-- What is assignable flows, as long as `any` is not concerned. -/
theorem flows_of_assignable {a b : Ty} (ha : a.Static) (hb : b.Static)
    (h : a.assignableTo b = true) : a.Flows b := by
  obtain rfl | rfl | ⟨rfl, s, rfl⟩ := (ha.assignableTo_iff hb).1 h
  · exact .inl rfl
  · exact .inr (.inl rfl)
  · exact .inr (.inr ⟨rfl, rfl⟩)

theorem flows_bool {a : Ty} : a.Flows bool ↔ a = bool := by
  simp [Flows, isNullable]

theorem allCollapsed_iff {ts : List Ty} : AllCollapsed ts ↔ ∀ t ∈ ts, t.Collapsed := by
  induction ts with
  | nil => simp [AllCollapsed]
  | cons t rest ih => simp [AllCollapsed, ih]

end Ty

/-! ## Names of the program -/

/-- The types of a signature are those of a declaration; what a parameter takes may be of type
`any`. -/
structure Signature.Declared (loose : Prop) (s : Signature) : Prop where
  params : Ty.AllCollapsed s.params
  ret : s.ret.Declared loose

/-- The signature is stated in the program, with types to declare bindings with. -/
structure Signature.Stated (loose : Prop) (s : Signature) : Prop where
  params : ∀ t ∈ s.params, t.Declared loose
  ret : s.ret.Declared loose

theorem Signature.Stated.declared {loose : Prop} {s : Signature} (h : s.Stated loose) :
    s.Declared loose :=
  ⟨Ty.allCollapsed_iff.2 fun t ht => (h.params t ht).1, h.ret⟩

theorem Signature.Declared.allowed {loose : Prop} {s : Signature} (h : s.Declared loose) :
    s.toTy.Allowed loose := ⟨.inr ⟨h.params, h.ret.1⟩, h.ret.2⟩

structure Globals.Declared (loose : Prop) (g : Globals) : Prop where
  fields : ∀ name sig, g.structs.lookup name = some sig → ∀ f ∈ sig.fields, f.2.Declared loose
  methods : ∀ name sig m s, g.structs.lookup name = some sig → sig.methods.lookup m = some s →
    s.Stated loose
  functions : ∀ name s, g.functions.lookup name = some s → s.Stated loose
  natives : ∀ name s, g.natives.lookup name = some s → s.Declared loose

/-! ## Environments -/

/-- The names of bindings: those of the function at hand, and those of the functions around it. -/
structure Visible where
  own : List String
  outer : List String

namespace Visible

def declare (N : Visible) (name : String) : Visible := { N with own := name :: N.own }

/-- In a lambda with these parameters. -/
def lambda (N : Visible) (params : List String) : Visible :=
  params.foldl declare ⟨[], N.own ++ N.outer⟩

end Visible

/-- What is known of a binding where these are known not to be null. -/
def Var.known (narrowed : List (Nat × Ty)) (v : Var) : Known :=
  ⟨v.ty, v.mutable, (narrowed.lookup v.id).isSome⟩

namespace Env

/-- The context that the checker is in. -/
def context (env : Env) : Context where
  scopes := env.scopes.map fun scope => scope.map fun e => (e.1, e.2.known env.narrowed)
  captured name := (env.contexts.tail.findSome? fun c => c.find? name).map fun v =>
    (v.known env.narrowed).read
  ret := env.contexts.head?.elim .void FnContext.ret

/-- Bindings have identities of their own. What is known not to be null is immutable and of a
nullable type, and identities that are still to be given out are not known. -/
structure Coherent (loose : Prop) (N : Visible) (env : Env) : Prop where
  globals : env.globals.Declared loose
  inside : env.contexts ≠ []
  scopes : env.scopes ≠ []
  distinct : ((varsOf env.contexts).map Var.id).Nodup
  below : ∀ v ∈ varsOf env.contexts, v.id < env.nextId
  types : ∀ v ∈ varsOf env.contexts, v.ty.Declared loose
  returns : ∀ c ∈ env.contexts, c.ret.Declared loose
  old : ∀ id t, env.narrowed.lookup id = some t → id < env.nextId
  narrowed : ∀ v ∈ varsOf env.contexts, ∀ t, env.narrowed.lookup v.id = some t →
    v.mutable = false ∧ v.ty = .nullable t
  own : ∀ n, (env.context.find? n).isSome = true ↔ n ∈ N.own
  outer : ∀ n, (env.context.captured n).isSome = true → n ∈ N.outer

end Env

/-- The second function is the first one, with other captures. -/
def Resumed (c c' : FnContext) : Prop := c'.scopes = c.scopes ∧ c'.ret = c.ret

theorem resumed_refl (cs : List FnContext) : cs.Forall₂ Resumed cs :=
  List.forall₂_same.2 fun _ _ => ⟨rfl, rfl⟩

theorem resumed_trans {as bs cs : List FnContext} (h : as.Forall₂ Resumed bs)
    (h' : bs.Forall₂ Resumed cs) : as.Forall₂ Resumed cs := by
  induction h generalizing cs with
  | nil => exact h'
  | cons h _ ih =>
    cases h' with
    | cons h' hs => exact .cons ⟨h'.1.trans h.1, h'.2.trans h.2⟩ (ih hs)

theorem vars_of_resumed {cs cs' : List FnContext} (h : cs.Forall₂ Resumed cs') :
    varsOf cs' = varsOf cs := by
  induction h with
  | nil => rfl
  | cons h _ ih =>
    simp only [varsOf, List.flatMap_cons] at ih ⊢
    rw [ih, FnContext.vars, h.1]
    rfl

theorem find_of_resumed {cs cs' : List FnContext} (h : cs.Forall₂ Resumed cs') (name : String) :
    (cs'.findSome? fun c => c.find? name) = cs.findSome? fun c => c.find? name := by
  induction h with
  | nil => rfl
  | cons h _ ih => rw [List.findSome?_cons, List.findSome?_cons, ih, FnContext.find?, h.1]; rfl

theorem returns_of_resumed {cs cs' : List FnContext} (h : cs.Forall₂ Resumed cs') :
    cs'.map FnContext.ret = cs.map FnContext.ret := by
  induction h with
  | nil => rfl
  | cons h _ ih => rw [List.map_cons, List.map_cons, ih, h.2]

theorem resumed_capture (c : FnContext) (name : String) : Resumed c (c.capture name) := by
  unfold FnContext.capture
  split <;> exact ⟨rfl, rfl⟩

/-- A name is found as it stands in the function that declares it, unless it is captured. -/
theorem resolveIn_resumed {name : String} {v : Var} {cs cs' : List FnContext}
    (h : resolveIn name cs = some (v, cs')) : cs.Forall₂ Resumed cs' ∧
      ∃ w, (cs.findSome? fun c => c.find? name) = some w ∧ w.id = v.id ∧ w.ty = v.ty ∧
        (v.kind ≠ .capture → ∃ c outer, cs = c :: outer ∧ c.find? name = some v) := by
  induction cs generalizing v cs' with
  | nil => cases h
  | cons c outer ih =>
    rw [resolveIn] at h
    split at h
    · rename_i w hw
      cases h
      exact ⟨resumed_refl _, v, by rw [List.findSome?_cons, hw], rfl, rfl,
        fun _ => ⟨c, outer, rfl, hw⟩⟩
    · rename_i hnone
      obtain ⟨⟨w, outer'⟩, ho, he⟩ := Option.map_eq_some_iff.1 h
      cases he
      obtain ⟨hr, u, hu, hid, hty, -⟩ := ih ho
      refine ⟨.cons (resumed_capture c name) hr, u, ?_, hid, hty, fun hk => absurd rfl hk⟩
      rw [List.findSome?_cons, hnone]
      exact hu

theorem mem_varsOf_of_find {cs : List FnContext} {name : String} {v : Var}
    (h : (cs.findSome? fun c => c.find? name) = some v) : v ∈ varsOf cs := by
  obtain ⟨c, hc, hv⟩ := List.exists_of_findSome?_eq_some h
  exact List.mem_flatMap.2 ⟨c, hc, FnContext.mem_vars_of_find? hv⟩

namespace Env

/-- What checking an expression keeps. -/
structure Keeps (env env' : Env) : Prop where
  globals : env'.globals = env.globals
  contexts : env.contexts.Forall₂ Resumed env'.contexts
  narrowed : ∀ v ∈ varsOf env.contexts, env'.narrowed.lookup v.id = env.narrowed.lookup v.id
  nextId : env.nextId ≤ env'.nextId

variable {loose : Prop} {N : Visible} {env env' env'' : Env}

theorem Keeps.refl (env : Env) : env.Keeps env := ⟨rfl, resumed_refl _, fun _ _ => rfl, le_rfl⟩

theorem Keeps.trans (h : env.Keeps env') (h' : env'.Keeps env'') : env.Keeps env'' where
  globals := h'.globals.trans h.globals
  contexts := resumed_trans h.contexts h'.contexts
  narrowed := fun v hv =>
    (h'.narrowed v (by rwa [vars_of_resumed h.contexts])).trans (h.narrowed v hv)
  nextId := h.nextId.trans h'.nextId

theorem scopes_of_resumed (h : env.contexts.Forall₂ Resumed env'.contexts) :
    env'.scopes = env.scopes := by
  unfold Env.scopes
  cases hc : env.contexts <;> rw [hc] at h
  · rw [List.forall₂_nil_left_iff.1 h]
  · obtain ⟨c', cs', hr, -, h⟩ := List.forall₂_cons_left_iff.1 h
    rw [h]
    exact hr.1

theorem mem_vars_of_scopes (env : Env) {scope : List (String × Var)} (hs : scope ∈ env.scopes)
    {e : String × Var} (he : e ∈ scope) : e.2 ∈ varsOf env.contexts := by
  unfold Env.scopes at hs
  cases hc : env.contexts with
  | nil => rw [hc] at hs; cases hs
  | cons c outer =>
    rw [hc] at hs
    exact List.mem_append_left _
      (List.mem_map_of_mem (f := Prod.snd) (List.mem_flatten.2 ⟨scope, hs, he⟩))

theorem known_congr {narrowed narrowed' : List (Nat × Ty)} {v : Var}
    (h : narrowed'.lookup v.id = narrowed.lookup v.id) : v.known narrowed' = v.known narrowed := by
  rw [Var.known, Var.known, h]

/-- The context stays the same. -/
theorem Keeps.context (h : env.Keeps env') : env'.context = env.context := by
  have hscopes := scopes_of_resumed h.contexts
  have htail : env.contexts.tail.Forall₂ Resumed env'.contexts.tail := by
    have := h.contexts
    revert this
    generalize env.contexts = cs, env'.contexts = cs'
    rintro (_ | ⟨_, h⟩)
    · exact .nil
    · exact h
  unfold Env.context
  congr 1
  · rw [hscopes]
    refine List.map_congr_left fun scope hs => List.map_congr_left fun e he => ?_
    rw [known_congr (h.narrowed _ (env.mem_vars_of_scopes hs he))]
  · funext name
    rw [find_of_resumed htail]
    cases hv : env.contexts.tail.findSome? fun c => c.find? name with
    | none => rfl
    | some v =>
      have hmem : v ∈ varsOf env.contexts := varsOf_tail_subset _ (mem_varsOf_of_find hv)
      rw [Option.map_some, Option.map_some, known_congr (h.narrowed v hmem)]
  · cases hc : env.contexts with
    | nil =>
      have := h.contexts
      rw [hc] at this
      rw [List.forall₂_nil_left_iff.1 this]
    | cons c outer =>
      have := h.contexts
      rw [hc] at this
      obtain ⟨c', cs', hr, -, h⟩ := List.forall₂_cons_left_iff.1 this
      rw [h]
      exact hr.2

theorem Keeps.coherent (h : env.Keeps env') (hc : env.Coherent loose N)
    (hold : ∀ id t, env'.narrowed.lookup id = some t → id < env'.nextId) :
    env'.Coherent loose N := by
  have hvars := vars_of_resumed h.contexts
  constructor
  case globals => exact h.globals ▸ hc.globals
  case inside =>
    intro hnil
    have := h.contexts
    rw [hnil] at this
    exact hc.inside (List.forall₂_nil_right_iff.1 this)
  case scopes => exact scopes_of_resumed h.contexts ▸ hc.scopes
  case distinct => exact hvars ▸ hc.distinct
  case below =>
    rw [hvars]
    exact fun v hv => (hc.below v hv).trans_le h.nextId
  case types =>
    rw [hvars]
    exact hc.types
  case returns =>
    intro c hmem
    have : c.ret ∈ env.contexts.map FnContext.ret := by
      rw [← returns_of_resumed h.contexts]
      exact List.mem_map_of_mem hmem
    obtain ⟨d, hd, he⟩ := List.mem_map.1 this
    exact he ▸ hc.returns d hd
  case old => exact hold
  case narrowed =>
    rw [hvars]
    intro v hv t ht
    rw [h.narrowed v hv] at ht
    exact hc.narrowed v hv t ht
  case own => exact h.context ▸ hc.own
  case outer => exact h.context ▸ hc.outer

/-- A binding that is found has the type that the context says. -/
theorem Coherent.read (hc : env.Coherent loose N) {v : Var} (hv : v ∈ varsOf env.contexts) :
    (v.known env.narrowed).read = (env.narrowed.lookup v.id).getD v.ty := by
  rw [Known.read, Var.known]
  cases ht : env.narrowed.lookup v.id with
  | none => rfl
  | some t =>
    rw [(hc.narrowed v hv t ht).2]
    rfl

theorem lookup_map_known (narrowed : List (Nat × Ty)) (scope : List (String × Var))
    (name : String) : (scope.map fun e => (e.1, e.2.known narrowed)).lookup name =
      (scope.lookup name).map (Var.known narrowed) := by
  induction scope with
  | nil => rfl
  | cons e rest ih =>
    rw [List.map_cons, List.lookup_cons, List.lookup_cons, ih]
    split <;> rfl

/-- A name means in the context what it means in the innermost function. -/
theorem find?_context (env : Env) (name : String) : env.context.find? name =
    (env.contexts.head?.bind fun c => c.find? name).map (Var.known env.narrowed) := by
  have hscopes (scopes : List (List (String × Var))) :
      ((scopes.map fun scope => scope.map fun e => (e.1, e.2.known env.narrowed)).findSome?
        fun scope => scope.lookup name) =
      (scopes.findSome? fun scope => scope.lookup name).map (Var.known env.narrowed) := by
    induction scopes with
    | nil => rfl
    | cons scope outer ih =>
      rw [List.map_cons, List.findSome?_cons, List.findSome?_cons, lookup_map_known, ih]
      cases scope.lookup name <;> rfl
  rw [Context.find?, Env.context, hscopes, Env.scopes]
  cases env.contexts <;> rfl

theorem type?_context (hc : env.Coherent loose N) {name : String} {v : Var}
    (h : (env.contexts.findSome? fun c => c.find? name) = some v) :
    env.context.type? name = some ((env.narrowed.lookup v.id).getD v.ty) := by
  rw [← hc.read (mem_varsOf_of_find h)]
  rw [Context.type?, find?_context]
  cases hcs : env.contexts with
  | nil => rw [hcs] at h; cases h
  | cons c outer =>
    rw [hcs, List.findSome?_cons] at h
    rw [List.head?_cons, Option.bind_some]
    cases hf : c.find? name with
    | some w =>
      rw [hf] at h
      cases h
      rfl
    | none =>
      have hv : (outer.findSome? fun c => c.find? name) = some v := by
        rw [hf] at h
        exact h
      change env.context.captured name = _
      rw [Env.context, hcs]
      change Option.map _ (outer.findSome? fun c => c.find? name) = _
      rw [hv]
      rfl

theorem type?_isSome (env : Env) (name : String) : (env.context.type? name).isSome =
    (env.contexts.findSome? fun c => c.find? name).isSome := by
  rw [Context.type?, find?_context]
  cases hcs : env.contexts with
  | nil => rw [Env.context, hcs]; rfl
  | cons c outer =>
    rw [List.head?_cons, Option.bind_some, List.findSome?_cons]
    cases c.find? name with
    | some v => rfl
    | none =>
      change (env.context.captured name).isSome = _
      rw [Env.context, hcs]
      exact Option.isSome_map

end Env

namespace Check

/-! ## Computations that keep the context -/

/-- An expression, or a part of one, is checked: the context stays the same, and the value is as the
context and the names of the program say. -/
def Types (loose : Prop) (N : Visible) (x : Check α) (q : Globals → Context → α → Prop) : Prop :=
  Takes x fun env env' a => env.Coherent loose N → env'.Coherent loose N ∧ env.Keeps env' ∧
    q env.globals env.context a

variable {loose : Prop} {N : Visible} {q : Globals → Context → α → Prop}
  {r : Globals → Context → β → Prop}

theorem Types.weaken {x : Check α} {q' : Globals → Context → α → Prop} (hx : Types loose N x q)
    (h : ∀ g Γ a, g.Declared loose → q g Γ a → q' g Γ a) : Types loose N x q' :=
  Takes.weaken hx fun _ _ a hx hc => ⟨(hx hc).1, (hx hc).2.1, h _ _ a hc.globals (hx hc).2.2⟩

theorem Types.pure {a : α} (h : ∀ g Γ, q g Γ a) : Types loose N (Pure.pure a) q :=
  (Takes.pure a).weaken fun env _ _ ⟨ha, he⟩ hc => by
    subst ha he
    exact ⟨hc, .refl _, h _ _⟩

theorem Types.bind {x : Check α} {y : α → Check β} (hx : Types loose N x q)
    (hy : ∀ a, Types loose N (y a) fun g Γ b => g.Declared loose → q g Γ a → r g Γ b) :
    Types loose N (x >>= y) r := by
  refine (Takes.bind hx hy).weaken ?_
  rintro env env' b ⟨a, mid, hx, hy⟩ hc
  obtain ⟨hcx, hkx, hqx⟩ := hx hc
  obtain ⟨hcy, hky, hqy⟩ := hy hcx
  refine ⟨hcy, hkx.trans hky, ?_⟩
  rw [hkx.context, hkx.globals] at hqy
  exact hqy hc.globals hqx

/-- A computation whose value does not matter. -/
theorem Types.after {x : Check α} {y : α → Check β} (hx : Types loose N x q)
    (hy : ∀ a, Types loose N (y a) r) : Types loose N (x >>= y) r :=
  hx.bind fun a => (hy a).weaken fun _ _ _ _ h _ _ => h

theorem Types.reported {x : Check α} {q' : Globals → Context → α → Prop} {cause : TypeCause}
    {span : Option Span} (hx : Types loose N x q) :
    Types loose N (report cause span >>= fun _ => x) q' := Takes.reported hx

theorem Types.reportedIf {c : Prop} [Decidable c] {x : Unit → Check α} {cause : TypeCause}
    {span : Option Span} (hx : Types loose N (x ()) q) :
    Types loose N (if c then report cause span >>= x else x ()) fun g Γ a => ¬c ∧ q g Γ a :=
  (Takes.reportedIf hx).weaken fun _ _ _ ⟨hn, h⟩ hc => ⟨(h hc).1, (h hc).2.1, hn, (h hc).2.2⟩

theorem Types.unless {c : Prop} [Decidable c] {x : Unit → Check α} {cause : TypeCause}
    {span : Option Span} (hx : Types loose N (x ()) q) :
    Types loose N (if c then report cause span >>= x else x ()) q :=
  (Types.reportedIf hx).weaken fun _ _ _ _ h => h.2

/-- A step that only reports, with what its value says of the names of the program. -/
theorem Quiet.types {x : Check α} {Q : Globals → α → Prop} (hx : Quiet x Q) (hr : Reports x) :
    Types loose N x fun g _ a => Q g a := by
  intro env he
  obtain ⟨errors, hrun⟩ := hr env
  obtain ⟨-, hq⟩ := hx env he
  rw [hrun] at he
  obtain ⟨he, rfl⟩ := Array.append_eq_empty_iff.1 he
  refine ⟨he, fun hc => ?_⟩
  rw [hrun, Array.append_empty]
  exact ⟨hc, .refl env, hq⟩

theorem Reports.types {x : Check α} (hr : Reports x) : Types loose N x fun _ _ _ => True :=
  hr.quiet.types hr

/-! ## Steps of the checker -/

/-- What becomes of an expression that flows into a place of type `target`. -/
inductive Coerces (e : TExpr) (target : Ty) : TExpr → Prop
  | same (h : e.ty.Flows target) : Coerces e target e
  | boxed (h : target = .any) : Coerces e target (.mk (.box e) .any e.span)
  | unboxed (h : e.ty = .any) : Coerces e target (.mk (.unbox e) target e.span)

theorem quiet_coerce_made (e : TExpr) (target : Ty) : Quiet (coerce e target) fun _ e' =>
    e.ty.Allowed loose → target.Collapsed → Coerces e target e' := by
  obtain ⟨e', cause, hentry, heq⟩ := coerce_entry e target
  rw [heq]
  cases cause with
  | some cause => exact .failed
  | none =>
    refine .pure fun _ he ht => ?_
    have haccepted := hentry.accepted_iff.1 rfl
    revert haccepted
    generalize hnone : (none : Option TypeCause) = cause at hentry
    intro haccepted
    cases hentry with
    | same h => exact .same (.inl h)
    | void h hne => cases hnone
    | unboxed h hne => exact .unboxed h
    | boxed h hany hvoid => exact .boxed h
    | plain hne hvoid hany htarget =>
      exact .same (Ty.flows_of_assignable (he.static hany) ⟨htarget, .inr (Ty.collapsed_iff.1 ht)⟩
        (haccepted.resolve_left hne).2)

end Check

end ScopedScript
