import ScopedScript.Proofs.Typing.Grounded
import ScopedScript.Proofs.Typing.RuleSteps

/-!
# How statements change the context

A statement declares a binding, or finds that one is not null; what is known of the functions around
the one at hand stays as it was. This is so because a test for null in a lambda concerns a binding
of the lambda itself: what a test says of a captured binding would be believed outside of the
lambda, too.
-/

namespace ScopedScript

/-! ## Narrowed scopes -/

section

variable {narrowed : List (Nat × Ty)} {v w : Var} {t : Ty} {name : String}

theorem Var.known_cons_self :
    v.known ((v.id, t) :: narrowed) = { v.known narrowed with nonNull := true } := by
  simp [Var.known]

theorem Var.known_cons_of_ne (h : w.id ≠ v.id) :
    w.known ((v.id, t) :: narrowed) = w.known narrowed :=
  Env.known_congr (by rw [List.lookup_cons, beq_false_of_ne h])

theorem map_known_of_ne {scope : List (String × Var)} (h : ∀ e ∈ scope, e.2.id ≠ v.id) :
    (scope.map fun e => (e.1, e.2.known ((v.id, t) :: narrowed))) =
      scope.map fun e => (e.1, e.2.known narrowed) :=
  List.map_congr_left fun e he => by rw [Var.known_cons_of_ne (h e he)]

theorem narrowScope_known {scope : List (String × Var)} (hd : (scope.map fun e => e.2.id).Nodup)
    (h : scope.lookup name = some v) :
    (scope.map fun e => (e.1, e.2.known ((v.id, t) :: narrowed))) =
      narrowScope name (scope.map fun e => (e.1, e.2.known narrowed)) := by
  induction scope with
  | nil => cases h
  | cons e rest ih =>
    obtain ⟨n, w⟩ := e
    obtain ⟨hw, hd⟩ := List.nodup_cons.1 hd
    rw [List.lookup_cons] at h
    rw [List.map_cons, List.map_cons, narrowScope]
    split at h
    · rename_i hn
      cases h
      rw [if_pos (beq_iff_eq.1 hn).symm, Var.known_cons_self, map_known_of_ne fun e he hid => ?_]
      exact hw (List.mem_map.2 ⟨e, he, hid⟩)
    · rename_i hn
      have hne : w.id ≠ v.id := fun hid =>
        hw (List.mem_map.2 ⟨(name, v), mem_of_lookup h, hid.symm⟩)
      rw [if_neg (Ne.symm (ne_of_beq_false hn)), Var.known_cons_of_ne hne, ih hd h]

theorem narrowScopes_known {scopes : List (List (String × Var))}
    (hd : (scopes.flatten.map fun e => e.2.id).Nodup)
    (h : (scopes.findSome? fun scope => scope.lookup name) = some v) :
    (scopes.map fun scope => scope.map fun e => (e.1, e.2.known ((v.id, t) :: narrowed))) =
      narrowScopes name (scopes.map fun scope => scope.map fun e => (e.1, e.2.known narrowed)) := by
  induction scopes with
  | nil => cases h
  | cons scope outer ih =>
    rw [List.flatten_cons, List.map_append, List.nodup_append] at hd
    obtain ⟨hscope, houter, hdisjoint⟩ := hd
    rw [List.map_cons, List.map_cons, narrowScopes, Env.lookup_map_known, Option.isSome_map]
    rw [List.findSome?_cons] at h
    cases hv : scope.lookup name with
    | some w =>
      rw [hv] at h
      cases h
      rw [if_pos Option.isSome_some, narrowScope_known hscope hv]
      congr 1
      refine List.map_congr_left fun s hs => map_known_of_ne fun e he hid => ?_
      refine hdisjoint v.id (List.mem_map.2 ⟨_, mem_of_lookup hv, rfl⟩) e.2.id ?_ hid.symm
      exact List.mem_map.2 ⟨e, List.mem_flatten.2 ⟨s, hs, he⟩, rfl⟩
    | none =>
      rw [hv] at h
      rw [if_neg (by simp), ih houter h]
      congr 1
      obtain ⟨s, hs, hsv⟩ := List.exists_of_findSome?_eq_some h
      refine map_known_of_ne fun e he hid => ?_
      refine hdisjoint e.2.id (List.mem_map.2 ⟨e, he, rfl⟩) v.id ?_ hid
      exact List.mem_map.2 ⟨(name, v), List.mem_flatten.2 ⟨s, hs, mem_of_lookup hsv⟩, rfl⟩

end

namespace Context

variable {Γ : Context} {name n : String} {k : Known}

theorem isSome_find?_declare (h : Γ.scopes ≠ []) :
    ((Γ.declare name k).find? n).isSome = (n == name || (Γ.find? n).isSome) := by
  obtain ⟨scope, outer, hs⟩ := List.exists_cons_of_ne_nil h
  rw [find?, find?, declare, hs]
  change (List.findSome? _ (((name, k) :: scope) :: outer)).isSome = _
  rw [List.findSome?_cons, List.findSome?_cons, List.lookup_cons]
  cases n == name with
  | true => rfl
  | false => rfl

theorem isSome_lookup_narrowScope (scope : List (String × Known)) :
    ((narrowScope name scope).lookup n).isSome = (scope.lookup n).isSome := by
  induction scope with
  | nil => rfl
  | cons e rest ih =>
    obtain ⟨m, k⟩ := e
    rw [narrowScope]
    split
    · rw [List.lookup_cons, List.lookup_cons]
      cases n == m <;> rfl
    · rw [List.lookup_cons, List.lookup_cons]
      cases n == m
      · exact ih
      · rfl

theorem isSome_find?_narrow : ((Γ.narrow name).find? n).isSome = (Γ.find? n).isSome := by
  have hscopes (scopes : List (List (String × Known))) :
      ((narrowScopes name scopes).findSome? fun scope => scope.lookup n).isSome =
        (scopes.findSome? fun scope => scope.lookup n).isSome := by
    induction scopes with
    | nil => rfl
    | cons scope outer ih =>
      rw [narrowScopes]
      split
      · have hhead : ((narrowScope name scope).lookup n).isSome = (scope.lookup n).isSome :=
          isSome_lookup_narrowScope scope
        rw [List.findSome?_cons, List.findSome?_cons]
        cases hs : scope.lookup n with
        | none =>
          rw [hs] at hhead
          rw [Option.isSome_eq_false_iff.1 (hhead.trans rfl) |> Option.isNone_iff_eq_none.1]
        | some k =>
          rw [hs] at hhead
          obtain ⟨k', hk'⟩ := Option.isSome_iff_exists.1 (hhead.trans rfl)
          rw [hk']
          rfl
      · rw [List.findSome?_cons, List.findSome?_cons]
        cases scope.lookup n with
        | none => exact ih
        | some k => rfl
  exact hscopes Γ.scopes

end Context

/-! ## Environments -/

namespace Env

/-- What a statement keeps: all but the innermost scope of the function at hand, and what is known
of the bindings of that function. -/
structure Passes (env env' : Env) : Prop where
  globals : env'.globals = env.globals
  outer : env.contexts.tail.Forall₂ Resumed env'.contexts.tail
  scopes : env'.scopes.tail = env.scopes.tail
  ret : env'.context.ret = env.context.ret
  narrowed : ∀ v ∈ varsOf env.contexts.tail, env'.narrowed.lookup v.id = env.narrowed.lookup v.id
  nextId : env.nextId ≤ env'.nextId

variable {loose : Prop} {N N' : Visible} {env env' env'' : Env}

theorem resumed_tail {cs cs' : List FnContext} (h : cs.Forall₂ Resumed cs') :
    cs.tail.Forall₂ Resumed cs'.tail := by
  cases h with
  | nil => exact .nil
  | cons _ h => exact h

theorem Keeps.passes (h : env.Keeps env') : env.Passes env' where
  globals := h.globals
  outer := resumed_tail h.contexts
  scopes := congrArg List.tail (scopes_of_resumed h.contexts)
  ret := by rw [h.context]
  narrowed := fun v hv => h.narrowed v (varsOf_tail_subset _ hv)
  nextId := h.nextId

theorem Passes.refl (env : Env) : env.Passes env := (Keeps.refl env).passes

theorem Passes.trans (h : env.Passes env') (h' : env'.Passes env'') : env.Passes env'' where
  globals := h'.globals.trans h.globals
  outer := resumed_trans h.outer h'.outer
  scopes := h'.scopes.trans h.scopes
  ret := h'.ret.trans h.ret
  narrowed := fun v hv => (h'.narrowed v (by rwa [vars_of_resumed h.outer])).trans (h.narrowed v hv)
  nextId := h.nextId.trans h'.nextId

/-! Facts that do not concern types. -/

theorem keeps_init (env : Env) (I : InitFacts) : env.Keeps { env with init := I } :=
  ⟨rfl, resumed_refl _, fun _ _ => rfl, le_rfl⟩

theorem Coherent.withInit (h : env.Coherent loose N) (I : InitFacts) :
    ({ env with init := I } : Env).Coherent loose N := (keeps_init env I).coherent h h.old

/-! ## Declarations -/

theorem context_modifyHead {c : FnContext} {outer : List FnContext} (hc : env.contexts = c :: outer)
    {g : FnContext → FnContext} : (env.modifyHead g).context =
      ⟨(g c).scopes.map fun scope => scope.map fun e => (e.1, e.2.known env.narrowed),
        env.context.captured, (g c).ret⟩ := by
  rw [modifyHead_eq hc]
  unfold Env.context
  rw [hc]
  rfl

/-- A new binding of which nothing is known. -/
theorem Coherent.unknown (h : env.Coherent loose N) {v : Var} (hv : v.id = env.nextId) :
    env.narrowed.lookup v.id = none := by
  cases ht : env.narrowed.lookup v.id with
  | none => rfl
  | some t => exact absurd (h.old _ t ht) (by omega)

theorem context_declared (h : env.Coherent loose N) {name : String} {v : Var} {state : InitState}
    (hv : v.id = env.nextId) : (env.declared name v state).context =
      env.context.declare name ⟨v.ty, v.mutable, false⟩ := by
  obtain ⟨c, outer, hc⟩ := List.exists_cons_of_ne_nil h.inside
  have hknown : v.known env.narrowed = ⟨v.ty, v.mutable, false⟩ := by
    rw [Var.known, h.unknown hv]
    rfl
  have hcontext : (env.declared name v state).context =
      (env.modifyHead fun c => c.declare name v).context := rfl
  rw [hcontext, context_modifyHead hc, Context.declare, ← hknown]
  unfold FnContext.declare Env.context Env.scopes
  rw [hc]
  cases hs : c.scopes with
  | nil => simp [hs]
  | cons scope rest => simp [hs]

theorem Coherent.declared (h : env.Coherent loose N) {name : String} {v : Var} {state : InitState}
    (hv : v.id = env.nextId) (ht : v.ty.Declared loose) :
    (env.declared name v state).Coherent loose (N.declare name) := by
  obtain ⟨c, outer, hc⟩ := List.exists_cons_of_ne_nil h.inside
  have hcontexts : (env.declared name v state).contexts = c.declare name v :: outer :=
    contexts_declared hc
  have hvars : varsOf (env.declared name v state).contexts = varsOf env.contexts ∨
      varsOf (env.declared name v state).contexts = v :: varsOf env.contexts := vars_declared hc
  have hmem : ∀ w ∈ varsOf (env.declared name v state).contexts, w = v ∨
      w ∈ varsOf env.contexts := by
    intro w hw
    rcases hvars with hvars | hvars <;> rw [hvars] at hw
    · exact .inr hw
    · exact List.mem_cons.1 hw
  have hnarrowed : (env.declared name v state).narrowed = env.narrowed := by
    rw [Env.declared, modifyHead_eq hc]
  have hnext : (env.declared name v state).nextId = env.nextId + 1 := rfl
  constructor
  case globals =>
    rw [Env.declared, modifyHead_eq hc]
    exact h.globals
  case inside =>
    rw [hcontexts]
    exact List.cons_ne_nil _ _
  case distinct =>
    rcases hvars with hvars | hvars <;> rw [hvars]
    · exact h.distinct
    · refine List.nodup_cons.2 ⟨fun hid => ?_, h.distinct⟩
      obtain ⟨w, hw, he⟩ := List.mem_map.1 hid
      have := h.below w hw
      omega
  case below =>
    intro w hw
    rw [hnext]
    rcases hmem w hw with rfl | hw
    · omega
    · have := h.below w hw
      omega
  case types =>
    intro w hw
    rcases hmem w hw with rfl | hw
    · exact ht
    · exact h.types w hw
  case returns =>
    rw [hcontexts]
    have hret : (c.declare name v).ret = c.ret := by
      unfold FnContext.declare
      split <;> rfl
    have := h.returns
    rw [hc] at this
    refine List.forall_mem_cons.2 ⟨hret ▸ this c List.mem_cons_self, fun d hd => ?_⟩
    exact this d (List.mem_cons_of_mem _ hd)
  case old =>
    intro id t hid
    rw [hnarrowed] at hid
    have := h.old id t hid
    rw [hnext]
    omega
  case narrowed =>
    intro w hw t hw'
    rw [hnarrowed] at hw'
    rcases hmem w hw with rfl | hw
    · rw [h.unknown hv] at hw'
      cases hw'
    · exact h.narrowed w hw t hw'
  case scopes =>
    have := h.scopes
    rw [Env.scopes, hc] at this
    rw [Env.scopes, hcontexts]
    change (c.declare name v).scopes ≠ []
    unfold FnContext.declare
    cases hs : c.scopes with
    | nil => exact absurd hs this
    | cons scope rest => exact List.cons_ne_nil _ _
  case own =>
    intro n
    have hscopes : env.context.scopes ≠ [] := fun hnil => h.scopes (List.map_eq_nil_iff.1 hnil)
    rw [context_declared h hv, Context.isSome_find?_declare hscopes, Bool.or_eq_true,
      h.own n, beq_iff_eq]
    exact List.mem_cons.symm
  case outer =>
    rw [context_declared h hv]
    exact h.outer

theorem passes_declared (h : env.Coherent loose N) {name : String} {v : Var} {state : InitState} :
    env.Passes (env.declared name v state) := by
  obtain ⟨c, outer, hc⟩ := List.exists_cons_of_ne_nil h.inside
  have hcontexts : (env.declared name v state).contexts = c.declare name v :: outer :=
    contexts_declared hc
  constructor
  case globals => rw [Env.declared, modifyHead_eq hc]
  case outer =>
    rw [hcontexts, hc]
    exact resumed_refl outer
  case scopes =>
    rw [Env.scopes, Env.scopes, hcontexts, hc]
    change (c.declare name v).scopes.tail = c.scopes.tail
    unfold FnContext.declare
    cases hs : c.scopes with
    | nil => exact congrArg List.tail hs
    | cons scope rest => rfl
  case ret =>
    rw [Env.context, Env.context, hcontexts, hc]
    change (c.declare name v).ret = c.ret
    unfold FnContext.declare
    split <;> rfl
  case narrowed =>
    rw [Env.declared, modifyHead_eq hc]
    exact fun _ _ => rfl
  case nextId => exact Nat.le_succ _

/-! ## Tests for null -/

/-- The test is about this binding of the function at hand. -/
def Concerns (env : Env) (t : Check.NullTest) (name : String) : Prop :=
  ∃ c outer v, env.contexts = c :: outer ∧ c.find? name = some v ∧ v.mutable = false ∧
    v.ty = .nullable t.inner ∧ v.id = t.id

/-- The test as the rules know it. -/
def TestsAs (env : Env) (test : Option Check.NullTest) (named : Option (String × Bool)) : Prop :=
  match test, named with
  | none, none => True
  | some t, some (name, isNe) => env.Concerns t name ∧ isNe = t.isNe
  | _, _ => False

def narrowing (env : Env) (id : Nat) (ty : Ty) : Env :=
  { env with narrowed := (id, ty) :: env.narrowed }

theorem Concerns.of_resumed {t : Check.NullTest} {name : String} (h : env.Concerns t name)
    (hc : env.contexts.Forall₂ Resumed env'.contexts) : env'.Concerns t name := by
  obtain ⟨c, outer, v, hcs, hfind, hv⟩ := h
  rw [hcs] at hc
  obtain ⟨c', outer', hr, -, hcs'⟩ := List.forall₂_cons_left_iff.1 hc
  refine ⟨c', outer', v, hcs', ?_, hv⟩
  rw [FnContext.find?, hr.1]
  exact hfind

theorem TestsAs.of_resumed {test : Option Check.NullTest} {named : Option (String × Bool)}
    (h : env.TestsAs test named) (hc : env.contexts.Forall₂ Resumed env'.contexts) :
    env'.TestsAs test named := by
  cases test with
  | none =>
    cases named with
    | none => trivial
    | some n => exact h.elim
  | some t =>
    cases named with
    | none => exact h.elim
    | some n => exact ⟨h.1.of_resumed hc, h.2⟩

/-- Bindings of the functions around the one at hand are not concerned. -/
theorem Concerns.ne_outer (h : env.Coherent loose N) {t : Check.NullTest} {name : String}
    (ht : env.Concerns t name) {w : Var} (hw : w ∈ varsOf env.contexts.tail) : w.id ≠ t.id := by
  obtain ⟨c, outer, v, hc, hfind, -, -, hid⟩ := ht
  have hd := h.distinct
  rw [hc] at hd hw
  rw [varsOf, List.flatMap_cons, List.map_append, List.nodup_append] at hd
  intro he
  refine hd.2.2 v.id (List.mem_map_of_mem (FnContext.mem_vars_of_find? hfind)) w.id
    (List.mem_map_of_mem hw) ?_
  rw [he, hid]

theorem context_narrowing (h : env.Coherent loose N) {t : Check.NullTest} {name : String}
    (ht : env.Concerns t name) :
    (env.narrowing t.id t.inner).context = env.context.narrow name := by
  have hne (w : Var) (hw : w ∈ varsOf env.contexts.tail) := ht.ne_outer h hw
  obtain ⟨c, outer, v, hc, hfind, -, -, hid⟩ := ht
  have hscopes : env.scopes = c.scopes := by rw [Env.scopes, hc]; rfl
  have hd : (c.scopes.flatten.map fun e => e.2.id).Nodup := by
    have := h.distinct
    rw [hc, varsOf, List.flatMap_cons, List.map_append, List.nodup_append, FnContext.vars,
      List.map_map] at this
    exact this.1
  unfold Env.context Context.narrow
  congr 1
  · change List.map _ env.scopes = narrowScopes name (List.map _ env.scopes)
    rw [hscopes]
    change (c.scopes.map fun scope => scope.map fun e =>
      (e.1, e.2.known ((t.id, t.inner) :: env.narrowed))) = _
    rw [← hid]
    exact narrowScopes_known hd hfind
  · funext n
    change Option.map (fun v => (v.known ((t.id, t.inner) :: env.narrowed)).read)
      (env.contexts.tail.findSome? fun c => c.find? n) =
        Option.map (fun v => (v.known env.narrowed).read)
        (env.contexts.tail.findSome? fun c => c.find? n)
    cases hw : env.contexts.tail.findSome? fun c => c.find? n with
    | none => rfl
    | some w =>
      have hlookup : ((t.id, t.inner) :: env.narrowed).lookup w.id = env.narrowed.lookup w.id := by
        rw [List.lookup_cons, beq_false_of_ne (hne w (mem_varsOf_of_find hw))]
      rw [Option.map_some, Option.map_some, known_congr hlookup]

theorem Coherent.narrowing (h : env.Coherent loose N) {t : Check.NullTest} {name : String}
    (ht : env.Concerns t name) : (env.narrowing t.id t.inner).Coherent loose N := by
  have hcontext := context_narrowing h ht
  obtain ⟨c, outer, v, hc, hfind, hm, hty, hid⟩ := ht
  have hv : v ∈ varsOf env.contexts := by
    rw [hc]
    exact List.mem_append_left _ (FnContext.mem_vars_of_find? hfind)
  have hlookup (id : Nat) (s : Ty) (hs : (env.narrowing t.id t.inner).narrowed.lookup id = some s) :
      id = v.id ∧ s = t.inner ∨ env.narrowed.lookup id = some s := by
    change List.lookup id ((t.id, t.inner) :: env.narrowed) = some s at hs
    rw [List.lookup_cons] at hs
    split at hs
    · rename_i he
      cases hs
      exact .inl ⟨(beq_iff_eq.1 he).trans hid.symm, rfl⟩
    · exact .inr hs
  constructor
  case globals => exact h.globals
  case inside => exact h.inside
  case scopes => exact h.scopes
  case distinct => exact h.distinct
  case below => exact h.below
  case types => exact h.types
  case returns => exact h.returns
  case old =>
    intro id s hs
    rcases hlookup id s hs with ⟨rfl, -⟩ | hs
    · exact h.below v hv
    · exact h.old id s hs
  case narrowed =>
    intro w hw s hs
    rcases hlookup w.id s hs with ⟨he, rfl⟩ | hs
    · obtain rfl : w = v := List.inj_on_of_nodup_map h.distinct hw hv he
      exact ⟨hm, hty⟩
    · exact h.narrowed w hw s hs
  case own =>
    intro n
    rw [hcontext, Context.isSome_find?_narrow]
    exact h.own n
  case outer =>
    rw [hcontext]
    exact h.outer

theorem Concerns.passes (h : env.Coherent loose N) {t : Check.NullTest} {name : String}
    (ht : env.Concerns t name) : env.Passes (env.narrowing t.id t.inner) where
  globals := rfl
  outer := resumed_refl _
  scopes := rfl
  ret := rfl
  narrowed := fun w hw => by
    change List.lookup w.id ((t.id, t.inner) :: env.narrowed) = _
    rw [List.lookup_cons, beq_false_of_ne (ht.ne_outer h hw)]
  nextId := le_rfl

/-- Where a test has this outcome. -/
def narrowedWhere (env : Env) (test : Option Check.NullTest) (isNe : Bool) : Env :=
  match test with
  | some t => if t.isNe = isNe then env.narrowing t.id t.inner else env
  | none => env

theorem takes_narrowWhere (test : Option Check.NullTest) (isNe : Bool) :
    Check.Takes (Check.narrowWhere test isNe) fun env env' _ =>
      env' = env.narrowedWhere test isNe := by
  unfold Check.narrowWhere narrowedWhere
  cases test with
  | none => exact (Check.Takes.pure _).weaken fun _ _ _ h => h.2
  | some t =>
    dsimp only
    split
    · exact Check.takes_modify (fun env => env.narrowing t.id t.inner) fun _ => rfl
    · exact (Check.Takes.pure _).weaken fun _ _ _ h => h.2

theorem TestsAs.narrowed {test : Option Check.NullTest} {named : Option (String × Bool)}
    (h : env.Coherent loose N) (ht : env.TestsAs test named) (isNe : Bool) :
    (env.narrowedWhere test isNe).Coherent loose N ∧ env.Passes (env.narrowedWhere test isNe) ∧
      (env.narrowedWhere test isNe).context = env.context.narrowIf named isNe := by
  cases test with
  | none =>
    cases named with
    | none => exact ⟨h, .refl _, rfl⟩
    | some n => exact ht.elim
  | some t =>
    cases named with
    | none => exact ht.elim
    | some n =>
      obtain ⟨name, ne⟩ := n
      obtain ⟨hcon, rfl⟩ := ht
      rw [narrowedWhere, Context.narrowIf]
      split
      · exact ⟨h.narrowing hcon, hcon.passes h, context_narrowing h hcon⟩
      · exact ⟨h, .refl _, rfl⟩

/-! ## Blocks -/

/-- What is checked in a scope of its own, where what it learns about null is forgotten. -/
theorem takes_block {x : Check α} {T : Env → Env → α → Prop} (hx : Check.Takes x T) :
    Check.Takes (Check.inBlock x) fun env env' a => ∃ mid, T env.opened mid a ∧
      env' = Env.closed { mid with narrowed := env.narrowed } := by
  refine ((Check.takes_modifyContext _).bind fun _ =>
    (Check.takes_reads Env.narrowed).bind fun mark =>
    hx.bind fun a =>
      (Check.takes_modify (fun e => { e with narrowed := mark }) fun _ => rfl).bind fun _ =>
      (Check.takes_modifyContext _).bind fun _ => Check.Takes.pure a).weaken ?_
  rintro env env' a ⟨_, _, rfl, mark, _, ⟨rfl, rfl⟩, _, mid, hx, _, _, rfl, _, _, rfl, rfl, rfl⟩
  refine ⟨mid, hx, ?_⟩
  have hopened : env.opened.narrowed = env.narrowed := by
    unfold Env.opened Env.modifyHead
    split <;> rfl
  rw [← hopened]
  rfl

theorem context_opened (h : env.Coherent loose N) : env.opened.context = env.context.opened := by
  obtain ⟨c, outer, hc⟩ := List.exists_cons_of_ne_nil h.inside
  rw [Env.opened, context_modifyHead hc, Context.opened, Env.context, Env.scopes, hc]
  rfl

theorem Coherent.opened (h : env.Coherent loose N) : env.opened.Coherent loose N := by
  have hcontext := context_opened h
  obtain ⟨c, outer, hc⟩ := List.exists_cons_of_ne_nil h.inside
  have hopened :
      env.opened = { env with contexts := { c with scopes := [] :: c.scopes } :: outer } :=
    modifyHead_eq hc
  have hvars : varsOf env.opened.contexts = varsOf env.contexts := by
    rw [hopened, hc]
    rfl
  constructor
  case globals =>
    rw [hopened]
    exact h.globals
  case inside =>
    rw [hopened]
    exact List.cons_ne_nil _ _
  case scopes =>
    rw [hopened]
    exact List.cons_ne_nil _ _
  case distinct => exact hvars ▸ h.distinct
  case below =>
    rw [hvars, hopened]
    exact h.below
  case types =>
    rw [hvars]
    exact h.types
  case returns =>
    rw [hopened]
    have := h.returns
    rw [hc] at this
    exact List.forall_mem_cons.2 ⟨this c List.mem_cons_self,
      fun d hd => this d (List.mem_cons_of_mem _ hd)⟩
  case old =>
    rw [hopened]
    exact h.old
  case narrowed =>
    rw [hvars, hopened]
    exact h.narrowed
  case own =>
    rw [hcontext]
    exact h.own
  case outer =>
    rw [hcontext]
    exact h.outer

/-- After a block all is as it was before it. -/
theorem Passes.closed (h : env.Coherent loose N) {mid : Env} (hp : env.opened.Passes mid)
    (hm : mid.Coherent loose N') : env.Keeps (Env.closed { mid with narrowed := env.narrowed }) ∧
      (Env.closed { mid with narrowed := env.narrowed }).Coherent loose N := by
  obtain ⟨c, outer, hc⟩ := List.exists_cons_of_ne_nil h.inside
  obtain ⟨d, outer', hd⟩ := List.exists_cons_of_ne_nil hm.inside
  have hopened :
      env.opened = { env with contexts := { c with scopes := [] :: c.scopes } :: outer } :=
    modifyHead_eq hc
  have hclosed : Env.closed { mid with narrowed := env.narrowed } =
      { mid with
        narrowed := env.narrowed, contexts := { d with scopes := d.scopes.tail } :: outer' } :=
    modifyHead_eq hd
  have houter := hp.outer
  have hscopes := hp.scopes
  have hret := hp.ret
  rw [hopened, hd] at houter
  rw [Env.scopes, Env.scopes, hopened, hd] at hscopes
  rw [Env.context, Env.context, hopened, hd] at hret
  have hkeeps : env.Keeps (Env.closed { mid with narrowed := env.narrowed }) := by
    rw [hclosed]
    refine ⟨?_, ?_, fun _ _ => rfl, ?_⟩
    · have := hp.globals
      rwa [hopened] at this
    · rw [hc]
      exact .cons ⟨hscopes, hret⟩ houter
    · have := hp.nextId
      rwa [hopened] at this
  refine ⟨hkeeps, hkeeps.coherent h fun id t ht => ?_⟩
  rw [hclosed] at ht
  exact (h.old id t ht).trans_le hkeeps.nextId

end Env

end ScopedScript
