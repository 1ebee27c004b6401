import ScopedScript.Proofs.Typing.Advancing

/-!
# Names in the steps of the checker

The steps of the checker that resolve names, declare bindings or assign to them: what they accept is
in order at every point that the checker may be at.
-/

namespace ScopedScript

namespace Env

variable {env : Env} {ids : Ids} {c : FnContext} {outer : List FnContext} {name : String} {v : Var}

/-- A binding of the function at hand has a slot of it. -/
theorem Tracks.found {W : Links} {P : Point} {D : List Declaration} {F : InitFacts}
    (h : env.Tracks W P D F) (hc : env.contexts = c :: outer) (hv : c.find? name = some v) :
    ∃ b, (v, b) ∈ W.flatten ∧ P.resolve? name = some (.slot b) := by
  have hfind := h.find? hc name
  rw [hv] at hfind
  obtain ⟨⟨w, b⟩, hW, rfl⟩ := Option.map_eq_some_iff.1 hfind.symm
  exact ⟨b, (Links.mem_of_find? hW).1, by rw [h.resolve?, hW]⟩

theorem Fine.state (h : env.Fine ids) (hv : ∃ w ∈ varsOf env.contexts, w.id = v.id) :
    env.init.lookup v.id = some (env.init.state v.id) := by
  obtain ⟨w, hw, hid⟩ := hv
  obtain ⟨s, hs⟩ := Option.isSome_iff_exists.1 (h.recorded w hw)
  rw [hid] at hs
  rw [InitFacts.state, hs]
  rfl

end Env

/-- A name that means more than a capture is one of the function at hand. -/
theorem resolveIn_local {name : String} {v : Var} {cs cs' : List FnContext}
    (h : resolveIn name cs = some (v, cs')) (hk : v.kind ≠ .capture) :
    cs' = cs ∧ ∃ c outer, cs = c :: outer ∧ c.find? name = some v := by
  cases cs with
  | nil => cases h
  | cons c outer =>
    rw [resolveIn] at h
    split at h
    · rename_i w hw
      cases h
      exact ⟨rfl, c, outer, rfl, hw⟩
    · obtain ⟨⟨w, outer'⟩, -, he⟩ := Option.map_eq_some_iff.1 h
      cases he
      exact absurd rfl hk

section

variable {ids : Ids} {env : Env} {c : FnContext} {outer : List FnContext} {name : String} {v : Var}

theorem Encloses.refl (hf : env.Fine ids) :
    Encloses ids env env [] (fun _ _ _ => True) id fun _ F => F :=
  ⟨hf, .refl env, rfl, fun _ _ _ _ ht _ _ => ⟨trivial, ht⟩⟩

/-- A binding gets its value. -/
theorem encloses_markInit (hf : env.Fine ids) (hc : env.contexts = c :: outer)
    (hv : c.find? name = some v) (span : Option Span) :
    Encloses ids env { env with init := (v.id, .init) :: env.init } [] (fun _ _ _ => True) id
      fun P F => P.assigned F ⟨name, [], span⟩ := by
  refine (Encloses.refl hf).settle hf ⟨fun w hw => ?_, fun w hw => ?_⟩
    fun W P D F ht _ _ hsame => ?_
  · have hne : w.id ≠ v.id := by
      have hd := hf.distinct
      rw [hc, varsOf, List.flatMap_cons, List.map_append] at hd
      rw [hc] at hw
      exact fun he => (List.nodup_append.1 hd).2.2 _
        (List.mem_map_of_mem (FnContext.mem_vars_of_find? hv)) _ (List.mem_map_of_mem hw) he.symm
    rw [List.lookup_cons, beq_false_of_ne hne]
  · rw [List.lookup_cons]
    split
    · rfl
    · exact hf.recorded w hw
  · obtain ⟨b, hb, hr⟩ := ht.found hc hv
    intro l hl
    have hiff := ht.id_iff hf hb hl
    simp only [Point.assigned, hr, List.lookup_cons]
    by_cases he : l.1.id = v.id
    · rw [he, hiff.1 he, beq_self_eq_true, beq_self_eq_true]
    · rw [beq_false_of_ne he, beq_false_of_ne (mt hiff.2 he)]
      exact hsame l hl

end

/-! ## Declarations -/

namespace FnContext

variable (c : FnContext) (name : String) (v : Var)

@[simp]
theorem captures_declare : (c.declare name v).captures = c.captures := by
  unfold declare
  split <;> rfl

@[simp]
theorem loopDepth_declare : (c.declare name v).loopDepth = c.loopDepth := by
  unfold declare
  split <;> rfl

@[simp]
theorem tail_scopes_declare : (c.declare name v).scopes.tail = c.scopes.tail := by
  unfold declare
  split
  · rfl
  · rename_i hs
    rw [hs]
    rfl

theorem vars_declare : (c.declare name v).vars = c.vars ∨
    (c.declare name v).vars = v :: c.vars := by
  unfold declare
  split
  · exact .inl rfl
  · rename_i hs
    refine .inr ?_
    rw [vars, vars, hs]
    rfl

end FnContext

namespace Env

/-- After a declaration in the innermost scope. -/
def declared (env : Env) (name : String) (v : Var) (state : InitState) : Env :=
  { env.modifyHead fun c => c.declare name v with
    init := (v.id, state) :: env.init
    nextId := env.nextId + 1 }

variable {ids : Ids} {env : Env} {name : String} {v : Var} {state : InitState}

theorem contexts_declared {c : FnContext} {outer : List FnContext}
    (hc : env.contexts = c :: outer) :
    (env.declared name v state).contexts = c.declare name v :: outer := by
  rw [declared, modifyHead_eq hc]

/-- A binding that is not known yet says nothing of the others. -/
theorem Fine.lookup_fresh (h : env.Fine ids) (hv : v.id = env.nextId) {w : Var}
    (hw : w ∈ varsOf env.contexts) :
    List.lookup w.id ((v.id, state) :: env.init) = env.init.lookup w.id := by
  have := h.below w hw
  have hne : w.id ≠ v.id := by omega
  rw [List.lookup_cons, beq_false_of_ne hne]

theorem vars_declared {c : FnContext} {outer : List FnContext} (hc : env.contexts = c :: outer) :
    varsOf (env.declared name v state).contexts = varsOf env.contexts ∨
      varsOf (env.declared name v state).contexts = v :: varsOf env.contexts := by
  rw [contexts_declared hc, hc]
  simp only [varsOf, List.flatMap_cons]
  rcases FnContext.vars_declare c name v with h | h <;> rw [h]
  · exact .inl rfl
  · exact .inr rfl

theorem Fine.declared (h : env.Fine ids) (hv : v.id = env.nextId) :
    (env.declared name v state).Fine ids := by
  obtain ⟨c, outer, hc⟩ := List.exists_cons_of_ne_nil h.inside
  have hcase : varsOf (env.declared name v state).contexts = varsOf env.contexts ∨
      varsOf (env.declared name v state).contexts = v :: varsOf env.contexts := vars_declared hc
  have hvars : ∀ w ∈ varsOf (env.declared name v state).contexts, w = v ∨
      w ∈ varsOf env.contexts := by
    intro w hw
    rcases hcase with he | he <;> rw [he] at hw
    · exact .inr hw
    · exact List.mem_cons.1 hw
  constructor
  case covers =>
    rw [Env.declared, modifyHead_eq hc]
    exact h.covers
  case inside =>
    rw [contexts_declared hc]
    exact List.cons_ne_nil _ _
  case distinct =>
    rcases hcase with he | he <;> rw [he]
    · exact h.distinct
    · refine List.nodup_cons.2 ⟨fun hmem => ?_, h.distinct⟩
      obtain ⟨w, hw, he⟩ := List.mem_map.1 hmem
      have := h.below w hw
      omega
  case below =>
    intro w hw
    change w.id < env.nextId + 1
    rcases hvars w hw with rfl | hw
    · omega
    · exact (h.below w hw).trans (Nat.lt_succ_self _)
  case recorded =>
    intro w hw
    change (List.lookup w.id ((v.id, state) :: env.init)).isSome
    rcases hvars w hw with rfl | hw
    · rw [List.lookup_cons, beq_self_eq_true]
      rfl
    · rw [h.lookup_fresh hv hw]
      exact h.recorded w hw
  case chained =>
    have hchain := h.chained
    rw [hc] at hchain
    have : Chained ((v.id, state) :: env.init) (c :: outer) := hchain.congr fun w hw =>
      h.lookup_fresh hv (hc ▸ List.mem_append_right _ hw)
    rw [contexts_declared hc]
    exact ⟨fun n hn => this.1 n (FnContext.captures_declare c name v ▸ hn), this.2⟩

theorem Fine.beyond_declared (h : env.Fine ids) (hv : v.id = env.nextId) :
    env.Beyond (env.declared name v state) := by
  obtain ⟨c, outer, hc⟩ := List.exists_cons_of_ne_nil h.inside
  constructor
  case globals => rw [Env.declared, modifyHead_eq hc]
  case contexts =>
    rw [contexts_declared hc, hc]
    exact grown_refl _
  case init => exact fun w hw => h.lookup_fresh hv (varsOf_tail_subset _ hw)
  case nextId => exact Nat.le_succ _
  case scopes =>
    rw [Env.scopes, Env.scopes, contexts_declared hc, hc]
    exact FnContext.tail_scopes_declare c name v
  case depth =>
    rw [Env.depth, Env.depth, contexts_declared hc, hc]
    exact FnContext.loopDepth_declare c name v
  case captures =>
    rw [Env.captures, Env.captures, contexts_declared hc, hc]
    change c.captures ⊆ (c.declare name v).captures
    rw [FnContext.captures_declare]
    exact List.Subset.refl _

/-- The binding takes the next slot. -/
theorem Tracks.declared {W : Links} {P : Point} {D : List Declaration} {F : InitFacts}
    (ht : env.Tracks W P D F) (hf : env.Fine ids) (hv : v.id = env.nextId)
    (hdepth : v.loopDepth = env.depth) {d : Declaration} (hd : d.mutable = v.mutable)
    (hD : D[P.slots]? = some d) (span : Option Span) : ∃ W' : Links, W'.tail = W.tail ∧
      (env.declared name v state).Tracks W' (P.declare name span) D ((P.slots, state) :: F) := by
  obtain ⟨c, outer, hc⟩ := List.exists_cons_of_ne_nil hf.inside
  obtain ⟨scope, more, hP⟩ := List.exists_cons_of_ne_nil ht.point.nonempty
  obtain ⟨ws, Ws, rfl⟩ : ∃ ws Ws, W = ws :: Ws := by
    refine List.exists_cons_of_ne_nil fun hW => ?_
    rw [ht.bindings, hW] at hP
    cases hP
  refine ⟨((v, ⟨name, P.slots, span, P.loops⟩) :: ws) :: Ws, rfl, ?_⟩
  constructor
  case point => exact ht.point.extend (Point.extends_declare ht.point name span)
  case depth => exact (hf.beyond_declared hv).depth.trans ht.depth
  case scopes =>
    have hs := ht.scopes
    rw [Env.scopes, hc] at hs
    have hs : c.scopes = (ws.map fun l => (l.2.name, l.1)) :: Links.entries Ws := hs
    rw [Env.scopes, contexts_declared hc]
    change (c.declare name v).scopes = _
    rw [FnContext.declare, hs]
    rfl
  case bindings =>
    have hb : P.scopes = (ws.map Prod.snd) :: Links.bindings Ws := ht.bindings
    simp only [Point.declare, hb]
    rfl
  case alike =>
    intro l hl
    have hl : l ∈ (v, (⟨name, P.slots, span, P.loops⟩ : Binding)) :: (ws :: Ws).flatten := hl
    rcases List.mem_cons.1 hl with rfl | hl
    · refine ⟨hdepth.trans ht.depth, ⟨d, hD, hd⟩, ?_⟩
      change List.lookup v.id ((v.id, state) :: env.init) =
        List.lookup P.slots ((P.slots, state) :: F)
      rw [List.lookup_cons, List.lookup_cons, beq_self_eq_true, beq_self_eq_true]
    · obtain ⟨h₁, h₂, h₃⟩ := ht.alike l hl
      refine ⟨h₁, h₂, ?_⟩
      have hslot : l.2.slot ≠ P.slots := (ht.point.below _ (ht.mem_bindings hl)).1.ne
      change List.lookup l.1.id ((v.id, state) :: env.init) =
        List.lookup l.2.slot ((P.slots, state) :: F)
      rw [hf.lookup_fresh hv (ht.mem_vars hf hl), List.lookup_cons, beq_false_of_ne hslot]
      exact h₃

end Env

namespace Check

theorem takes_declare (name : String) (ty : Ty) (mutable : Bool) (kind : VarKind)
    (state : InitState) (declaredAt : Option Span) :
    Takes (declare name ty mutable kind state declaredAt) fun env env' _ =>
      env' = env.declared name ⟨env.nextId, ty, mutable, kind, env.depth, declaredAt⟩ state := by
  intro env he
  obtain ⟨globals, contexts, errors, init, narrowed, nextId⟩ := env
  cases contexts <;> exact ⟨he, rfl⟩

variable {ids : Ids} {frees : List (String × Option Span)}

theorem advances_declare (ids : Ids) (name : String) (ty : Ty) (mutable : Bool) (kind : VarKind)
    (state : InitState) (span declaredAt : Option Span) {d : Declaration}
    (hd : d.mutable = mutable) :
    Takes (declare name ty mutable kind state span) fun env env' _ => env.Fine ids →
      Advances ids env env' [d] (fun _ _ _ => True) (fun P => P.declare name declaredAt)
        fun P F => (P.slots, state) :: F := by
  refine (takes_declare name ty mutable kind state span).weaken ?_
  rintro env env' - rfl hf
  exact ⟨hf.declared rfl, hf.beyond_declared rfl, fun W P D F ht _ hl =>
    ⟨trivial, ht.declared hf rfl rfl hd (lists_singleton.1 hl) declaredAt⟩⟩

/-! ## Names -/

/-- What a name can stand for when no binding has it. -/
theorem quiet_global (name : String) (span : Option Span) : Quiet (do
    match ← functionSig? name with
    | some sig =>
      if sig.isAsync then reportInvalid (.asyncAsValue name) span
      return TExpr.mk (.function name) sig.toTy span
    | none =>
      match ← nativeSig? name with
      | some sig => return .mk (.native name) sig.toTy span
      | none =>
        report (.unresolved .name name) span
        return .poison span) fun g e =>
      (∃ ty, e = .mk (.function name) ty span ∧ (g.functions.lookup name).isSome) ∨
        ∃ ty, e = .mk (.native name) ty span := by
  refine (quiet_functionSig? name).bind fun sig => ?_
  split
  · exact .reportedIf fun _ => .pure fun g hs => .inl ⟨_, rfl, by rw [← hs]; rfl⟩
  · refine Quiet.weaken (?_ : Quiet _ _) fun _ _ h _ => .inr h
    refine quiet_reads.after fun sig => ?_
    split
    · exact .pure fun _ => ⟨_, rfl⟩
    · exact .failed

theorem grounds_checkName (name : String) (span : Option Span) :
    Grounds ids (checkName name span) fun P F e => e.Grounded ids frees P F := by
  refine ((takes_lookup name).bind (S := fun r env env' e =>
    ∃ n, env' = { env with narrowed := n } ∧
    ((∃ v ty, r = some v ∧ env.init.state v.id = .init ∧ e = .mk (.binding name) ty span) ∨
      r = none ∧
      ((∃ ty, e = .mk (.function name) ty span ∧ (env.globals.functions.lookup name).isSome) ∨
        ∃ ty, e = .mk (.native name) ty span))) fun r => ?_).weaken ?_
  · split
    · rename_i v
      refine ((takes_reads fun env => env.init.state v.id).bind (S := fun state env env' e =>
        state = .init ∧ env' = env ∧ ∃ ty, e = .mk (.binding name) ty span)
        fun state => ?_).weaken ?_
      · have hrest : Takes (narrowedType? v.id >>= fun ty =>
            Pure.pure (TExpr.mk (.binding name) (ty.getD v.ty) span)) fun env env' e =>
              env' = env ∧ ∃ ty, e = .mk (.binding name) ty span :=
          fun _ he => ⟨he, rfl, _, rfl⟩
        split
        · exact hrest.weaken fun _ _ _ h => ⟨rfl, h⟩
        · exact .reported hrest
        · exact .reported hrest
      · rintro env env' e ⟨_, _, ⟨rfl, rfl⟩, hinit, rfl, ty, rfl⟩
        exact ⟨_, rfl, .inl ⟨v, ty, rfl, hinit, rfl⟩⟩
    · refine (Quiet.takes (quiet_global name span)).weaken ?_
      rintro env env' e ⟨⟨n, hn⟩, he⟩
      exact ⟨n, hn, .inr ⟨rfl, he⟩⟩
  · rintro env env' e ⟨r, mid, hr, n, rfl, h⟩ hf
    rcases h with ⟨v, ty, rfl, hinit, rfl⟩ | ⟨rfl, hglobal⟩
    · obtain ⟨hnone, -⟩ | ⟨w, cs, hw, hresolve, rfl⟩ := hr
      · cases hnone
      cases hw
      obtain ⟨hgrown, hid, hread⟩ := resolveIn_some env.init hresolve
      have hlookup : env.init.lookup v.id = some .init := (hf.state hid).trans (congrArg some hinit)
      obtain ⟨hchain, hreadable⟩ := hread hf.chained hlookup
      have hvars : varsOf cs = varsOf env.contexts := vars_of_grown hgrown
      refine ⟨⟨hf.covers, fun hnil => ?_, ?_, ?_, ?_, hchain⟩,
        ⟨rfl, hgrown, fun _ _ => rfl, le_rfl⟩, fun W P D F ht hc => ht.reads hc hreadable⟩
      · obtain rfl : cs = [] := hnil
        exact hf.inside (List.forall₂_nil_right_iff.1 hgrown)
      · exact (congrArg (fun vs => (vs.map Var.id).Nodup) hvars).mpr hf.distinct
      · exact fun w hw => hf.below w (hvars ▸ hw)
      · exact fun w hw => hf.recorded w (hvars ▸ hw)
    · obtain ⟨-, rfl⟩ | ⟨w, cs, hw, -⟩ := hr
      · refine ⟨fine_narrowed n hf, still_narrowed mid n, fun W P D F ht hc => ?_⟩
        rcases hglobal with ⟨ty, rfl, hsome⟩ | ⟨ty, rfl⟩
        · exact hf.covers.functions name hsome
        · trivial
      · cases hw

/-! ## Statements -/

theorem coerced_grounded {P : Point} {F : InitFacts} {e e' : TExpr} (h : Coerced e e')
    (he : e.Grounded ids frees P F) : e'.Grounded ids frees P F := by
  cases h with
  | same => exact he
  | boxed => exact he
  | unboxed => exact he

theorem grounds_coerce (frees : List (String × Option Span)) {e : TExpr} {target : Ty} :
    Grounds ids (coerce e target) fun P F e' =>
      e.Grounded ids frees P F → e'.Grounded ids frees P F :=
  (quiet_coerce.grounds (q := Coerced e) fun _ _ _ h => h).weaken fun _ _ _ h => coerced_grounded h

theorem grounds_coerceSome (frees : List (String × Option Span)) {e : TExpr} {target : Ty} :
    Grounds ids (some <$> coerce e target) fun P F value => e.Grounded ids frees P F →
      ∀ e', value = some e' → e'.Grounded ids frees P F :=
  (grounds_coerce frees).map fun P F e' he hv w hw => by
    cases hw
    exact he hv

theorem Grounds.asCondition {x : Check TExpr}
    (h : Grounds ids x fun P F e => e.Grounded ids frees P F) :
    Grounds ids (asCondition x) fun P F e => e.Grounded ids frees P F :=
  h.bind fun _ => grounds_coerce frees

end Check

/-- Statements that only have expressions to check. -/
def TStmt.isPlain : TStmt → Bool
  | .ret _ _ | .breakLoop _ | .continueLoop _ | .free _ _ | .collect _ | .yieldNow _
  | .eval _ _ => true
  | .declare _ _ _ _ _ | .assign _ _ _ | .branch _ _ _ _ _ | .loop _ _ _ | .block _ _ => false

/-- Such a statement declares nothing and assigns nothing. -/
structure TStmt.Passive (s : TStmt) : Prop where
  declarations : stmtDeclarations s = []
  facts : ∀ P F, s.facts P F = F
  beside : ∀ (P : Point) rest, P.Fine → P.Beside (P.stmt rest s)

theorem TStmt.passive {s : TStmt} (h : s.isPlain = true) : s.Passive := by
  have hbeside (hs : ∀ (P : Point) rest, (P.stmt rest s).scopes = P.scopes) (P : Point)
      (rest : List TStmt) (hP : P.Fine) : P.Beside (P.stmt rest s) :=
    have he := Point.extends_stmt hP rest s
    ⟨hP.extend he, hs P rest, he.loops, he.captures⟩
  cases s with
  | free name span =>
    refine ⟨rfl, fun _ _ => rfl, hbeside fun P rest => ?_⟩
    change (P.free name span).scopes = P.scopes
    unfold Point.free
    split
    · split <;> rfl
    · rfl
  | ret | breakLoop | continueLoop | collect | yieldNow | eval =>
    exact ⟨rfl, fun _ _ => rfl, hbeside fun _ _ => rfl⟩
  | declare | assign | branch | loop | block => cases h

section

variable (ids : Ids) (frees : List (String × Option Span)) (p : Point → InitFacts → Prop)

/-- A statement is checked, and is in order wherever `p` holds. -/
def Steps (env env' : Env) (s : TStmt) : Prop :=
  env.Fine ids → ∀ rest, Advances ids env env' (stmtDeclarations s)
    (fun P D F => p P F → s.Grounded ids frees P D F) (fun P => P.stmt rest s) fun P F =>
      s.facts P F

/-- As `Steps`, with whether control can reach the point after the statement. -/
def Falling (env env' : Env) (r : TStmt × Bool) : Prop :=
  r.2 = r.1.falls ∧ Steps ids frees p env env' r.1

end

namespace Check

variable {ids : Ids} {frees : List (String × Option Span)} {p : Point → InitFacts → Prop}

theorem Takes.falling {x : Check TStmt} (hx : Takes x (Steps ids frees p)) {falls : Bool}
    (hf : ∀ env, (x env).1.falls = falls) :
    Takes (x >>= fun s => Pure.pure (s, falls)) (Falling ids frees p) :=
  fun env he => ⟨(hx env he).1, (hf env).symm, (hx env he).2⟩

/-- What is checked before a statement holds for it. -/
theorem steps_after {q : Point → InitFacts → Prop} {env mid env' : Env} {s : TStmt}
    (h : env.Fine ids → mid.Fine ids ∧ env.Still mid ∧
      ∀ W P D F, mid.Tracks W P D F → mid.captures ⊆ P.captures → q P F)
    (h' : Steps ids frees (fun P F => p P F ∧ q P F) mid env' s) :
    Steps ids frees p env env' s := by
  intro hf rest
  obtain ⟨hfm, hs, hq⟩ := h hf
  have h := h' hfm rest
  refine ⟨h.fine, hs.beyond.trans h.beyond, fun W P D F ht hc hl => ?_⟩
  have ht' := ht.still hs hf
  obtain ⟨hG, hW⟩ := h.tracks W P D F ht' hc hl
  exact ⟨fun hp => hG ⟨hp, hq W P D F ht' (List.Subset.trans h.beyond.captures hc)⟩, hW⟩

theorem Grounds.steps {q : Point → InitFacts → α → Prop} {x : Check α} {y : α → Check TStmt}
    (hx : Grounds ids x q) (hy : ∀ a, Takes (y a) (Steps ids frees fun P F => p P F ∧ q P F a)) :
    Takes (x >>= y) (Steps ids frees p) :=
  (Takes.bind hx hy).weaken fun _ _ _ ⟨_, _, hx, hy⟩ => steps_after hx hy

theorem Grounds.falling {q : Point → InitFacts → α → Prop} {x : Check α}
    {y : α → Check (TStmt × Bool)} (hx : Grounds ids x q)
    (hy : ∀ a, Takes (y a) (Falling ids frees fun P F => p P F ∧ q P F a)) :
    Takes (x >>= y) (Falling ids frees p) :=
  (Takes.bind hx hy).weaken fun _ _ _ ⟨_, _, hx, hy⟩ => ⟨hy.1, steps_after hx hy.2⟩

/-- A statement of which nothing is left to check. -/
theorem steps_plain {t : TStmt} (hs : t.isPlain = true)
    (h : ∀ P D F, p P F → t.Grounded ids frees P D F) :
    Takes (Pure.pure t) (Steps ids frees p) := by
  refine (Takes.pure t).weaken ?_
  rintro env env' s ⟨rfl, rfl⟩ hf rest
  have hpass := TStmt.passive hs
  rw [hpass.declarations]
  refine .of_still hf hf (.refl _) (fun _ P D F _ _ => h P D F) (fun P hP => ?_) hpass.facts
  have := hpass.beside P rest hP
  exact ⟨this.fine, this.scopes, this.loops⟩

theorem steps_checkDeclare (name : String) (mutable : Bool) (stated : Option Ty)
    (value : Option TExpr) (span : Option Span)
    (hp : ∀ P F, p P F → ∀ v, value = some v → v.Grounded ids frees P F) :
    Takes (checkDeclare name mutable stated value span) (Steps ids frees p) := by
  have hdeclare (ty : Ty) (value' : Option TExpr) {p' : Point → InitFacts → Prop}
      (hp' : ∀ P F, p' P F → ∀ v, value' = some v → v.Grounded ids frees P F) :
      Takes (declare name ty mutable .letBound
          (if value'.isSome || ty.isNullable || ty = .any then InitState.init else .uninit)
          span >>= fun _ => Pure.pure (.declare name mutable ty value' span))
        (Steps ids frees p') := by
    let d : Declaration := ⟨name, mutable, isDeferred ty value'⟩
    refine ((advances_declare ids name ty mutable .letBound _ span span (d := d) rfl).bind
      fun _ => .pure _).weaken ?_
    rintro env env' s ⟨-, mid, h, rfl, rfl⟩ hf rest
    obtain ⟨hfine, hbeyond, ht⟩ := h hf
    refine ⟨hfine, hbeyond, fun W P D F htracks hc hl => ?_⟩
    obtain ⟨-, W', hW, ht'⟩ := ht W P D F htracks hc hl
    refine ⟨fun hp => ?_, W', hW, ?_⟩
    · cases value' with
      | none => trivial
      | some v => exact hp' P F hp v rfl
    · rw [TStmt.facts, isDeferred]
      cases hd : (value'.isSome || ty.isNullable || decide (ty = .any)) <;>
        rw [hd] at ht' <;> exact ht'
  refine Grounds.steps (reports_declaredType name stated value span).quiet.passes fun ty => ?_
  cases value with
  | none => exact hdeclare ty none fun _ _ _ v hv => by cases hv
  | some v =>
    refine Grounds.steps (grounds_coerceSome frees) fun value' => ?_
    exact hdeclare ty value' fun P F h w hw => h.2 (hp P F h.1.1 v rfl) w hw

/-- A binding that may be freed is one of the function at hand. -/
theorem takes_checkFree (name : String) (span : Option Span) : Takes (checkFree name span)
    fun env env' _ => env' = env ∧ ∃ c outer v, env.contexts = c :: outer ∧
      c.find? name = some v := by
  refine ((takes_lookup name).bind (S := fun r env env' _ => env' = env ∧
    ∃ v, r = some v ∧ v.kind ≠ .capture) fun r => ?_).weaken ?_
  · split
    · split
      · exact .reported (Takes.pure ())
      · rename_i v hk
        exact (Takes.pure ()).weaken fun _ _ _ h => ⟨h.2, v, rfl, hk⟩
    · exact .reported (Takes.pure ())
  · rintro env env' _ ⟨r, mid, hr, rfl, v, rfl, hk⟩
    obtain ⟨hnone, -⟩ | ⟨w, cs, hw, hresolve, rfl⟩ := hr
    · cases hnone
    cases hw
    obtain ⟨rfl, c, outer, hc, hfind⟩ := resolveIn_local hresolve hk
    exact ⟨rfl, c, outer, v, hc, hfind⟩

theorem steps_checkFree {name : String} {span : Option Span} (hfree : (name, span) ∈ frees) :
    Takes (checkFree name span >>= fun _ => Pure.pure (TStmt.free name span))
      (Steps ids frees p) := by
  refine ((takes_checkFree name span).bind fun _ => .pure _).weaken ?_
  rintro env env' s ⟨-, mid, ⟨rfl, c, outer, v, hc, hfind⟩, rfl, rfl⟩ hf rest
  have hpass := TStmt.passive (s := .free name span) rfl
  refine .of_still hf hf (.refl _) (fun W P D F ht _ _ => ?_) (fun P hP => ?_) hpass.facts
  · obtain ⟨b, -, hb⟩ := ht.found hc hfind
    exact ⟨⟨b, hb⟩, hfree⟩
  · have := hpass.beside P rest hP
    exact ⟨this.fine, this.scopes, this.loops⟩

/-- A whole binding may be written when it is mutable, or where it has no value and no loop has
begun. -/
theorem takes_checkBindingWrite (name : String) (v : Var) (span : Option Span) :
    Takes (checkBindingWrite name v span) fun env env' _ => env' = env ∧ v.kind ≠ .capture ∧
      (v.mutable = true ∨ env.init.state v.id = .uninit ∧ v.loopDepth = env.depth) := by
  have hallowed (allowed : Bool) :
      Takes (if !allowed then report (.immutable name v.declaredAt) span
      else Pure.pure ()) fun env env' _ => env' = env ∧ allowed = true := by
    cases allowed with
    | false => exact .reported (x := Pure.pure ()) (Takes.pure ())
    | true => exact (Takes.pure ()).weaken fun _ _ _ h => ⟨h.2, rfl⟩
  unfold checkBindingWrite
  split
  · exact (hallowed false).weaken fun _ _ _ h => nomatch h.2
  · exact (hallowed false).weaken fun _ _ _ h => nomatch h.2
  · rename_i hk
    exact (hallowed v.mutable).weaken fun _ _ _ h => ⟨h.1, by rw [hk]; decide, .inl h.2⟩
  · rename_i hk
    refine ((takes_reads fun env => env.init.state v.id).bind fun state =>
      (takes_reads fun env => (env.contexts.head?.map FnContext.loopDepth).getD 0).bind fun depth =>
        hallowed (v.mutable || (state = .uninit && v.loopDepth = depth))).weaken ?_
    rintro env env' _ ⟨_, _, ⟨rfl, rfl⟩, _, _, ⟨rfl, rfl⟩, rfl, h⟩
    refine ⟨rfl, by rw [hk]; decide, ?_⟩
    have hdepth : (env'.contexts.head?.map FnContext.loopDepth).getD 0 = env'.depth := by
      unfold Env.depth
      cases env'.contexts.head? <;> rfl
    rw [hdepth] at h
    simpa using h

/-- A field may be written when its root is mutable and has a value. -/
theorem takes_checkFieldWrite (name : String) (v : Var) (fields : List String)
    (span : Option Span) :
    Takes (checkFieldWrite name v fields span) fun env env' r =>
      (∃ n, env' = { env with narrowed := n }) ∧
      v.kind ≠ .capture ∧ v.mutable = true ∧ env.init.state v.id = .init ∧
      r.1.length = fields.length := by
  let T (env env' : Env) (r : List Nat × Ty) : Prop := (∃ n, env' = { env with narrowed := n }) ∧
    env.init.state v.id = .init ∧ r.1.length = fields.length
  have hvalue : Takes (do
      if (← initState v.id) ≠ .init then reportNull (.fieldOfUninitialized name) span
      fieldPath v.ty span fields) T := by
    refine ((takes_reads fun env => env.init.state v.id).bind (S := fun state env env' r =>
      ¬state ≠ .init ∧ (∃ n, env' = { env with narrowed := n }) ∧
        r.1.length = fields.length) fun state => ?_).weaken ?_
    · exact .reportedIf (Quiet.takes (quiet_fieldPath span fields v.ty))
    · rintro env env' r ⟨_, _, ⟨rfl, rfl⟩, hinit, hn, hlen⟩
      exact ⟨hn, not_not.1 hinit, hlen⟩
  unfold checkFieldWrite
  refine Takes.weaken (Takes.reportedIf (T := T) hvalue) ?_
  rintro env env' r ⟨hroot, hn, hinit, hlen⟩
  simp only [Bool.not_eq_true', Bool.not_eq_false, Bool.and_eq_true, Bool.or_eq_true,
    decide_eq_true_eq] at hroot
  refine ⟨hn, ?_, hroot.2, hinit, hlen⟩
  rcases hroot.1 with hk | hk <;> rw [hk] <;> decide

/-- The write of an assignment to the binding `v`, with what it does to the environment. -/
def Written (v : Var) (path : List Nat) (env env' : Env) : Prop :=
  v.kind ≠ .capture ∧ ∃ n,
    (path = [] ∧ env' = { env with narrowed := n, init := (v.id, .init) :: env.init } ∧
      (v.mutable = true ∨ env.init.state v.id = .uninit ∧ v.loopDepth = env.depth)) ∨
    (path ≠ [] ∧ env' = { env with narrowed := n } ∧ v.mutable = true ∧ env.init.state v.id = .init)

/-- An accepted assignment is to a binding of the function at hand. -/
theorem takes_checkAssign (target : Expr) (value : TExpr) (span : Option Span) :
    Takes (checkAssign target value span) fun env env' s => ∃ name path value' c outer v,
      s = .assign ⟨name, path, target.span⟩ value' span ∧ Coerced value value' ∧
      env.contexts = c :: outer ∧ c.find? name = some v ∧ Written v path env env' := by
  unfold checkAssign
  split
  rename_i root fields _
  split
  · rename_i name rootSpan _
    refine ((takes_lookup name).bind (S := fun r env env' s => ∃ v path value', r = some v ∧
      s = TStmt.assign ⟨name, path, target.span⟩ value' span ∧ Coerced value value' ∧
      Written v path env env') fun r => ?_).weaken ?_
    · split
      · refine Takes.weaken (T := fun _ _ _ => False) ?_ fun _ _ _ h => h.elim
        refine (Takes.bind (takes_reads _) (S := fun _ _ _ _ => False) fun sig => ?_).weaken
          fun _ _ _ ⟨_, _, _, h⟩ => h
        split
        · exact .reported (Takes.pure _)
        · exact .reported (Takes.pure _)
      · rename_i v
        split
        · refine ((takes_checkBindingWrite name v span).bind fun _ =>
            (Quiet.takes quiet_coerce).bind
            fun value' => (takes_modify (fun e => { e with init := (v.id, .init) :: e.init })
              fun _ => rfl).bind fun _ => Takes.pure _).weaken ?_
          rintro env env' s ⟨_, _, ⟨rfl, hk, hw⟩, value', _, ⟨⟨n, rfl⟩, hv⟩, _, _, rfl, rfl, rfl⟩
          exact ⟨v, [], value', rfl, rfl, hv, hk, n, .inl ⟨rfl, rfl, hw⟩⟩
        · rename_i hfields
          refine ((takes_checkFieldWrite name v fields span).bind fun r =>
            (Quiet.takes quiet_coerce).bind fun value' => Takes.pure _).weaken ?_
          rintro env env' s ⟨r, _, ⟨⟨m, rfl⟩, hk, hm, hi, hlen⟩, value', _,
            ⟨⟨n, rfl⟩, hv⟩, rfl, rfl⟩
          refine ⟨v, r.1, value', rfl, rfl, hv, hk, n, .inr ⟨fun hnil => hfields ?_, rfl, hm, hi⟩⟩
          rw [hnil] at hlen
          exact List.isEmpty_iff_length_eq_zero.2 hlen.symm
    · rintro env env' s ⟨r, mid, hr, v, path, value', rfl, rfl, hv, hw⟩
      obtain ⟨hnone, -⟩ | ⟨w, cs, hw', hresolve, rfl⟩ := hr
      · cases hnone
      cases hw'
      obtain ⟨rfl, c, outer, hc, hfind⟩ := resolveIn_local hresolve hw.1
      exact ⟨name, path, value', c, outer, v, rfl, hv, hc, hfind, hw⟩
  · exact .reported (Takes.pure _)

theorem steps_checkAssign (target : Expr) (value : TExpr) (span : Option Span)
    (hp : ∀ P F, p P F → value.Grounded ids frees P F) :
    Takes (checkAssign target value span) fun env env' s =>
      s.falls = true ∧ Steps ids frees p env env' s := by
  refine (takes_checkAssign target value span).weaken ?_
  rintro env env' s ⟨name, path, value', c, outer, v, rfl, hv, hc, hfind, -, n, hw⟩
  refine ⟨rfl, fun hf rest => ?_⟩
  have hstate := hf.state ⟨v, hc ▸ List.mem_append_left _ (FnContext.mem_vars_of_find? hfind), rfl⟩
  have hground (P : Point) (D : List Declaration) (F : InitFacts)
      (hwrites : P.Writes D F ⟨name, path, target.span⟩) (hpF : p P F) :
      TStmt.Grounded ids frees P D F (.assign ⟨name, path, target.span⟩ value' span) :=
    ⟨coerced_grounded hv (hp P F hpF), hwrites⟩
  rcases hw with ⟨rfl, rfl, hw⟩ | ⟨hpath, rfl, hm, hi⟩
  · have h := encloses_markInit hf hc hfind target.span
    refine Encloses.advances ⟨h.fine.of_same rfl rfl rfl rfl, (h.narrowed n).beyond, rfl,
      fun W P D F ht hcap hl => ?_⟩
    refine ⟨hground P D F ?_, (h.narrowed n).tracks W P D F ht hcap hl |>.2⟩
    obtain ⟨b, hb, hr⟩ := ht.found hc hfind
    obtain ⟨hdepth, ⟨d, hd, hmut⟩, hfact⟩ := ht.alike _ hb
    refine ⟨b, d, hr, hd, ?_⟩
    rw [if_pos rfl, hmut]
    refine hw.imp_right fun ⟨hu, hl⟩ => ⟨?_, ?_⟩
    · rw [← hfact, hstate, hu]
    · rw [← hdepth, ← ht.depth]
      exact hl
  · refine .of_still hf (fine_narrowed n hf) (still_narrowed env n)
      (fun W P D F ht _ => hground P D F ?_) (fun P hP => ⟨hP, rfl, rfl⟩) fun P F => ?_
    · obtain ⟨b, hb, hr⟩ := ht.found hc hfind
      obtain ⟨-, ⟨d, hd, hmut⟩, hfact⟩ := ht.alike _ hb
      refine ⟨b, d, hr, hd, ?_⟩
      rw [if_neg hpath]
      exact ⟨hmut.trans hm, by rw [← hfact]; exact hstate.trans (congrArg some hi)⟩
    · obtain ⟨i, more, rfl⟩ := List.exists_cons_of_ne_nil hpath
      rfl

end Check

end ScopedScript
