import ScopedScript.Proofs.Typing.Tracking

/-!
# Checking with other identities

The checker gives each declaration an identity, one after the other through the whole program. What
it says about a body depends neither on the first of them nor on what it knows of those that were
given before: from environments that differ in both, it gives the same trees, reports the same
errors, and leaves environments that differ in the same way.
-/

namespace ScopedScript

/-! ## Environments that differ in their identities -/

/-- The same names, whatever is hidden. -/
structure Globals.Agree (g g' : Globals) : Prop where
  structs : ∀ name, g'.structs.lookup name = g.structs.lookup name
  functions : ∀ name, g'.functions.lookup name = g.functions.lookup name
  natives : ∀ name, g'.natives.lookup name = g.natives.lookup name

theorem Globals.Agree.refl (g : Globals) : g.Agree g := ⟨fun _ => rfl, fun _ => rfl, fun _ => rfl⟩

theorem List.lookup_map_snd (f : α → β) (name : String) (xs : List (String × α)) :
    (xs.map (Prod.map id f)).lookup name = (xs.lookup name).map f := by
  induction xs with
  | nil => rfl
  | cons x rest ih =>
    obtain ⟨k, a⟩ := x
    rw [List.map_cons, Prod.map_apply, List.lookup_cons, List.lookup_cons, ih]
    change (match name == k with | true => _ | false => _) = _
    cases name == k <;> rfl

/-- The binding with identities counted from `n`. -/
def Var.moved (n : Nat) (v : Var) : Var := { v with id := n + v.id }

namespace FnContext

def moved (n : Nat) (c : FnContext) : FnContext :=
  { c with scopes := c.scopes.map (List.map (Prod.map id (Var.moved n))) }

variable {n : Nat}

theorem find?_moved (c : FnContext) (name : String) :
    (c.moved n).find? name = (c.find? name).map (Var.moved n) := by
  rw [find?, find?, moved, List.findSome?_map, List.map_findSome?]
  congr 1
  exact funext fun scope => List.lookup_map_snd _ _ _

theorem capture_moved (c : FnContext) (name : String) :
    (c.moved n).capture name = (c.capture name).moved n := by
  change (if c.captures.contains name then _ else _) = _
  rw [capture]
  split <;> rfl

theorem declare_moved (c : FnContext) (name : String) (v : Var) :
    (c.moved n).declare name (v.moved n) = (c.declare name v).moved n := by
  obtain ⟨ret, isAsync, scopes, depth, captures⟩ := c
  cases scopes <;> rfl

/-- A declaration adds its own binding at most. -/
theorem mem_vars_declare {c : FnContext} {name : String} {v w : Var}
    (h : w ∈ (c.declare name v).vars) : w = v ∨ w ∈ c.vars := by
  obtain ⟨ret, isAsync, scopes, depth, captures⟩ := c
  cases scopes with
  | nil => exact .inr h
  | cons scope rest => exact List.mem_cons.1 h

end FnContext

theorem resolveIn_moved (n : Nat) (name : String) (cs : List FnContext) :
    resolveIn name (cs.map (FnContext.moved n)) =
      (resolveIn name cs).map (Prod.map (Var.moved n) (List.map (FnContext.moved n))) := by
  induction cs with
  | nil => rfl
  | cons c outer ih =>
    rw [List.map_cons, resolveIn, resolveIn, FnContext.find?_moved]
    cases c.find? name with
    | some v => rfl
    | none =>
      rw [Option.map_none, ih]
      cases resolveIn name outer with
      | none => rfl
      | some r => exact congrArg (fun c => some (_, c :: _)) (FnContext.capture_moved c name)

/-- The second facts are the first ones with identities counted from `n`, and there is none from `k`
on. -/
def FactsMoved (n k : Nat) (f f' : List (Nat × α)) : Prop :=
  (∀ id, f'.lookup (n + id) = f.lookup id) ∧ ∀ id, k ≤ id → f.lookup id = none

namespace FactsMoved

variable {n k m id : Nat} {f f' : List (Nat × α)}

theorem mono (h : FactsMoved n k f f') (hm : k ≤ m) : FactsMoved n m f f' :=
  ⟨h.1, fun id hid => h.2 id (hm.trans hid)⟩

theorem add (h : FactsMoved n k f f') (hid : id < m) (hm : k ≤ m) (a : α) :
    FactsMoved n m ((id, a) :: f) ((n + id, a) :: f') := by
  refine ⟨fun i => ?_, fun i hi => ?_⟩
  · rw [List.lookup_cons, List.lookup_cons, h.1, show (n + i == n + id) = (i == id) by simp]
  · rw [List.lookup_cons, h.2 i (hm.trans hi), beq_false_of_ne (by omega)]

theorem join {a a' b b' : InitFacts} (ha : FactsMoved n k a a') (hb : FactsMoved n m b b') :
    FactsMoved n k (a.join b) (a'.join b') := by
  refine ⟨fun i => ?_, fun i hi => ?_⟩
  · rw [InitFacts.lookup_join, InitFacts.lookup_join, ha.1, hb.1]
  · rw [InitFacts.lookup_join, ha.2 i hi]
    rfl

end FactsMoved

/-- The second environment is the first one with identities counted from `n`, after the errors of
`log`. The first one has the globals `g` and `d` functions under check and gives out the identity
`k` next. -/
structure Env.Moved (g : Globals) (n : Nat) (log : Array TypeError) (k d : Nat)
    (e e' : Env) : Prop where
  globals : e.globals = g
  agree : g.Agree e'.globals
  contexts : e'.contexts = e.contexts.map (FnContext.moved n)
  depth : e.contexts.length = d
  issued : ∀ v ∈ varsOf e.contexts, v.id < k
  errors : e'.errors = log ++ e.errors
  init : FactsMoved n k e.init e'.init
  narrowed : FactsMoved n k e.narrowed e'.narrowed
  next : e.nextId = k
  next' : e'.nextId = n + k

namespace Check

variable {g : Globals} {n k m d d' d'' : Nat} {log : Array TypeError}

/-- Started in environments that differ in their identities, the computations give related values
and leave such environments. The relation may tell from which identity on there is none in the
values. -/
def Aligned (g : Globals) (n : Nat) (log : Array TypeError) (k d d' : Nat) (R : Nat → α → β → Prop)
    (x : Check α) (y : Check β) : Prop :=
  ∀ e e' : Env, e.Moved g n log k d e' →
    ∃ m, k ≤ m ∧ R m (x e).1 (y e').1 ∧ (x e).2.Moved g n log m d' (y e').2

/-- A computation that does the same with any identities. -/
def Anywhere (g : Globals) (n : Nat) (log : Array TypeError) (x : Check α) : Prop :=
  ∀ k d, Aligned g n log k d d (fun _ => Eq) x x

section

variable {R : Nat → α → α' → Prop} {S : Nat → β → β' → Prop} {x : Check α} {x' : Check α'}

theorem Aligned.pure {a : α} {b : α'} (h : R k a b) :
    Aligned g n log k d d R (Pure.pure a : Check α) (Pure.pure b : Check α') :=
  fun _ _ he => ⟨k, Nat.le_refl k, h, he⟩

theorem Aligned.bind {f : α → Check β} {f' : α' → Check β'} (hx : Aligned g n log k d d' R x x')
    (hf : ∀ m a b, k ≤ m → R m a b → Aligned g n log m d' d'' S (f a) (f' b)) :
    Aligned g n log k d d'' S (x >>= f) (x' >>= f') := by
  intro e e' he
  obtain ⟨m, hm, hr, he⟩ := hx e e' he
  obtain ⟨l, hl, hs, he⟩ := hf m _ _ hm hr _ _ he
  exact ⟨l, hm.trans hl, hs, he⟩

theorem Anywhere.pure (a : α) : Anywhere g n log (Pure.pure a : Check α) := fun _ _ => .pure rfl

/-- A step that does the same with any identities. -/
theorem Anywhere.before {x : Check α} {f : α → Check β} {f' : α → Check β'}
    (hx : Anywhere g n log x) (hf : ∀ m a, k ≤ m → Aligned g n log m d d' S (f a) (f' a)) :
    Aligned g n log k d d' S (x >>= f) (x >>= f') :=
  (hx k d).bind fun m a b hm hab => by
    subst hab
    exact hf m a hm

theorem Anywhere.bind {x : Check α} {f : α → Check β} (hx : Anywhere g n log x)
    (hf : ∀ a, Anywhere g n log (f a)) : Anywhere g n log (x >>= f) :=
  fun _ _ => hx.before fun m a _ => hf a m _

theorem Anywhere.map {x : Check α} {f : α → β} (hx : Anywhere g n log x) :
    Anywhere g n log (f <$> x) :=
  fun k d e e' he => by
    obtain ⟨m, hm, hr, he⟩ := hx k d e e' he
    exact ⟨m, hm, congrArg f hr, he⟩

end

/-! ## Reading -/

section

/-- What is read alike in environments that differ in their identities. -/
theorem anywhere_reads {r : Env → α} (h : ∀ e e' k d, e.Moved g n log k d e' → r e = r e') :
    Anywhere g n log (do return r (← get)) :=
  fun k d e e' he => ⟨k, Nat.le_refl k, h e e' k d he, he⟩

theorem anywhere_structSig? (name : String) : Anywhere g n log (structSig? name) :=
  anywhere_reads fun e e' k d he => by rw [he.globals, he.agree.structs]

theorem anywhere_functionSig? (name : String) : Anywhere g n log (functionSig? name) :=
  anywhere_reads fun e e' k d he => by rw [he.globals, he.agree.functions]

theorem anywhere_nativeSig? (name : String) : Anywhere g n log (nativeSig? name) :=
  anywhere_reads fun e e' k d he => by rw [he.globals, he.agree.natives]

/-- What is read of the innermost function. -/
theorem anywhere_ofContext {r : FnContext → α} (h : ∀ c, r (c.moved n) = r c) (a : α) :
    Anywhere g n log (do return ((← get).contexts.head?.map r).getD a) :=
  anywhere_reads fun e e' k d he => by
    rw [he.contexts, List.head?_map, Option.map_map]
    congr 2
    exact funext fun c => (h c).symm

theorem anywhere_inAsync : Anywhere g n log inAsync := anywhere_ofContext (fun _ => rfl) false

theorem anywhere_returnType : Anywhere g n log returnType :=
  anywhere_ofContext (fun _ => rfl) Ty.void

theorem anywhere_loopDepth : Anywhere g n log loopDepth := anywhere_ofContext (fun _ => rfl) 0

/-- The same binding, with an identity that has been given out. -/
def SameVar (n m : Nat) (v v' : Option Var) : Prop := v' = v.map (Var.moved n) ∧ ∀ w ∈ v, w.id < m

theorem aligned_peek (name : String) :
    Aligned g n log k d d (SameVar n) (peek name) (peek name) := by
  intro e e' he
  refine ⟨k, Nat.le_refl k, ⟨?_, fun w hw => ?_⟩, he⟩
  · change e'.contexts.findSome? (fun c => c.find? name) =
      (e.contexts.findSome? fun c => c.find? name).map _
    rw [he.contexts, List.findSome?_map, List.map_findSome?]
    congr 1
    exact funext fun c => FnContext.find?_moved c name
  · obtain ⟨c, hc, hf⟩ := List.exists_of_findSome?_eq_some hw
    exact he.issued w (List.mem_flatMap.2 ⟨c, hc, FnContext.mem_vars_of_find? hf⟩)

theorem aligned_lookup (name : String) :
    Aligned g n log k d d (SameVar n) (lookup name) (lookup name) := by
  intro e e' he
  have hmissed {env : Env} (h : resolveIn name env.contexts = none) :
      lookup name env = (none, env) := by
    rw [lookup, modifyGet_eq, h]
  have hfound {env : Env} {v : Var} {contexts : List FnContext}
      (h : resolveIn name env.contexts = some (v, contexts)) :
      lookup name env = (some v, { env with contexts }) := by
    rw [lookup, modifyGet_eq, h]
  have hmoved := resolveIn_moved n name e.contexts
  rw [← he.contexts] at hmoved
  cases hr : resolveIn name e.contexts with
  | none =>
    rw [hr] at hmoved
    rw [hmissed hr, hmissed hmoved]
    exact ⟨k, Nat.le_refl k, ⟨rfl, nofun⟩, he⟩
  | some r =>
    obtain ⟨v, cs⟩ := r
    rw [hr] at hmoved
    rw [hfound hr, hfound hmoved]
    obtain ⟨hgrown, ⟨w, hw, hid⟩, -⟩ := resolveIn_some [] hr
    refine ⟨k, Nat.le_refl k, ⟨rfl, fun u hu => ?_⟩,
      { he with contexts := rfl, depth := ?_, issued := ?_ }⟩
    · cases hu
      exact hid ▸ he.issued w hw
    · exact hgrown.length_eq.symm.trans he.depth
    · change ∀ v ∈ varsOf cs, v.id < k
      rw [vars_of_grown hgrown]
      exact he.issued

/-- What is known of an identity. -/
theorem aligned_initState (id : Nat) :
    Aligned g n log k d d (fun _ => Eq) (initState id) (initState (n + id)) := by
  intro e e' he
  refine ⟨k, Nat.le_refl k, ?_, he⟩
  change e.init.state id = e'.init.state (n + id)
  rw [InitFacts.state, InitFacts.state, he.init.1]

theorem aligned_narrowedType? (id : Nat) :
    Aligned g n log k d d (fun _ => Eq) (narrowedType? id) (narrowedType? (n + id)) := by
  intro e e' he
  refine ⟨k, Nat.le_refl k, ?_, he⟩
  change e.narrowed.lookup id = e'.narrowed.lookup (n + id)
  rw [he.narrowed.1]

theorem aligned_initFacts : Aligned g n log k d d (FactsMoved n) initFacts initFacts :=
  fun _ _ he => ⟨k, Nat.le_refl k, he.init, he⟩

theorem aligned_narrowings : Aligned g n log k d d (FactsMoved n) narrowings narrowings :=
  fun _ _ he => ⟨k, Nat.le_refl k, he.narrowed, he⟩

end

/-! ## Writing -/

theorem anywhere_report (cause : TypeCause) (span : Option Span) :
    Anywhere g n log (report cause span) := by
  intro k d e e' he
  refine ⟨k, Nat.le_refl k, rfl, { he with errors := ?_ }⟩
  change e'.errors.push _ = log ++ e.errors.push _
  rw [he.errors, Array.append_push]

/-- A change of the innermost function. -/
theorem anywhere_modifyContext {f : FnContext → FnContext} (hf : ∀ c, f (c.moved n) = (f c).moved n)
    (hv : ∀ c, (f c).vars ⊆ c.vars) : Anywhere g n log (modifyContext f) := by
  intro k d e e' he
  refine ⟨k, Nat.le_refl k, rfl, ?_⟩
  obtain ⟨globals, contexts, errors, init, narrowed, nextId⟩ := e
  obtain ⟨globals', contexts', errors', init', narrowed', nextId'⟩ := e'
  obtain rfl : contexts' = contexts.map (FnContext.moved n) := he.contexts
  cases contexts with
  | nil => exact he
  | cons c outer =>
    refine { he with contexts := ?_, depth := he.depth, issued := fun v hv' => he.issued v ?_ }
    · exact congrArg (· :: _) (hf c)
    · rcases List.mem_append.1 hv' with h | h
      · exact List.mem_append_left _ (hv c h)
      · exact List.mem_append_right _ h

theorem anywhere_enterScope : Anywhere g n log enterScope :=
  anywhere_modifyContext (fun _ => rfl) fun _ _ h => h

theorem anywhere_exitScope : Anywhere g n log exitScope :=
  anywhere_modifyContext (fun c => by simp [FnContext.moved]) fun c v h => by
    obtain ⟨ret, isAsync, scopes, depth, captures⟩ := c
    cases scopes with
    | nil => exact h
    | cons scope rest =>
      rw [FnContext.vars, List.flatten_cons, List.map_append]
      exact List.mem_append_right _ h

theorem anywhere_enterLoop : Anywhere g n log enterLoop :=
  anywhere_modifyContext (fun _ => rfl) fun _ _ h => h

theorem anywhere_exitLoop : Anywhere g n log exitLoop :=
  anywhere_modifyContext (fun _ => rfl) fun _ _ h => h

theorem aligned_enterFunction (ret : Ty) (isAsync : Bool) :
    Aligned g n log k d (d + 1) (fun _ => Eq) (enterFunction ret isAsync)
      (enterFunction ret isAsync) := by
  intro e e' he
  refine ⟨k, Nat.le_refl k, rfl, { he with contexts := ?_, depth := ?_, issued := he.issued }⟩
  · change _ :: e'.contexts = _
    rw [he.contexts]
    rfl
  · exact congrArg (· + 1) he.depth

theorem aligned_exitFunction :
    Aligned g n log k (d + 1) d (fun _ => Eq) exitFunction exitFunction := by
  intro e e' he
  obtain ⟨globals, contexts, errors, init, narrowed, nextId⟩ := e
  obtain ⟨globals', contexts', errors', init', narrowed', nextId'⟩ := e'
  obtain rfl : contexts' = contexts.map (FnContext.moved n) := he.contexts
  cases contexts with
  | nil => cases he.depth
  | cons c outer =>
    exact ⟨k, Nat.le_refl k, rfl, { he with
      contexts := rfl
      depth := Nat.succ.inj he.depth
      issued := fun v hv => he.issued v (List.mem_append_right _ hv) }⟩

/-- A declaration is given the next identity. -/
theorem anywhere_declare (name : String) (ty : Ty) (mutable : Bool) (kind : VarKind)
    (state : InitState) (declaredAt : Option Span) :
    Anywhere g n log (declare name ty mutable kind state declaredAt) := by
  refine fun k d => anywhere_loopDepth.before fun m depth hm e e' he => ?_
  obtain ⟨globals, contexts, errors, init, narrowed, nextId⟩ := e
  obtain ⟨globals', contexts', errors', init', narrowed', nextId'⟩ := e'
  obtain rfl : contexts' = contexts.map (FnContext.moved n) := he.contexts
  obtain rfl : nextId = m := he.next
  obtain rfl : nextId' = n + nextId := he.next'
  refine ⟨nextId + 1, Nat.le_succ _, rfl, ?_⟩
  have hinit := he.init.add (Nat.lt_succ_self _) (Nat.le_succ _) state
  have hnarrowed := he.narrowed.mono (Nat.le_succ _)
  cases contexts with
  | nil =>
    exact { he with
      init := hinit, narrowed := hnarrowed, issued := nofun, next := rfl, next' := rfl }
  | cons c outer =>
    refine { he with
      contexts := congrArg (· :: _)
        (FnContext.declare_moved c name ⟨nextId, ty, mutable, kind, depth, declaredAt⟩)
      init := hinit
      narrowed := hnarrowed
      issued := fun v hv => ?_
      next := rfl
      next' := rfl }
    rcases List.mem_append.1 hv with h | h
    · rcases FnContext.mem_vars_declare h with rfl | h
      · exact Nat.lt_succ_self _
      · exact Nat.lt_succ_of_lt (he.issued v (List.mem_append_left _ h))
    · exact Nat.lt_succ_of_lt (he.issued v (List.mem_append_right _ h))

theorem aligned_markInit {id : Nat} (h : id < k) :
    Aligned g n log k d d (fun _ => Eq) (markInit id) (markInit (n + id)) :=
  fun _ _ he => ⟨k, Nat.le_refl k, rfl, { he with init := he.init.add h (Nat.le_refl k) .init }⟩

theorem aligned_narrow {id : Nat} (h : id < k) (ty : Ty) :
    Aligned g n log k d d (fun _ => Eq) (narrow id ty) (narrow (n + id) ty) :=
  fun _ _ he =>
    ⟨k, Nat.le_refl k, rfl, { he with narrowed := he.narrowed.add h (Nat.le_refl k) ty }⟩

theorem aligned_setInitFacts {f f' : InitFacts} (h : FactsMoved n k f f') :
    Aligned g n log k d d (fun _ => Eq) (setInitFacts f) (setInitFacts f') :=
  fun _ _ he => ⟨k, Nat.le_refl k, rfl, { he with init := h }⟩

theorem aligned_setNarrowings {f f' : List (Nat × Ty)} (h : FactsMoved n k f f') :
    Aligned g n log k d d (fun _ => Eq) (setNarrowings f) (setNarrowings f') :=
  fun _ _ he => ⟨k, Nat.le_refl k, rfl, { he with narrowed := h }⟩

theorem aligned_mergePaths {fs fs' : List InitFacts} (h : List.Forall₂ (FactsMoved n k) fs fs') :
    Aligned g n log k d d (fun _ => Eq) (mergePaths fs) (mergePaths fs') := by
  cases h with
  | nil => exact .pure rfl
  | @cons f f' fs fs' hf hfs =>
    refine aligned_setInitFacts ?_
    induction hfs generalizing f f' with
    | nil => exact hf
    | cons hg _ ih => exact ih (hf.join hg)

/-! ## Steps that concern no binding -/

theorem Aligned.ite {R : Nat → α → β → Prop} {c : Prop} [Decidable c] {x y : Check α}
    {x' y' : Check β} (hx : Aligned g n log k d d' R x x') (hy : Aligned g n log k d d' R y y') :
    Aligned g n log k d d' R (if c then x else y) (if c then x' else y') := by
  split
  · exact hx
  · exact hy

/-- What follows an error that may have been reported. -/
theorem Anywhere.reportedIf {c : Prop} [Decidable c] {x : Unit → Check α} {cause : TypeCause}
    {span : Option Span} (hx : ∀ a, Anywhere g n log (x a)) :
    Anywhere g n log (if c then report cause span >>= x else x ()) := by
  split
  · exact (anywhere_report _ _).bind hx
  · exact hx ()

theorem Anywhere.reported {x : Check α} {cause : TypeCause} {span : Option Span}
    (hx : Anywhere g n log x) :
    Anywhere g n log (report cause span >>= fun _ => x) := (anywhere_report _ _).bind fun _ => hx

theorem anywhere_mapM {f : α → Check β} (hf : ∀ a, Anywhere g n log (f a)) (as : List α) :
    Anywhere g n log (as.mapM f) := by
  induction as with
  | nil => exact .pure _
  | cons a rest ih =>
    rw [List.mapM_cons]
    exact (hf a).bind fun _ => ih.bind fun _ => .pure _

theorem anywhere_checkArity (callee : String) (params : List Ty) (found : Nat)
    (span : Option Span) : Anywhere g n log (checkArity callee params found span) := by
  unfold checkArity
  split
  · exact .pure _
  · exact anywhere_report _ _

theorem anywhere_asyncSig? (name : String) : Anywhere g n log (asyncSig? name) := by
  refine fun k d => (aligned_peek name).bind fun m v v' _ hv => ?_
  obtain ⟨rfl, -⟩ := hv
  cases v with
  | some v => exact .pure rfl
  | none =>
    refine (anywhere_functionSig? name).before fun m sig _ => ?_
    cases sig <;> exact .pure rfl

theorem anywhere_namedCallee? (callee : Expr) : Anywhere g n log (namedCallee? callee) := by
  unfold namedCallee?
  split
  · rename_i name _
    refine fun k d => (aligned_peek name).bind fun m v v' _ hv => ?_
    obtain ⟨rfl, -⟩ := hv
    cases v with
    | some v => exact .pure rfl
    | none =>
      refine (anywhere_functionSig? name).before fun m sig _ => ?_
      cases sig with
      | some sig => exact .pure rfl
      | none =>
        refine (anywhere_nativeSig? name).before fun m sig _ => ?_
        cases sig <;> exact .pure rfl
  · exact .pure _

theorem anywhere_arithType (op : ArithOp) (l r : Ty) (span : Option Span) :
    Anywhere g n log (arithType op l r span) := by
  have hreport {x : Check Unit} (hx : Anywhere g n log x) :
      Anywhere g n log (x >>= fun _ => Pure.pure Ty.any) := hx.bind fun _ => .pure _
  unfold arithType
  split
  · exact .pure _
  · exact .pure _
  · exact .pure _
  · split
    · exact .pure _
    · split
      · exact .pure _
      · split
        · exact .pure _
        · split
          · exact hreport (anywhere_report _ _)
          · split <;> exact hreport (anywhere_report _ _)

theorem anywhere_binaryType (op : BinaryOp) (l r : Ty) (span : Option Span) :
    Anywhere g n log (binaryType op l r span) := by
  cases op with
  | eq => exact .reportedIf fun _ => .pure _
  | ne => exact .reportedIf fun _ => .pure _
  | order o =>
    simp only [binaryType]
    split
    · exact .reported (.pure _)
    · exact .reportedIf fun _ => .pure _
  | arith a =>
    simp only [binaryType]
    split
    · exact .reported (.pure _)
    · exact anywhere_arithType a l r span

theorem anywhere_negationType (t : Ty) (span : Option Span) :
    Anywhere g n log (negationType t span) := by
  unfold negationType
  split
  any_goals exact .pure _
  all_goals exact .reported (.pure _)

theorem anywhere_fieldType (object : Ty) (field : String) (span : Option Span) :
    Anywhere g n log (fieldType object field span) := by
  unfold fieldType
  split
  · refine (anywhere_structSig? _).bind fun sig => ?_
    split
    · exact .pure _
    · exact .reported (.pure _)
  · exact .pure _
  all_goals exact .reported (.pure _)

theorem anywhere_awaitedType (t : Ty) (span : Option Span) :
    Anywhere g n log (awaitedType t span) := by
  unfold awaitedType
  split
  · exact .pure _
  all_goals exact .reported (.pure _)

theorem anywhere_coerce (e : TExpr) (target : Ty) : Anywhere g n log (coerce e target) := by
  unfold coerce
  split
  · exact .pure _
  · split
    · exact .reported (.pure _)
    · exact .pure _
    · exact .pure _
    · split
      · exact .reported (.pure _)
      · exact .pure _

theorem anywhere_castTo (value : TExpr) (target : Ty) (span : Option Span) :
    Anywhere g n log (castTo value target span) := by
  unfold castTo
  split
  · exact .reported (.pure _)
  · split
    · exact .reported (.pure _)
    · exact .reportedIf fun _ => .pure _

mutual

theorem anywhere_checkTypeNames (span : Option Span) : (t : Ty) →
    Anywhere g n log (checkTypeNames span t)
  | .struct name => by
    unfold checkTypeNames
    refine (anywhere_structSig? name).bind fun sig => ?_
    split
    · exact anywhere_report _ _
    · exact .pure _
  | .function params ret =>
    (anywhere_checkTypeNamesList span params).bind fun _ => anywhere_checkTypeNames span ret
  | .nullable inner => anywhere_checkTypeNames span inner
  | .task inner => anywhere_checkTypeNames span inner
  | .int | .float | .bool | .string | .void | .any | .null => .pure _

theorem anywhere_checkTypeNamesList (span : Option Span) : (ts : List Ty) →
    Anywhere g n log (checkTypeNamesList span ts)
  | [] => .pure _
  | t :: rest => (anywhere_checkTypeNames span t).bind fun _ =>
    anywhere_checkTypeNamesList span rest

end

theorem anywhere_resolveType (t : TypeExpr) (span : Option Span) :
    Anywhere g n log (resolveType t span) :=
  (anywhere_checkTypeNames span _).bind fun _ => .pure _

theorem anywhere_resolveReturn (t : Option TypeExpr) (span : Option Span) :
    Anywhere g n log (resolveReturn t span) := by
  cases t with
  | none => exact .pure _
  | some t => exact anywhere_resolveType t span

theorem anywhere_requireLoop (keyword : String) (span : Option Span) :
    Anywhere g n log (requireLoop keyword span) := by
  refine anywhere_loopDepth.bind fun depth => ?_
  split
  · exact anywhere_report _ _
  · exact .pure _

theorem anywhere_declaredType (name : String) (stated : Option Ty) (value : Option TExpr)
    (span : Option Span) : Anywhere g n log (declaredType name stated value span) := by
  unfold declaredType
  split
  · exact .pure _
  · split
    · exact .reported (.pure _)
    · exact .reported (.pure _)
    · exact .pure _
  · exact .reported (.pure _)

theorem anywhere_fieldPath (span : Option Span) : (fields : List String) → (ty : Ty) →
    Anywhere g n log (fieldPath ty span fields)
  | [], _ => .pure _
  | field :: rest, ty => by
    unfold fieldPath
    split
    · refine (anywhere_structSig? _).bind fun sig => ?_
      split
      · exact (anywhere_fieldPath span rest _).bind fun _ => .pure _
      · exact .reported (.pure _)
    all_goals exact .reported (.pure _)

theorem anywhere_initSlot (struct : String) (sig : StructSig) (field : String) (value : TExpr)
    (span : Option Span) (slots : List (Option TExpr)) :
    Anywhere g n log (initSlot struct sig field value span slots) := by
  unfold initSlot
  split
  · split
    · exact .reported (.pure _)
    · exact (anywhere_coerce _ _).bind fun _ => .pure _
  · exact .reported (.pure _)

theorem anywhere_fillSlots (struct : String) (span : Option Span) : (fields : List (String × Ty)) →
    (slots : List (Option TExpr)) → Anywhere g n log (fillSlots struct span fields slots)
  | (_, _) :: fields, some _ :: slots =>
    (anywhere_fillSlots struct span fields slots).bind fun _ => .pure _
  | (_, _) :: fields, none :: slots =>
    .reported ((anywhere_fillSlots struct span fields slots).bind fun _ => .pure _)
  | [], _ => .pure _
  | _ :: _, [] => .pure _

theorem anywhere_checkDeclare (name : String) (mutable : Bool) (stated : Option Ty)
    (value : Option TExpr) (span : Option Span) :
    Anywhere g n log (checkDeclare name mutable stated value span) := by
  refine (anywhere_declaredType _ _ _ _).bind fun ty => ?_
  have hrest (value : Option TExpr) (state : InitState) : Anywhere g n log
      (declare name ty mutable .letBound state span >>= fun _ =>
        Pure.pure (TStmt.declare name mutable ty value span)) :=
    (anywhere_declare _ _ _ _ _ _).bind fun _ => .pure _
  cases value with
  | none => exact hrest _ _
  | some v => exact (anywhere_coerce v ty).map.bind fun _ => hrest _ _

theorem anywhere_checkReturned (value : Option TExpr) (ret : Ty) (span : Option Span) :
    Anywhere g n log (checkReturned value ret span) := by
  cases value with
  | none => exact .reportedIf fun _ => .pure _
  | some v =>
    unfold checkReturned
    dsimp only
    split
    · exact .reported (.pure _)
    · exact (anywhere_coerce _ _).map

theorem Anywhere.asCondition {x : Check TExpr} (hx : Anywhere g n log x) :
    Anywhere g n log (asCondition x) :=
  hx.bind fun e => anywhere_coerce e .bool

/-- What is learnt about null in a block is about identities that have been given out before. -/
theorem Anywhere.inBlock {x : Check α} (hx : Anywhere g n log x) :
    Anywhere g n log (inBlock x) := by
  refine fun k d => anywhere_enterScope.before fun m _ _ =>
    aligned_narrowings.bind fun m mark mark' _ hmark =>
    hx.before fun l a hl => ?_
  exact (aligned_setNarrowings (hmark.mono hl)).bind fun _ _ _ _ _ =>
    anywhere_exitScope.before fun _ _ _ => .pure rfl

/-! ## Steps that concern a binding -/

theorem anywhere_checkName (name : String) (span : Option Span) :
    Anywhere g n log (checkName name span) := by
  refine fun k d => (aligned_lookup name).bind fun m v v' _ hv => ?_
  obtain ⟨rfl, -⟩ := hv
  cases v with
  | none =>
    refine (anywhere_functionSig? name).before fun m sig _ => ?_
    cases sig with
    | some sig => exact Anywhere.reportedIf (fun _ => .pure _) m d
    | none =>
      refine (anywhere_nativeSig? name).before fun m sig _ => ?_
      cases sig with
      | some sig => exact Anywhere.pure _ m d
      | none => exact Anywhere.reported (.pure _) m d
  | some v =>
    have hrest (l : Nat) : Aligned g n log l d d (fun _ => Eq)
        (narrowedType? v.id >>= fun ty => Pure.pure (TExpr.mk (.binding name) (ty.getD v.ty) span))
        (narrowedType? (n + v.id) >>= fun ty =>
          Pure.pure (TExpr.mk (.binding name) (ty.getD v.ty) span)) :=
      (aligned_narrowedType? v.id).bind fun _ ty ty' _ hty => hty ▸ .pure rfl
    refine (aligned_initState v.id).bind fun m state state' _ hstate => ?_
    subst hstate
    cases state with
    | init => exact hrest m
    | maybe => exact (anywhere_report _ _).before fun l _ _ => hrest l
    | uninit => exact (anywhere_report _ _).before fun l _ _ => hrest l

def NullTest.moved (n : Nat) (t : NullTest) : NullTest := { t with id := n + t.id }

/-- The same test of a binding, whose identity has been given out. -/
def SameTest (n m : Nat) (t t' : Option NullTest) : Prop :=
  t' = t.map (NullTest.moved n) ∧ ∀ u ∈ t, u.id < m

theorem SameTest.mono {t t' : Option NullTest} (h : SameTest n k t t') (hm : k ≤ m) :
    SameTest n m t t' :=
  ⟨h.1, fun u hu => (h.2 u hu).trans_le hm⟩

theorem aligned_nullTest? (condition : Expr) :
    Aligned g n log k d d (SameTest n) (nullTest? condition) (nullTest? condition) := by
  have hnone {m : Nat} : Aligned g n log m d d (SameTest n) (Pure.pure none) (Pure.pure none) :=
    .pure ⟨rfl, nofun⟩
  unfold nullTest?
  split
  · split
    · split
      · rename_i name _
        refine (aligned_peek name).bind fun m v v' _ hv => ?_
        obtain ⟨rfl, hid⟩ := hv
        cases v with
        | none => exact hnone
        | some v =>
          refine .ite hnone ?_
          rw [show (v.moved n).ty = v.ty from rfl]
          split
          · refine .pure ⟨rfl, fun u hu => ?_⟩
            cases hu
            exact hid v rfl
          · exact hnone
      · exact hnone
    · exact hnone
  · exact hnone

theorem aligned_narrowWhere {t t' : Option NullTest} (h : SameTest n k t t') (isNe : Bool) :
    Aligned g n log k d d (fun _ => Eq) (narrowWhere t isNe) (narrowWhere t' isNe) := by
  obtain ⟨rfl, hid⟩ := h
  cases t with
  | none => exact .pure rfl
  | some t =>
    exact .ite (aligned_narrow (hid t rfl) t.inner) (.pure rfl)

theorem anywhere_checkFree (name : String) (span : Option Span) :
    Anywhere g n log (checkFree name span) := by
  refine fun k d => (aligned_lookup name).bind fun m v v' _ hv => ?_
  obtain ⟨rfl, -⟩ := hv
  cases v with
  | none => exact anywhere_report _ _ m d
  | some v =>
    exact .ite (anywhere_report _ _ m d) (.pure rfl)

theorem aligned_checkBindingWrite (name : String) (v : Var) (span : Option Span) :
    Aligned g n log k d d (fun _ => Eq) (checkBindingWrite name v span)
      (checkBindingWrite name (v.moved n) span) := by
  have hrest (m : Nat) (allowed : Bool) : Aligned g n log m d d (fun _ => Eq)
      (if !allowed then report (.immutable name v.declaredAt) span else Pure.pure ())
      (if !allowed then report (.immutable name v.declaredAt) span else Pure.pure ()) := by
    split
    · exact anywhere_report _ _ m d
    · exact .pure rfl
  obtain ⟨id, ty, mutable, kind, depth, declaredAt⟩ := v
  cases kind with
  | capture | receiver => exact hrest k false
  | param => exact hrest k mutable
  | letBound =>
    refine (aligned_initState id).bind fun m state state' _ hstate => ?_
    subst hstate
    exact anywhere_loopDepth.before fun l here _ => hrest l _

theorem aligned_checkFieldWrite (name : String) (v : Var) (fields : List String)
    (span : Option Span) : Aligned g n log k d d (fun _ => Eq) (checkFieldWrite name v fields span)
      (checkFieldWrite name (v.moved n) fields span) := by
  obtain ⟨id, ty, mutable, kind, depth, declaredAt⟩ := v
  have hstate (m : Nat) : Aligned g n log m d d (fun _ => Eq)
      (initState id >>= fun state => if state ≠ .init then
        reportNull (.fieldOfUninitialized name) span >>= fun _ => fieldPath ty span fields
        else fieldPath ty span fields)
      (initState (n + id) >>= fun state => if state ≠ .init then
        reportNull (.fieldOfUninitialized name) span >>= fun _ => fieldPath ty span fields
        else fieldPath ty span fields) := by
    refine (aligned_initState id).bind fun l state state' _ hs => ?_
    subst hs
    exact Anywhere.reportedIf (fun _ => anywhere_fieldPath span fields ty) l d
  exact .ite ((anywhere_report _ _).before fun l _ _ => hstate l) (hstate k)

theorem anywhere_checkAssign (target : Expr) (value : TExpr) (span : Option Span) :
    Anywhere g n log (checkAssign target value span) := by
  unfold checkAssign
  split
  split
  · rename_i name rootSpan _
    refine fun k d => (aligned_lookup name).bind fun m v v' _ hv => ?_
    obtain ⟨rfl, hid⟩ := hv
    cases v with
    | none =>
      refine (anywhere_functionSig? name).before fun l sig _ => ?_
      dsimp only [Option.map_none]
      split
      · exact Anywhere.reported (.pure _) l d
      · exact Anywhere.reported (.pure _) l d
    | some v =>
      dsimp only [Option.map_some]
      split
      · refine (aligned_checkBindingWrite _ v span).bind fun l _ _ hl _ =>
          (anywhere_coerce value v.ty).before fun j w hj => ?_
        have hv : v.id < j := (hid v rfl).trans_le (hl.trans hj)
        exact (aligned_markInit hv).bind fun _ _ _ _ _ => .pure rfl
      · refine (aligned_checkFieldWrite _ v _ span).bind fun l r r' _ hr => ?_
        subst hr
        exact (anywhere_coerce value r.2).before fun _ _ _ => .pure rfl
  · exact .reported (.pure _)

/-! ## Expressions and statements -/

/-- The facts at the ends of paths. -/
abbrev PathsMoved (n m : Nat) (fs fs' : List InitFacts) : Prop :=
  List.Forall₂ (FactsMoved n m) fs fs'

theorem PathsMoved.mono {fs fs' : List InitFacts} (h : PathsMoved n k fs fs') (hm : k ≤ m) :
    PathsMoved n m fs fs' := List.Forall₂.imp (fun _ _ h => h.mono hm) h

theorem PathsMoved.isEmpty_eq {fs fs' : List InitFacts} (h : PathsMoved n k fs fs') :
    fs'.isEmpty = fs.isEmpty := by
  cases h <;> rfl

theorem aligned_pathEnd (falls : Bool) :
    Aligned g n log k d d (PathsMoved n) (pathEnd falls) (pathEnd falls) := by
  refine aligned_initFacts.bind fun m f f' _ hf => ?_
  cases falls with
  | true => exact .pure (.cons hf .nil)
  | false => exact .pure .nil

theorem anywhere_declareEach (params : List TParam) :
    Anywhere g n log (forIn params PUnit.unit fun p (_ : PUnit) => do
      declare p.name p.ty p.mutable .param .init p.span
      Pure.pure (ForInStep.yield PUnit.unit)) := by
  induction params with
  | nil => exact .pure _
  | cons p rest ih =>
    rw [List.forIn_cons]
    exact ((anywhere_declare _ _ _ _ _ _).bind fun _ => .pure _).bind fun r => by
      cases r with
      | done b => exact .pure _
      | yield b => exact ih

/-- A function is left with what was there when it was entered. -/
theorem Aligned.leave {x : List String → α} : Aligned g n log k (d + 1) d (fun _ => Eq)
    (exitFunction >>= fun captures => Pure.pure (x captures))
    (exitFunction >>= fun captures => Pure.pure (x captures)) :=
  aligned_exitFunction.bind fun _ _ _ _ h => h ▸ .pure rfl

mutual

theorem anywhere_checkExpr : (e : Expr) → Anywhere g n log (checkExpr e)
  | .int _ _ | .float _ _ | .bool _ _ | .string _ _ | .null _ => .pure _
  | .name name span => anywhere_checkName name span
  | .binary op left right span =>
    (anywhere_checkExpr left).bind fun l => (anywhere_checkExpr right).bind fun r =>
      (anywhere_binaryType op l.ty r.ty span).bind fun _ => .pure _
  | .unary .not operand _ =>
    (anywhere_checkExpr operand).bind fun e => (anywhere_coerce e .bool).bind fun _ => .pure _
  | .unary .neg operand span =>
    (anywhere_checkExpr operand).bind fun e =>
      (anywhere_negationType e.ty span).bind fun _ => .pure _
  | .logical op left right _ =>
    (anywhere_checkExpr left).asCondition.bind fun _ =>
      (anywhere_checkExpr right).asCondition.bind fun _ => .pure _
  | .call callee args span => by
    rw [checkExpr]
    refine (anywhere_namedCallee? callee).bind fun c => ?_
    cases c with
    | some c =>
      obtain ⟨target, name, sig⟩ := c
      exact .reportedIf fun _ => (anywhere_checkArity _ _ _ _).bind fun _ =>
        (anywhere_checkArgs sig.params args).bind fun _ => .pure _
    | none =>
      refine (anywhere_checkExpr callee).bind fun c => ?_
      cases c.ty with
      | function params ret =>
        exact (anywhere_checkArity _ _ _ _).bind fun _ =>
          (anywhere_checkArgs params args).bind fun _ => .pure _
      | any => exact (anywhere_checkBoxed args).bind fun _ => .pure _
      | _ => exact .reported (.pure _)
  | .methodCall object method args span => by
    rw [checkExpr]
    refine (anywhere_checkExpr object).bind fun r => ?_
    cases r.ty with
    | struct struct =>
      refine (anywhere_structSig? struct).bind fun sig => ?_
      cases sig.bind fun sig => sig.methods.lookup method with
      | none => exact .reported (.pure _)
      | some sig =>
        exact (anywhere_checkArity _ _ _ _).bind fun _ =>
          (anywhere_checkArgs sig.params args).bind fun _ => .pure _
    | any => exact (anywhere_checkBoxed args).bind fun _ => .pure _
    | _ => exact .reported (.pure _)
  | .field object field span =>
    (anywhere_checkExpr object).bind fun e =>
      (anywhere_fieldType e.ty field span).bind fun _ => .pure _
  | .structInit name fields span => by
    rw [checkExpr]
    refine (anywhere_structSig? name).bind fun sig => ?_
    cases sig with
    | none => exact (anywhere_checkValues fields).bind fun _ => .reported (.pure _)
    | some sig =>
      exact (anywhere_checkInits name sig span _ fields).bind fun slots =>
        (anywhere_fillSlots name span sig.fields slots).bind fun _ => .pure _
  | .lambda params ret body span => by
    rw [checkExpr]
    refine (anywhere_resolveReturn ret span).bind fun ret => ?_
    refine (anywhere_mapM (fun p => (anywhere_resolveType _ _).bind fun _ => .pure _) params).bind
      fun params => ?_
    intro k d
    refine (aligned_enterFunction ret false).bind fun _ _ _ _ _ =>
      (anywhere_declareEach params).before fun _ _ _ =>
      (anywhere_checkStmts body).before fun _ r _ => ?_
    dsimp only
    split
    · exact (anywhere_report _ _).before fun _ _ _ => .leave
    · exact .leave
  | .spawn call span => by
    rw [checkExpr]
    refine (anywhere_checkStart span call).bind fun s => ?_
    cases s with
    | some s => exact .pure _
    | none => exact (anywhere_checkExpr call).bind fun _ => .reported (.pure _)
  | .await task span => by
    rw [checkExpr]
    refine anywhere_inAsync.bind fun _ => .reportedIf fun _ =>
      (anywhere_checkStart span task).bind fun s => ?_
    have hrest (t : TExpr) : Anywhere g n log (awaitedType t.ty span >>= fun ty =>
        Pure.pure (TExpr.mk (.await t) ty span)) :=
          (anywhere_awaitedType t.ty span).bind fun _ => .pure _
    cases s with
    | some s => exact hrest _
    | none => exact (anywhere_checkExpr task).bind hrest
  | .cast value type span =>
    (anywhere_checkExpr value).bind fun v => (anywhere_resolveType type span).bind fun target =>
      anywhere_castTo v target span
  | .format parts span => (anywhere_checkParts span parts).bind fun _ => .pure _

theorem anywhere_checkStart (span : Option Span) : (e : Expr) → Anywhere g n log (checkStart span e)
  | .call (.name name _) args _ => by
    rw [checkStart]
    refine (anywhere_asyncSig? name).bind fun sig => ?_
    cases sig with
    | none => exact .pure _
    | some sig =>
      exact (anywhere_checkArity _ _ _ _).bind fun _ =>
        (anywhere_checkArgs sig.params args).bind fun _ => .pure _
  | .int _ _ | .float _ _ | .bool _ _ | .string _ _ | .null _ | .name _ _ | .binary _ _ _ _
  | .unary _ _ _ | .logical _ _ _ _ | .methodCall _ _ _ _ | .field _ _ _ | .structInit _ _ _
  | .lambda _ _ _ _ | .spawn _ _ | .await _ _ | .cast _ _ _ | .format _ _
  | .call (.int _ _) _ _ | .call (.float _ _) _ _ | .call (.bool _ _) _ _ | .call (.string _ _) _ _
  | .call (.null _) _ _ | .call (.binary _ _ _ _) _ _ | .call (.unary _ _ _) _ _
  | .call (.logical _ _ _ _) _ _ | .call (.call _ _ _) _ _ | .call (.methodCall _ _ _ _) _ _
  | .call (.field _ _ _) _ _ | .call (.structInit _ _ _) _ _ | .call (.lambda _ _ _ _) _ _
  | .call (.spawn _ _) _ _ | .call (.await _ _) _ _ | .call (.cast _ _ _) _ _
  | .call (.format _ _) _ _ => .pure none

theorem anywhere_checkArgs : (params : List Ty) → (args : List Expr) →
    Anywhere g n log (checkArgs params args)
  | _, [] => .pure _
  | params, arg :: rest => by
    rw [checkArgs]
    refine (anywhere_checkExpr arg).bind fun e => ?_
    cases params.head? with
    | some ty =>
      exact (anywhere_coerce e ty).bind fun _ =>
        (anywhere_checkArgs params.tail rest).bind fun _ => .pure _
    | none => exact (anywhere_checkArgs params.tail rest).bind fun _ => .pure _

theorem anywhere_checkBoxed : (args : List Expr) → Anywhere g n log (checkBoxed args)
  | [] => .pure _
  | arg :: rest =>
    (anywhere_checkExpr arg).bind fun e => (anywhere_coerce e .any).bind fun _ =>
      (anywhere_checkBoxed rest).bind fun _ => .pure _

theorem anywhere_checkParts (span : Option Span) :
    (parts : List Expr) → Anywhere g n log (checkParts span parts)
  | [] => .pure _
  | part :: rest =>
    (anywhere_checkExpr part).bind fun _ => .reportedIf fun _ =>
      (anywhere_checkParts span rest).bind fun _ => .pure _

theorem anywhere_checkValues : (fields : List (String × Expr)) →
    Anywhere g n log (checkValues fields)
  | [] => .pure _
  | (_, value) :: rest => (anywhere_checkExpr value).bind fun _ => anywhere_checkValues rest

theorem anywhere_checkInits (struct : String) (sig : StructSig) (span : Option Span)
    (slots : List (Option TExpr)) : (fields : List (String × Expr)) →
    Anywhere g n log (checkInits struct sig span slots fields)
  | [] => .pure _
  | (field, value) :: rest =>
    (anywhere_checkExpr value).bind fun v =>
      (anywhere_initSlot struct sig field v _ slots).bind fun slots' =>
      anywhere_checkInits struct sig span slots' rest

theorem anywhere_checkStmt : (s : Stmt) → Anywhere g n log (checkStmt s)
  | .declare name mutable none none span =>
    (Anywhere.pure none).bind fun stated =>
      (anywhere_checkDeclare name mutable stated none span).bind fun _ => .pure _
  | .declare name mutable (some t) none span =>
    (anywhere_resolveType t span).map.bind fun ty =>
      (anywhere_checkDeclare name mutable ty none span).bind fun _ => .pure _
  | .declare name mutable none (some value) span =>
    (Anywhere.pure none).bind fun stated => (anywhere_checkExpr value).bind fun v =>
      (anywhere_checkDeclare name mutable stated (some v) span).bind fun _ => .pure _
  | .declare name mutable (some t) (some value) span =>
    (anywhere_resolveType t span).map.bind fun ty => (anywhere_checkExpr value).bind fun v =>
      (anywhere_checkDeclare name mutable ty (some v) span).bind fun _ => .pure _
  | .assign target value span =>
    (anywhere_checkExpr value).bind fun v =>
      (anywhere_checkAssign target v span).bind fun _ => .pure _
  | .branch condition thenBlock elifs elseBlock span => by
    rw [checkStmt]
    refine fun k d => (aligned_nullTest? condition).bind fun k₁ test test' _ htest => ?_
    refine (anywhere_checkExpr condition).asCondition.before fun k₂ c h₂ => ?_
    refine aligned_initFacts.bind fun k₃ before before' h₃ hbefore => ?_
    refine aligned_narrowings.bind fun k₄ mark mark' h₄ hmark => ?_
    refine (aligned_narrowWhere (htest.mono (h₂.trans (h₃.trans h₄))) true).bind
      fun k₅ _ _ h₅ _ => ?_
    refine (anywhere_checkStmts thenBlock).inBlock.before fun k₆ t h₆ => ?_
    refine (aligned_setNarrowings (hmark.mono (h₅.trans h₆))).bind fun k₇ _ _ h₇ _ => ?_
    refine (aligned_pathEnd t.2).bind fun k₈ thenPaths thenPaths' h₈ hthen => ?_
    have h₄₈ : k₄ ≤ k₈ := h₅.trans (h₆.trans (h₇.trans h₈))
    refine (aligned_setInitFacts (hbefore.mono (h₄.trans h₄₈))).bind fun k₉ _ _ h₉ _ => ?_
    have h₂₉ : k₁ ≤ k₉ := h₂.trans (h₃.trans (h₄.trans (h₄₈.trans h₉)))
    refine (aligned_narrowWhere (htest.mono h₂₉) false).bind fun k₁₀ _ _ h₁₀ _ => ?_
    refine (aligned_checkElifs elifs).bind fun k₁₁ m m' h₁₁ hm => ?_
    refine (anywhere_checkElse elseBlock).before fun k₁₂ l h₁₂ => ?_
    refine (aligned_pathEnd l.2).bind fun k₁₃ elsePaths elsePaths' h₁₃ helse => ?_
    have h₉₁₃ : k₉ ≤ k₁₃ := h₁₀.trans (h₁₁.trans (h₁₂.trans h₁₃))
    refine (aligned_setNarrowings (hmark.mono (h₄₈.trans (h₉.trans h₉₁₃)))).bind
      fun k₁₄ _ _ h₁₄ _ => ?_
    have hpaths : PathsMoved n k₁₄ (thenPaths ++ m.2 ++ elsePaths)
        (thenPaths' ++ m'.2 ++ elsePaths') :=
      List.rel_append (List.rel_append (hthen.mono (h₉.trans (h₉₁₃.trans h₁₄)))
        (hm.2.mono (h₁₂.trans (h₁₃.trans h₁₄)))) (helse.mono h₁₄)
    refine (aligned_mergePaths hpaths).bind fun k₁₅ _ _ h₁₅ _ => ?_
    rw [hm.1, hpaths.isEmpty_eq]
    obtain ⟨rfl, hid⟩ := htest
    cases test with
    | none => exact .pure rfl
    | some u =>
      have hu : u.id < k₁₅ := (hid u rfl).trans_le (h₂₉.trans (h₉₁₃.trans (h₁₄.trans h₁₅)))
      exact .ite ((aligned_narrow hu u.inner).bind fun _ _ _ _ _ => .pure rfl) (.pure rfl)
  | .loop condition body span =>
    fun k d => (anywhere_checkExpr condition).asCondition.before fun k₁ c _ =>
      aligned_initFacts.bind fun k₂ before before' _ hbefore =>
        anywhere_enterLoop.before fun k₃ _ h₃ =>
          (anywhere_checkStmts body).inBlock.before fun k₄ r h₄ =>
          anywhere_exitLoop.before fun k₅ _ h₅ =>
            aligned_initFacts.bind fun k₆ after after' h₆ hafter =>
            (aligned_mergePaths (.cons (hbefore.mono (h₃.trans (h₄.trans (h₅.trans h₆))))
              (.cons hafter .nil))).bind fun _ _ _ _ _ => .pure rfl
  | .block body span => (anywhere_checkStmts body).inBlock.bind fun _ => .pure _
  | .ret none span => anywhere_returnType.bind fun ret =>
    (anywhere_checkReturned none ret span).bind fun _ => .pure _
  | .ret (some value) span =>
    anywhere_returnType.bind fun ret => (anywhere_checkExpr value).bind fun v =>
      (anywhere_checkReturned (some v) ret span).bind fun _ => .pure _
  | .breakLoop span => (anywhere_requireLoop "break" span).bind fun _ => .pure _
  | .continueLoop span => (anywhere_requireLoop "continue" span).bind fun _ => .pure _
  | .free name span => (anywhere_checkFree name span).bind fun _ => .pure _
  | .collect span => .pure _
  | .yieldNow span => anywhere_inAsync.bind fun _ => .reportedIf fun _ => .pure _
  | .eval expr span => (anywhere_checkExpr expr).bind fun _ => .pure _

theorem anywhere_checkStmts : (ss : List Stmt) → Anywhere g n log (checkStmts ss)
  | [] => .pure _
  | s :: rest =>
    (anywhere_checkStmt s).bind fun _ => (anywhere_checkStmts rest).bind fun _ => .pure _

theorem anywhere_checkElse : (elseBlock : Option (List Stmt)) →
    Anywhere g n log (checkElse elseBlock)
  | none => .pure _
  | some body => (anywhere_checkStmts body).inBlock.bind fun _ => .pure _

theorem aligned_checkElifs : (elifs : List (Expr × List Stmt)) → {k d : Nat} →
    Aligned g n log k d d (fun m r r' => r'.1 = r.1 ∧ PathsMoved n m r.2 r'.2) (checkElifs elifs)
      (checkElifs elifs)
  | [], _, _ => .pure ⟨rfl, .nil⟩
  | (condition, body) :: rest, k, d => by
    rw [checkElifs]
    refine (aligned_nullTest? condition).bind fun k₁ test test' _ htest => ?_
    refine (anywhere_checkExpr condition).asCondition.before fun k₂ c h₂ => ?_
    refine aligned_initFacts.bind fun k₃ before before' h₃ hbefore => ?_
    refine aligned_narrowings.bind fun k₄ mark mark' h₄ hmark => ?_
    refine (aligned_narrowWhere (htest.mono (h₂.trans (h₃.trans h₄))) true).bind
      fun k₅ _ _ h₅ _ => ?_
    refine (anywhere_checkStmts body).inBlock.before fun k₆ t h₆ => ?_
    refine (aligned_setNarrowings (hmark.mono (h₅.trans h₆))).bind fun k₇ _ _ h₇ _ => ?_
    refine (aligned_pathEnd t.2).bind fun k₈ paths paths' h₈ hpaths => ?_
    have h₄₈ : k₄ ≤ k₈ := h₅.trans (h₆.trans (h₇.trans h₈))
    refine (aligned_setInitFacts (hbefore.mono (h₄.trans h₄₈))).bind fun k₉ _ _ h₉ _ => ?_
    refine (aligned_checkElifs rest).bind fun k₁₀ m m' h₁₀ hm => .pure ⟨?_, ?_⟩
    · rw [hm.1]
    · exact List.rel_append (hpaths.mono (h₉.trans h₁₀)) hm.2

end

/-! ## Functions -/

theorem anywhere_declaredSignature (d : FunctionDecl) (struct : Option String) :
    Anywhere g n log (declaredSignature d struct) := by
  cases struct with
  | none => exact (anywhere_functionSig? _).bind fun _ => .pure _
  | some name => exact (anywhere_structSig? name).bind fun _ => .pure _

theorem anywhere_declareSelf (d : FunctionDecl) (struct : Option String) :
    Anywhere g n log (declareSelf d struct) := by
  cases struct with
  | none => exact .pure _
  | some name => exact (anywhere_declare _ _ _ _ _ _).bind fun _ => .pure _

theorem anywhere_declareParams (span : Option Span) (before : List TParam)
    (params : List (Param × Ty)) : Anywhere g n log (declareParams span before params) := by
  induction params generalizing before with
  | nil => exact .pure _
  | cons p rest ih => exact .reportedIf fun _ => (anywhere_declare _ _ _ _ _ _).bind fun _ => ih _

theorem anywhere_checkFunction (struct : Option String) (d : FunctionDecl) :
    Anywhere g n log (checkFunction struct d) := by
  intro k depth
  refine (anywhere_declaredSignature d struct).before fun _ sig _ =>
    (aligned_enterFunction sig.ret d.isAsync).bind fun _ _ _ _ _ =>
      (anywhere_declareSelf d struct).before fun _ receiver _ =>
        (anywhere_declareParams d.span receiver _).before fun _ params _ =>
          (anywhere_checkStmts d.body).before fun _ r _ => ?_
  exact .ite ((anywhere_report _ _).before fun _ _ _ => .leave) .leave

theorem anywhere_checkItem (item : Item) : Anywhere g n log (checkItem item) := by
  cases item with
  | function d => exact (anywhere_checkFunction none d).bind fun _ => .pure _
  | struct d => exact anywhere_mapM (anywhere_checkFunction (some d.name)) d.methods

end Check

end ScopedScript
