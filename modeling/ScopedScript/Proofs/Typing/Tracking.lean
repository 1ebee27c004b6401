import ScopedScript.Proofs.Typing.Facts
import ScopedScript.Proofs.Typing.Quiet

/-!
# The environment of the checker and the points of a function

The checker knows bindings by identities that it gives out, the compiler by slots. While a function
is checked, its scopes are those of a point of it, link by link, and the facts about identities are
those about slots. What is learnt of an outer function while a lambda in it is checked is only which
of its bindings are captured.
-/

namespace ScopedScript

/-- The program has the names that the checker knows. -/
structure Ids.Covers (ids : Ids) (g : Globals) : Prop where
  structs : ∀ name, (g.structs.lookup name).isSome → (ids.structs.lookup name).isSome
  functions : ∀ name, (g.functions.lookup name).isSome → (ids.functions.lookup name).isSome
  methods : ∀ struct sig method, g.structs.lookup struct = some sig →
    (sig.methods.lookup method).isSome → (ids.functions.lookup (methodSymbol struct method)).isSome

/-! ## The functions being checked -/

/-- The bindings in scope, in this function alone. -/
def FnContext.vars (c : FnContext) : List Var := c.scopes.flatten.map Prod.snd

def varsOf (cs : List FnContext) : List Var := cs.flatMap FnContext.vars

/-- A name that a lambda in the innermost of these functions may capture: of a binding with a value,
or of a capture. -/
def Readable (init : InitFacts) (name : String) : List FnContext → Prop
  | [] => False
  | c :: _ =>
    match c.find? name with
    | some v => init.lookup v.id = some .init
    | none => name ∈ c.captures

/-- What a function captures may be captured from the one around it. -/
def Chained (init : InitFacts) : List FnContext → Prop
  | [] => True
  | c :: outer => (∀ name ∈ c.captures, Readable init name outer) ∧ Chained init outer

/-- The second context is the first one, with more captures. -/
structure Grown (c c' : FnContext) : Prop where
  scopes : c'.scopes = c.scopes
  depth : c'.loopDepth = c.loopDepth
  captures : c.captures ⊆ c'.captures

theorem Grown.refl (c : FnContext) : Grown c c := ⟨rfl, rfl, List.Subset.refl _⟩

theorem Grown.trans {a b c : FnContext} (h : Grown a b) (h' : Grown b c) : Grown a c :=
  ⟨h'.scopes.trans h.scopes, h'.depth.trans h.depth, List.Subset.trans h.captures h'.captures⟩

theorem grown_refl (cs : List FnContext) : cs.Forall₂ Grown cs := by
  induction cs with
  | nil => exact .nil
  | cons c rest ih => exact .cons (.refl c) ih

theorem grown_trans {as bs cs : List FnContext} (h : as.Forall₂ Grown bs)
    (h' : bs.Forall₂ Grown cs) : as.Forall₂ Grown cs := by
  induction h generalizing cs with
  | nil => exact h'
  | cons h _ ih =>
    cases h' with
    | cons h' hs => exact .cons (h.trans h') (ih hs)

theorem vars_of_grown {cs cs' : List FnContext} (h : cs.Forall₂ Grown cs') :
    varsOf cs' = varsOf cs := by
  induction h with
  | nil => rfl
  | cons h _ ih =>
    simp only [varsOf, List.flatMap_cons] at ih ⊢
    rw [ih, FnContext.vars, h.scopes]
    rfl

theorem grown_tail {cs cs' : List FnContext} (h : cs.Forall₂ Grown cs') :
    cs.tail.Forall₂ Grown cs'.tail := by
  cases h with
  | nil => exact .nil
  | cons _ h => exact h

namespace FnContext

variable {c : FnContext} {name : String} {v : Var}

theorem mem_vars_of_find? (h : c.find? name = some v) : v ∈ c.vars := by
  obtain ⟨scope, hs, hv⟩ := List.exists_of_findSome?_eq_some h
  have : (name, v) ∈ scope := by
    clear h hs
    induction scope with
    | nil => cases hv
    | cons e rest ih =>
      obtain ⟨n, w⟩ := e
      rw [List.lookup_cons] at hv
      split at hv
      · rename_i hn
        cases hv
        rw [beq_iff_eq.1 hn]
        exact List.mem_cons_self
      · exact List.mem_cons_of_mem _ (ih hv)
  exact List.mem_map_of_mem (f := Prod.snd) (List.mem_flatten.2 ⟨scope, hs, this⟩)

theorem grown_capture (c : FnContext) (name : String) : Grown c (c.capture name) := by
  unfold capture
  split
  · exact .refl c
  · exact ⟨rfl, rfl, List.subset_append_left _ _⟩

theorem mem_capture (c : FnContext) (name : String) : name ∈ (c.capture name).captures := by
  unfold capture
  split
  · rename_i h
    exact List.contains_iff_mem.1 h
  · exact List.mem_append_right _ List.mem_cons_self

theorem mem_of_mem_capture {n : String} (h : n ∈ (c.capture name).captures) :
    n ∈ c.captures ∨ n = name := by
  unfold capture at h
  split at h
  · exact .inl h
  · exact (List.mem_append.1 h).imp_right List.mem_singleton.1

end FnContext

section

variable {init init' : InitFacts} {cs cs' : List FnContext} {name : String}

/-- What may be captured depends on the facts about the bindings of these functions. -/
theorem Readable.congr (h : Readable init name cs)
    (hi : ∀ v ∈ varsOf cs, init'.lookup v.id = init.lookup v.id) : Readable init' name cs := by
  cases cs with
  | nil => exact h
  | cons c outer =>
    cases hf : c.find? name with
    | none =>
      simp only [Readable, hf] at h ⊢
      exact h
    | some v =>
      simp only [Readable, hf] at h ⊢
      exact (hi v (List.mem_append_left _ (FnContext.mem_vars_of_find? hf))).trans h

theorem Readable.grown (h : Readable init name cs) (hg : cs.Forall₂ Grown cs') :
    Readable init name cs' := by
  cases hg with
  | nil => exact h
  | @cons c c' _ _ hc _ =>
    have hf : c'.find? name = c.find? name := by
      unfold FnContext.find?
      rw [hc.scopes]
    cases hn : c.find? name with
    | none =>
      simp only [Readable, hf, hn] at h ⊢
      exact hc.captures h
    | some v =>
      simp only [Readable, hf, hn] at h ⊢
      exact h

theorem Chained.congr (h : Chained init cs)
    (hi : ∀ v ∈ varsOf cs.tail, init'.lookup v.id = init.lookup v.id) : Chained init' cs := by
  induction cs with
  | nil => trivial
  | cons c outer ih =>
    refine ⟨fun n hn => (h.1 n hn).congr hi, ih h.2 fun v hv => hi v ?_⟩
    cases outer with
    | nil => exact hv
    | cons d more => exact List.mem_append_right _ hv

/-- Where a name is found, and what is captured on the way there. -/
theorem resolveIn_some {v : Var} (init : InitFacts) (h : resolveIn name cs = some (v, cs')) :
    cs.Forall₂ Grown cs' ∧ (∃ w ∈ varsOf cs, w.id = v.id) ∧ (Chained init cs →
      init.lookup v.id = some .init → Chained init cs' ∧ Readable init name cs') := by
  induction cs generalizing v cs' with
  | nil => cases h
  | cons c outer ih =>
    rw [resolveIn] at h
    split at h
    · rename_i w hw
      cases h
      refine ⟨grown_refl _, ⟨v, List.mem_append_left _ (FnContext.mem_vars_of_find? hw), rfl⟩,
        fun hc hi => ⟨hc, ?_⟩⟩
      simp only [Readable, hw]
      exact hi
    · rename_i hnone
      obtain ⟨⟨w, outer'⟩, ho, he⟩ := Option.map_eq_some_iff.1 h
      cases he
      obtain ⟨hg, ⟨u, hu, hid⟩, hread⟩ := ih ho
      have hcap := FnContext.grown_capture c name
      refine ⟨.cons hcap hg, ⟨u, List.mem_append_right _ hu, hid⟩, fun hc hi => ?_⟩
      obtain ⟨hchain, hr⟩ := hread hc.2 hi
      refine ⟨⟨fun n hn => ?_, hchain⟩, ?_⟩
      · rcases FnContext.mem_of_mem_capture hn with hn | rfl
        · exact (hc.1 n hn).grown hg
        · exact hr
      · have hf : (c.capture name).find? name = none := by
          unfold FnContext.find? at hnone ⊢
          rw [hcap.scopes]
          exact hnone
        simp only [Readable, hf]
        exact FnContext.mem_capture c name

end

/-! ## The environment -/

namespace Env

/-! Of the innermost function. -/

def scopes (env : Env) : List (List (String × Var)) := env.contexts.head?.elim [] FnContext.scopes

def depth (env : Env) : Nat := env.contexts.head?.elim 0 FnContext.loopDepth

def captures (env : Env) : List String := env.contexts.head?.elim [] FnContext.captures

/-- The bindings have identities of their own, about which something is known, and what is captured
may be. -/
structure Fine (ids : Ids) (env : Env) : Prop where
  covers : ids.Covers env.globals
  inside : env.contexts ≠ []
  distinct : ((varsOf env.contexts).map Var.id).Nodup
  below : ∀ v ∈ varsOf env.contexts, v.id < env.nextId
  recorded : ∀ v ∈ varsOf env.contexts, (env.init.lookup v.id).isSome
  chained : Chained env.init env.contexts

/-- What an expression leaves behind. -/
structure Still (env env' : Env) : Prop where
  globals : env'.globals = env.globals
  contexts : env.contexts.Forall₂ Grown env'.contexts
  init : ∀ v ∈ varsOf env.contexts, env'.init.lookup v.id = env.init.lookup v.id
  nextId : env.nextId ≤ env'.nextId

/-- What a statement leaves behind of the scopes and functions around its block. -/
structure Beyond (env env' : Env) : Prop where
  globals : env'.globals = env.globals
  contexts : env.contexts.tail.Forall₂ Grown env'.contexts.tail
  init : ∀ v ∈ varsOf env.contexts.tail, env'.init.lookup v.id = env.init.lookup v.id
  nextId : env.nextId ≤ env'.nextId
  scopes : env'.scopes.tail = env.scopes.tail
  depth : env'.depth = env.depth
  captures : env.captures ⊆ env'.captures

variable {env env' env'' : Env} {ids : Ids}

theorem Fine.of_same (h : env.Fine ids) (hg : env'.globals = env.globals)
    (hc : env'.contexts = env.contexts) (hi : env'.init = env.init)
    (hn : env'.nextId = env.nextId) : env'.Fine ids where
  covers := hg ▸ h.covers
  inside := hc ▸ h.inside
  distinct := hc ▸ h.distinct
  below := by
    rw [hc, hn]
    exact h.below
  recorded := by
    rw [hc, hi]
    exact h.recorded
  chained := by
    rw [hc, hi]
    exact h.chained

theorem varsOf_tail_subset (cs : List FnContext) : varsOf cs.tail ⊆ varsOf cs := by
  cases cs with
  | nil => exact List.Subset.refl _
  | cons c outer => exact List.subset_append_right _ _

/-- The facts may change about the bindings of the innermost function. -/
theorem Fine.withFacts (h : env.Fine ids) {I : InitFacts}
    (ho : ∀ v ∈ varsOf env.contexts.tail, I.lookup v.id = env.init.lookup v.id)
    (hr : ∀ v ∈ varsOf env.contexts, (I.lookup v.id).isSome) :
    ({ env with init := I } : Env).Fine ids where
  covers := h.covers
  inside := h.inside
  distinct := h.distinct
  below := h.below
  recorded := hr
  chained := h.chained.congr ho

theorem Still.refl (env : Env) : env.Still env :=
  ⟨rfl, grown_refl _, fun _ _ => rfl, le_rfl⟩

theorem Still.trans (h : env.Still env') (h' : env'.Still env'') : env.Still env'' where
  globals := h'.globals.trans h.globals
  contexts := grown_trans h.contexts h'.contexts
  init := fun v hv => (h'.init v (by rwa [vars_of_grown h.contexts])).trans (h.init v hv)
  nextId := h.nextId.trans h'.nextId

theorem Still.scopes (h : env.Still env') : env'.scopes = env.scopes := by
  have := h.contexts
  unfold Env.scopes
  cases hc : env.contexts <;> rw [hc] at this
  · rw [List.forall₂_nil_left_iff.1 this]
  · obtain ⟨c', cs', hg, -, h⟩ := List.forall₂_cons_left_iff.1 this
    rw [h]
    exact hg.scopes

theorem Still.depth (h : env.Still env') : env'.depth = env.depth := by
  have := h.contexts
  unfold Env.depth
  cases hc : env.contexts <;> rw [hc] at this
  · rw [List.forall₂_nil_left_iff.1 this]
  · obtain ⟨c', cs', hg, -, h⟩ := List.forall₂_cons_left_iff.1 this
    rw [h]
    exact hg.depth

theorem Still.captures (h : env.Still env') : env.captures ⊆ env'.captures := by
  have := h.contexts
  unfold Env.captures
  cases hc : env.contexts <;> rw [hc] at this
  · rw [List.forall₂_nil_left_iff.1 this]
    exact List.Subset.refl _
  · obtain ⟨c', cs', hg, -, h⟩ := List.forall₂_cons_left_iff.1 this
    rw [h]
    exact hg.captures

theorem Still.beyond (h : env.Still env') : env.Beyond env' where
  globals := h.globals
  contexts := grown_tail h.contexts
  init := fun v hv => h.init v (varsOf_tail_subset _ hv)
  nextId := h.nextId
  scopes := congrArg List.tail h.scopes
  depth := h.depth
  captures := h.captures

theorem Beyond.refl (env : Env) : env.Beyond env := (Still.refl env).beyond

theorem Beyond.trans (h : env.Beyond env') (h' : env'.Beyond env'') : env.Beyond env'' where
  globals := h'.globals.trans h.globals
  contexts := grown_trans h.contexts h'.contexts
  init := fun v hv => (h'.init v (by rwa [vars_of_grown h.contexts])).trans (h.init v hv)
  nextId := h.nextId.trans h'.nextId
  scopes := h'.scopes.trans h.scopes
  depth := h'.depth.trans h.depth
  captures := List.Subset.trans h.captures h'.captures

theorem vars_scopes (env : Env) (h : env.contexts ≠ []) :
    varsOf env.contexts = env.scopes.flatten.map Prod.snd ++ varsOf env.contexts.tail := by
  obtain ⟨c, outer, hc⟩ := List.exists_cons_of_ne_nil h
  rw [Env.scopes, hc]
  rfl

end Env

/-! ## Links -/

/-- For each binding in scope what the checker and the compiler know of it. -/
abbrev Links := List (List (Var × Binding))

namespace Links

variable (W : Links)

/-- The scopes of the checker. -/
def entries : List (List (String × Var)) := W.map fun ws => ws.map fun l => (l.2.name, l.1)

/-- The scopes of the compiler. -/
def bindings : List (List Binding) := W.map fun ws => ws.map Prod.snd

def find? (name : String) : Option (Var × Binding) :=
  W.findSome? fun ws => ws.find? fun l => l.2.name == name

theorem lookup_entries (name : String) :
    (W.entries.findSome? fun scope => scope.lookup name) = (W.find? name).map Prod.fst := by
  have hscope (ws : List (Var × Binding)) : (ws.map fun l => (l.2.name, l.1)).lookup name =
      (ws.find? fun l => l.2.name == name).map Prod.fst := by
    induction ws with
    | nil => rfl
    | cons l rest ih =>
      rw [List.map_cons, List.lookup_cons, List.find?_cons, ih, BEq.comm]
      cases l.2.name == name <;> rfl
  induction W with
  | nil => rfl
  | cons ws rest ih =>
    simp only [entries, find?, List.map_cons, List.findSome?_cons, hscope] at ih ⊢
    cases ws.find? fun l => l.2.name == name with
    | none => exact ih
    | some l => rfl

theorem find?_bindings (name : String) :
    (W.bindings.findSome? fun scope => scope.find? fun b => b.name == name) =
      (W.find? name).map Prod.snd := by
  have hscope (ws : List (Var × Binding)) : (ws.map Prod.snd).find? (fun b => b.name == name) =
      (ws.find? fun l => l.2.name == name).map Prod.snd := by
    rw [List.find?_map]
    rfl
  induction W with
  | nil => rfl
  | cons ws rest ih =>
    simp only [bindings, find?, List.map_cons, List.findSome?_cons, hscope] at ih ⊢
    cases ws.find? fun l => l.2.name == name with
    | none => exact ih
    | some l => rfl

variable {W}

theorem mem_of_find? {name : String} {l : Var × Binding} (h : W.find? name = some l) :
    l ∈ W.flatten ∧ l.2.name = name := by
  obtain ⟨ws, hws, hl⟩ := List.exists_of_findSome?_eq_some h
  exact ⟨List.mem_flatten.2
    ⟨ws, hws, List.mem_of_find?_eq_some hl⟩, by simpa using List.find?_some hl⟩

theorem flatten_entries : W.entries.flatten.map Prod.snd = W.flatten.map Prod.fst := by
  rw [entries, ← List.map_flatten, List.map_map]
  rfl

theorem flatten_bindings : W.bindings.flatten = W.flatten.map Prod.snd := by
  rw [bindings, ← List.map_flatten]

end Links

/-- The checker and the compiler mean one declaration, and the same is known of it. -/
structure Alike (D : List Declaration) (init F : InitFacts) (l : Var × Binding) : Prop where
  depth : l.1.loopDepth = l.2.loopDepth
  declared : ∃ d, D[l.2.slot]? = some d ∧ d.mutable = l.1.mutable
  fact : init.lookup l.1.id = F.lookup l.2.slot

/-- The checker is at this point of a function with these declarations, where these facts hold. -/
structure Env.Tracks (env : Env) (W : Links) (P : Point) (D : List Declaration)
    (F : InitFacts) : Prop where
  point : P.Fine
  depth : env.depth = P.loops
  scopes : env.scopes = W.entries
  bindings : P.scopes = W.bindings
  alike : ∀ l ∈ W.flatten, Alike D env.init F l

namespace Env.Tracks

variable {env env' : Env} {ids : Ids} {W : Links} {P Q : Point} {D : List Declaration}
  {F : InitFacts}

theorem mem_vars (h : env.Tracks W P D F) (hf : env.Fine ids) {l : Var × Binding}
    (hl : l ∈ W.flatten) : l.1 ∈ varsOf env.contexts := by
  rw [vars_scopes env hf.inside, h.scopes, Links.flatten_entries]
  exact List.mem_append_left _ (List.mem_map_of_mem hl)

theorem mem_bindings (h : env.Tracks W P D F) {l : Var × Binding} (hl : l ∈ W.flatten) :
    l.2 ∈ P.scopes.flatten := by
  rw [h.bindings, Links.flatten_bindings]
  exact List.mem_map_of_mem hl

/-- Bindings have the same identity when they have the same slot. -/
theorem id_iff (h : env.Tracks W P D F) (hf : env.Fine ids) {l k : Var × Binding}
    (hl : l ∈ W.flatten) (hk : k ∈ W.flatten) : k.1.id = l.1.id ↔ k.2.slot = l.2.slot := by
  have hids : (W.flatten.map fun l => l.1.id).Nodup := by
    have := hf.distinct
    rw [vars_scopes env hf.inside, h.scopes, Links.flatten_entries, List.map_append,
      List.map_map] at this
    exact (List.nodup_append.1 this).1
  have hslots : (W.flatten.map fun l => l.2.slot).Nodup := by
    have := h.point.distinct
    rw [h.bindings, Links.flatten_bindings, List.map_map] at this
    exact this
  exact ⟨fun he => by rw [List.inj_on_of_nodup_map hids hk hl he],
    fun he => by rw [List.inj_on_of_nodup_map hslots hk hl he]⟩

theorem before (h : env'.Tracks W P D F) (hs : env.Still env') (hf : env.Fine ids) :
    env.Tracks W P D F where
  point := h.point
  depth := hs.depth.symm.trans h.depth
  scopes := hs.scopes.symm.trans h.scopes
  bindings := h.bindings
  alike := fun l hl => by
    obtain ⟨hd, hdecl, hfact⟩ := h.alike l hl
    refine ⟨hd, hdecl, ?_⟩
    rw [← hfact]
    refine (hs.init l.1 ?_).symm
    rw [vars_scopes env hf.inside, ← hs.scopes, h.scopes, Links.flatten_entries]
    exact List.mem_append_left _ (List.mem_map_of_mem hl)

theorem still (h : env.Tracks W P D F) (hs : env.Still env') (hf : env.Fine ids) :
    env'.Tracks W P D F where
  point := h.point
  depth := hs.depth.trans h.depth
  scopes := hs.scopes.trans h.scopes
  bindings := h.bindings
  alike := fun l hl => by
    obtain ⟨hd, hdecl, hfact⟩ := h.alike l hl
    exact ⟨hd, hdecl, (hs.init l.1 (h.mem_vars hf hl)).trans hfact⟩

/-- At a point with the same scopes. -/
theorem of_same (h : env.Tracks W P D F) (hQ : Q.Fine) (hs : Q.scopes = P.scopes)
    (hl : Q.loops = P.loops) : env.Tracks W Q D F :=
  ⟨hQ, h.depth.trans hl.symm, h.scopes, hs.trans h.bindings, h.alike⟩

/-- A name means the same to the checker and to the compiler. -/
theorem resolve? (h : env.Tracks W P D F) (name : String) : P.resolve? name =
    match W.find? name with
    | some l => some (.slot l.2)
    | none => (P.captures.findIdx? fun c => c == name).map .capture := by
  rw [Point.resolve?, h.bindings, Links.find?_bindings]
  cases W.find? name <;> rfl

theorem find? (h : env.Tracks W P D F) {c : FnContext} {outer : List FnContext}
    (hc : env.contexts = c :: outer) (name : String) :
    c.find? name = (W.find? name).map Prod.fst := by
  have hs := h.scopes
  rw [Env.scopes, hc] at hs
  rw [← Links.lookup_entries, ← hs]
  rfl

/-- What may be captured may be read. -/
theorem reads (h : env.Tracks W P D F) (hcap : env.captures ⊆ P.captures) {name : String}
    (hr : Readable env.init name env.contexts) : P.Reads F name := by
  cases hc : env.contexts with
  | nil =>
    rw [hc] at hr
    exact hr.elim
  | cons c outer =>
    have hfind := h.find? hc name
    rw [hc] at hr
    rw [Point.Reads, h.resolve?]
    cases hW : W.find? name with
    | some l =>
      rw [hW] at hfind
      simp only [Readable, hfind, Option.map_some] at hr
      obtain ⟨-, -, hfact⟩ := h.alike l (Links.mem_of_find? hW).1
      exact hfact.symm.trans hr
    | none =>
      rw [hW] at hfind
      simp only [Readable, hfind, Option.map_none] at hr
      have hmem : name ∈ P.captures := hcap (by rw [Env.captures, hc]; exact hr)
      cases hi : P.captures.findIdx? fun c => c == name with
      | some i => trivial
      | none => exact absurd (List.findIdx?_eq_none_iff.1 hi name hmem) (by simp)

end Env.Tracks

/-! ## Computations of the checker -/

namespace Check

/-- A computation that ends without errors started without any, and relates the environments before
and after it with its value. -/
def Takes (x : Check α) (T : Env → Env → α → Prop) : Prop :=
  ∀ env : Env, (x env).2.errors = #[] → env.errors = #[] ∧ T env (x env).2 (x env).1

section

variable {T : Env → Env → α → Prop}

theorem Takes.weaken {x : Check α} {T' : Env → Env → α → Prop} (hx : Takes x T)
    (h : ∀ env env' a, T env env' a → T' env env' a) : Takes x T' :=
  fun env he => ⟨(hx env he).1, h _ _ _ (hx env he).2⟩

theorem Takes.pure (a : α) : Takes (Pure.pure a) fun env env' b => b = a ∧ env' = env :=
  fun _ he => ⟨he, rfl, rfl⟩

theorem Takes.bind {x : Check α} {y : α → Check β} {S : α → Env → Env → β → Prop}
    (hx : Takes x T) (hy : ∀ a, Takes (y a) (S a)) :
    Takes (x >>= y) fun env env' b => ∃ a mid, T env mid a ∧ S a mid env' b := by
  intro env he
  obtain ⟨he₁, hs⟩ := hy (x env).1 (x env).2 he
  obtain ⟨he₀, ht⟩ := hx env he₁
  exact ⟨he₀, _, _, ht, hs⟩

/-- Nothing is said of a computation that reports an error. -/
theorem Takes.reported {x : Check α} {T' : Env → Env → α → Prop} {cause : TypeCause}
    {span : Option Span} (hx : Takes x T) : Takes (report cause span >>= fun _ => x) T' := by
  intro env he
  obtain ⟨he, -⟩ := hx _ he
  have : env.errors.push ⟨cause, span⟩ = #[] := he
  simp at this

theorem Takes.reportedIf {c : Prop} [Decidable c] {x : Unit → Check α} {cause : TypeCause}
    {span : Option Span} (hx : Takes (x ()) T) :
    Takes (if c then report cause span >>= x else x ()) fun env env' a => ¬c ∧ T env env' a := by
  split
  · intro env he
    obtain ⟨he, -⟩ := hx _ he
    have : env.errors.push ⟨cause, span⟩ = #[] := he
    simp at this
  · rename_i hc
    exact hx.weaken fun _ _ _ h => ⟨hc, h⟩

theorem takes_modify (g : Env → Env) (hg : ∀ env, (g env).errors = env.errors) :
    Takes (modify g) fun env env' _ => env' = g env :=
  fun env he => ⟨(hg env).symm.trans he, rfl⟩

theorem takes_reads (r : Env → α) :
    Takes (do return r (← get)) fun env env' a => env' = env ∧ a = r env :=
  fun _ he => ⟨he, rfl, rfl⟩

theorem Quiet.takes {x : Check α} {Q : Globals → α → Prop} (hx : Quiet x Q) :
    Takes x fun env env' a => (∃ n, env' = { env with narrowed := n }) ∧ Q env.globals a := by
  intro env he
  obtain ⟨⟨n, hn⟩, hq⟩ := hx env he
  refine ⟨?_, ⟨n, hn⟩, hq⟩
  rw [hn] at he
  exact he

theorem modifyGet_eq (g : Env → α × Env) (env : Env) : (modifyGet g : Check α) env = g env := rfl

/-- A name is found, or nothing happens. -/
theorem takes_lookup (name : String) : Takes (lookup name) fun env env' r =>
    (r = none ∧ env' = env) ∨ ∃ v cs, r = some v ∧ resolveIn name env.contexts = some (v, cs) ∧
      env' = { env with contexts := cs } := by
  intro env he
  unfold lookup at he ⊢
  rw [modifyGet_eq] at he ⊢
  cases hr : resolveIn name env.contexts with
  | none =>
    rw [hr] at he
    exact ⟨he, .inl ⟨rfl, rfl⟩⟩
  | some r =>
    obtain ⟨v, cs⟩ := r
    rw [hr] at he
    exact ⟨he, .inr ⟨v, cs, rfl, hr, rfl⟩⟩

end

/-- An expression, or a part of one, is checked: it leaves the facts as they were, and its value is
in order wherever the checker is. -/
def Grounds (ids : Ids) (x : Check α) (q : Point → InitFacts → α → Prop) : Prop :=
  Takes x fun env env' a => env.Fine ids → env'.Fine ids ∧ env.Still env' ∧
    ∀ W P D F, env'.Tracks W P D F → env'.captures ⊆ P.captures → q P F a

variable {ids : Ids} {q : Point → InitFacts → α → Prop} {r : Point → InitFacts → β → Prop}

theorem Grounds.weaken {x : Check α} {q' : Point → InitFacts → α → Prop} (hx : Grounds ids x q)
    (h : ∀ P F a, q P F a → q' P F a) : Grounds ids x q' :=
  Takes.weaken hx fun _ _ _ hx hf => ⟨(hx hf).1, (hx hf).2.1, fun W P D F ht hc =>
    h _ _ _ ((hx hf).2.2 W P D F ht hc)⟩

theorem Grounds.pure {a : α} (h : ∀ P F, q P F a) : Grounds ids (Pure.pure a) q :=
  (Takes.pure a).weaken fun env _ _ ⟨ha, he⟩ hf => by
    subst ha he
    exact ⟨hf, .refl _, fun _ P _ F _ _ => h P F⟩

theorem Grounds.bind {x : Check α} {y : α → Check β} (hx : Grounds ids x q)
    (hy : ∀ a, Grounds ids (y a) fun P F b => q P F a → r P F b) : Grounds ids (x >>= y) r := by
  refine (Takes.bind hx hy).weaken ?_
  rintro env env' b ⟨a, mid, hx, hy⟩ hf
  obtain ⟨hfx, hsx, hqx⟩ := hx hf
  obtain ⟨hfy, hsy, hqy⟩ := hy hfx
  refine ⟨hfy, hsx.trans hsy, fun W P D F ht hc => ?_⟩
  exact hqy W P D F ht hc (hqx W P D F (ht.before hsy hfx) (List.Subset.trans hsy.captures hc))

theorem Grounds.map {x : Check α} {g : α → β} (hx : Grounds ids x q)
    (h : ∀ P F a, q P F a → r P F (g a)) : Grounds ids (g <$> x) r :=
  hx.bind fun a => .pure fun P F => h P F a

/-- A computation whose value does not matter. -/
theorem Grounds.after {x : Check α} {y : α → Check β} (hx : Grounds ids x q)
    (hy : ∀ a, Grounds ids (y a) r) : Grounds ids (x >>= y) r :=
  hx.bind fun a => (hy a).weaken fun _ _ _ h _ => h

theorem Grounds.reported {x : Check α} {q' : Point → InitFacts → α → Prop} {cause : TypeCause}
    {span : Option Span} (hx : Grounds ids x q) :
    Grounds ids (report cause span >>= fun _ => x) q' :=
  Takes.reported hx

theorem Grounds.reportedIf {c : Prop} [Decidable c] {x : Unit → Check α} {cause : TypeCause}
    {span : Option Span} (hx : Grounds ids (x ()) q) :
    Grounds ids (if c then report cause span >>= x else x ()) q :=
  (Takes.reportedIf hx).weaken fun _ _ _ h => h.2

theorem fine_narrowed {env : Env} (n : List (Nat × Ty)) (h : env.Fine ids) :
    ({ env with narrowed := n } : Env).Fine ids := h.of_same rfl rfl rfl rfl

theorem still_narrowed (env : Env) (n : List (Nat × Ty)) : env.Still { env with narrowed := n } :=
  ⟨rfl, grown_refl _, fun _ _ => rfl, le_rfl⟩

/-- A step that declares nothing, with what its value says of the names of the program. -/
theorem Quiet.grounds {x : Check α} {Q : Globals → α → Prop} {q : α → Prop} (hx : Quiet x Q)
    (h : ∀ g a, ids.Covers g → Q g a → q a) : Grounds ids x fun _ _ a => q a := by
  refine (Quiet.takes hx).weaken ?_
  rintro env _ a ⟨⟨n, rfl⟩, hq⟩ hf
  exact ⟨fine_narrowed n hf, still_narrowed env n, fun _ _ _ _ _ _ => h _ a hf.covers hq⟩

theorem Quiet.passes {x : Check α} {Q : Globals → α → Prop} (hx : Quiet x Q) :
    Grounds ids x fun _ _ _ => True := hx.grounds fun _ _ _ _ => trivial

end Check

end ScopedScript
