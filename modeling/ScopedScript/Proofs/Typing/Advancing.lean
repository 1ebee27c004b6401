import ScopedScript.Proofs.Typing.Tracking

/-!
# What the checker learns from statements

A statement takes the checker from one point of a function to another, and from what is known before
it to what is known after it. Around a block and in a loop this follows from what its statements do;
paths that meet keep what is known on all of them.
-/

namespace ScopedScript

/-- From one environment to the other a part of a function is checked that makes these declarations.
It is in order, and leads to the point and to the facts after it. -/
structure Advances (ids : Ids) (env env' : Env) (ds : List Declaration)
    (G : Point → List Declaration → InitFacts → Prop) (next : Point → Point)
    (facts : Point → InitFacts → InitFacts) : Prop where
  fine : env'.Fine ids
  beyond : env.Beyond env'
  tracks : ∀ W P D F, env.Tracks W P D F → env'.captures ⊆ P.captures → Lists D P.slots ds →
    G P D F ∧ ∃ W' : Links, W'.tail = W.tail ∧ env'.Tracks W' (next P) D (facts P F)

namespace Env

/-- The innermost function is changed. -/
def modifyHead (env : Env) (g : FnContext → FnContext) : Env :=
  match env.contexts with
  | [] => env
  | c :: outer => { env with contexts := g c :: outer }

def opened (env : Env) : Env := env.modifyHead fun c => { c with scopes := [] :: c.scopes }

def closed (env : Env) : Env := env.modifyHead fun c => { c with scopes := c.scopes.tail }

def inLoop (env : Env) : Env := env.modifyHead fun c => { c with loopDepth := c.loopDepth + 1 }

def outOfLoop (env : Env) : Env := env.modifyHead fun c => { c with loopDepth := c.loopDepth - 1 }

variable {env env' env'' : Env} {ids : Ids} {g : FnContext → FnContext}

theorem modifyHead_eq {c : FnContext} {outer : List FnContext} (h : env.contexts = c :: outer) :
    env.modifyHead g = { env with contexts := g c :: outer } := by
  unfold modifyHead
  rw [h]

theorem Fine.modifyHead (h : env.Fine ids) (hv : ∀ c, (g c).vars.Sublist c.vars)
    (hc : ∀ c, (g c).captures = c.captures) : (env.modifyHead g).Fine ids := by
  obtain ⟨c, outer, he⟩ := List.exists_cons_of_ne_nil h.inside
  rw [modifyHead_eq he]
  have hsub : (varsOf (g c :: outer)).Sublist (varsOf env.contexts) := by
    rw [he]
    exact (hv c).append_right _
  constructor
  case covers => exact h.covers
  case inside => exact List.cons_ne_nil _ _
  case distinct => exact h.distinct.sublist (hsub.map _)
  case below => exact fun v hvar => h.below v (hsub.subset hvar)
  case recorded => exact fun v hvar => h.recorded v (hsub.subset hvar)
  case chained =>
    have := h.chained
    rw [he] at this
    refine ⟨?_, this.2⟩
    rw [hc]
    exact this.1

theorem fine_opened (h : env.Fine ids) : env.opened.Fine ids :=
  h.modifyHead (fun _ => List.Sublist.refl _) fun _ => rfl

theorem fine_closed (h : env.Fine ids) : env.closed.Fine ids := by
  refine h.modifyHead (fun c => ?_) fun _ => rfl
  refine List.Sublist.map _ ?_
  cases c.scopes with
  | nil => exact List.Sublist.refl _
  | cons scope outer => exact List.sublist_append_right _ _

theorem fine_inLoop (h : env.Fine ids) : env.inLoop.Fine ids :=
  h.modifyHead (fun _ => List.Sublist.refl _) fun _ => rfl

theorem fine_outOfLoop (h : env.Fine ids) : env.outOfLoop.Fine ids :=
  h.modifyHead (fun _ => List.Sublist.refl _) fun _ => rfl

/-- A change of the innermost function that keeps its captures. -/
structure Headed (env env' : Env) : Prop where
  globals : env'.globals = env.globals
  contexts : env'.contexts.tail = env.contexts.tail
  init : env'.init = env.init
  nextId : env'.nextId = env.nextId
  captures : env'.captures = env.captures

theorem Headed.trans (h : env.Headed env') (h' : env'.Headed env'') : env.Headed env'' :=
  ⟨h'.globals.trans h.globals, h'.contexts.trans h.contexts, h'.init.trans h.init,
    h'.nextId.trans h.nextId, h'.captures.trans h.captures⟩

theorem headed_modifyHead (h : env.contexts ≠ []) (hc : ∀ c, (g c).captures = c.captures) :
    env.Headed (env.modifyHead g) := by
  obtain ⟨c, outer, he⟩ := List.exists_cons_of_ne_nil h
  rw [modifyHead_eq he]
  refine ⟨rfl, by rw [he]; rfl, rfl, rfl, ?_⟩
  rw [Env.captures, Env.captures, he]
  exact hc c

theorem headed_opened (h : env.contexts ≠ []) : env.Headed env.opened :=
  headed_modifyHead h fun _ => rfl

theorem headed_closed (h : env.contexts ≠ []) : env.Headed env.closed :=
  headed_modifyHead h fun _ => rfl

theorem headed_inLoop (h : env.contexts ≠ []) : env.Headed env.inLoop :=
  headed_modifyHead h fun _ => rfl

theorem headed_outOfLoop (h : env.contexts ≠ []) : env.Headed env.outOfLoop :=
  headed_modifyHead h fun _ => rfl

/-- What happens between two changes of the innermost function leaves behind what it does if the
scopes and the depth are restored. -/
theorem Beyond.between {a b : Env} (h₁ : env.Headed a) (h : a.Beyond b) (h₂ : b.Headed env')
    (hs : env'.scopes.tail = env.scopes.tail) (hd : env'.depth = env.depth) : env.Beyond env' where
  globals := h₂.globals.trans (h.globals.trans h₁.globals)
  contexts := by
    rw [h₂.contexts, ← h₁.contexts]
    exact h.contexts
  init := by
    rw [h₂.init, ← h₁.init, ← h₁.contexts]
    exact h.init
  nextId := h₁.nextId ▸ h₂.nextId ▸ h.nextId
  scopes := hs
  depth := hd
  captures := by
    rw [h₂.captures, ← h₁.captures]
    exact h.captures

theorem scopes_modifyHead (h : env.contexts ≠ [])
    {k : List (List (String × Var)) → List (List (String × Var))}
    (hk : ∀ c, (g c).scopes = k c.scopes) : (env.modifyHead g).scopes = k env.scopes := by
  obtain ⟨c, outer, he⟩ := List.exists_cons_of_ne_nil h
  rw [modifyHead_eq he, Env.scopes, Env.scopes, he]
  exact hk c

theorem depth_modifyHead (h : env.contexts ≠ []) {k : Nat → Nat}
    (hk : ∀ c, (g c).loopDepth = k c.loopDepth) : (env.modifyHead g).depth = k env.depth := by
  obtain ⟨c, outer, he⟩ := List.exists_cons_of_ne_nil h
  rw [modifyHead_eq he, Env.depth, Env.depth, he]
  exact hk c

/-- Another environment that differs in what the relation to a point does not see. -/
theorem Tracks.of_eq {W : Links} {P : Point} {D : List Declaration} {F : InitFacts}
    (h : env.Tracks W P D F) (hs : env'.scopes = env.scopes) (hd : env'.depth = env.depth)
    (hi : env'.init = env.init) : env'.Tracks W P D F :=
  ⟨h.point, hd.trans h.depth, hs.trans h.scopes, h.bindings, fun l hl => hi ▸ h.alike l hl⟩

end Env

section

variable {ids : Ids} {env env' env'' : Env} {ds ds' : List Declaration}
  {G G' : Point → List Declaration → InitFacts → Prop} {next next' : Point → Point}
  {facts facts' : Point → InitFacts → InitFacts}

theorem Advances.weaken (h : Advances ids env env' ds G next facts)
    (hG : ∀ P D F, G P D F → G' P D F) : Advances ids env env' ds G' next facts :=
  ⟨h.fine, h.beyond, fun W P D F ht hc hl =>
    ⟨hG P D F (h.tracks W P D F ht hc hl).1, (h.tracks W P D F ht hc hl).2⟩⟩

theorem Advances.trans (h : Advances ids env env' ds G next facts)
    (h' : Advances ids env' env'' ds' G' next' facts')
    (hn : ∀ P : Point, P.Fine → (next P).captures = P.captures ∧
      (next P).slots = P.slots + ds.length) :
    Advances ids env env'' (ds ++ ds') (fun P D F => G P D F ∧ G' (next P) D (facts P F))
      (fun P => next' (next P)) fun P F => facts' (next P) (facts P F) where
  fine := h'.fine
  beyond := h.beyond.trans h'.beyond
  tracks := by
    intro W P D F ht hc hl
    obtain ⟨hcap, hslots⟩ := hn P ht.point
    obtain ⟨hl₁, hl₂⟩ := lists_append.1 hl
    obtain ⟨hG, W₁, hW₁, ht₁⟩ := h.tracks W P D F ht (List.Subset.trans h'.beyond.captures hc) hl₁
    obtain ⟨hG', W₂, hW₂, ht₂⟩ := h'.tracks W₁ _ D _ ht₁ (hcap ▸ hc) (hslots ▸ hl₂)
    exact ⟨⟨hG, hG'⟩, W₂, hW₂.trans hW₁, ht₂⟩

/-- An expression is checked, and the statement does not declare or assign anything. -/
theorem Advances.of_still (hf : env.Fine ids) (hf' : env'.Fine ids) (hs : env.Still env')
    (hG : ∀ W P D F, env'.Tracks W P D F → env'.captures ⊆ P.captures → G P D F)
    (hn : ∀ P : Point, P.Fine → (next P).Fine ∧ (next P).scopes = P.scopes ∧
      (next P).loops = P.loops)
    (hF : ∀ P F, facts P F = F) : Advances ids env env' [] G next facts where
  fine := hf'
  beyond := hs.beyond
  tracks := by
    intro W P D F ht hc _
    have ht' := ht.still hs hf
    obtain ⟨hfine, hscopes, hloops⟩ := hn P ht.point
    rw [hF]
    exact ⟨hG W P D F ht' hc, W, rfl, ht'.of_same hfine hscopes hloops⟩

/-- An expression is checked first. -/
theorem Advances.after_still (hf : env.Fine ids) (hs : env.Still env')
    (h : Advances ids env' env'' ds G next facts) : Advances ids env env'' ds G next facts where
  fine := h.fine
  beyond := hs.beyond.trans h.beyond
  tracks := fun W P D F ht hc hl => h.tracks W P D F (ht.still hs hf) hc hl

/-- An expression is checked at the end. -/
theorem Advances.still (h : Advances ids env env' ds G next facts) (hf : env''.Fine ids)
    (hs : env'.Still env'') : Advances ids env env'' ds G next facts where
  fine := hf
  beyond := h.beyond.trans hs.beyond
  tracks := by
    intro W P D F ht hc hl
    obtain ⟨hG, W', hW, ht'⟩ := h.tracks W P D F ht (List.Subset.trans hs.captures hc) hl
    exact ⟨hG, W', hW, ht'.still hs h.fine⟩

end

/-! ## Blocks -/

/-- As `Advances`, with the scopes as they were. -/
structure Encloses (ids : Ids) (env env' : Env) (ds : List Declaration)
    (G : Point → List Declaration → InitFacts → Prop) (next : Point → Point)
    (facts : Point → InitFacts → InitFacts) : Prop where
  fine : env'.Fine ids
  beyond : env.Beyond env'
  scopes : env'.scopes = env.scopes
  tracks : ∀ W P D F, env.Tracks W P D F → env'.captures ⊆ P.captures → Lists D P.slots ds →
    G P D F ∧ env'.Tracks W (next P) D (facts P F)

section

variable {ids : Ids} {env env' env'' a b : Env} {ds ds' : List Declaration}
  {G G' : Point → List Declaration → InitFacts → Prop} {next next' : Point → Point}
  {facts : Point → InitFacts → InitFacts}

theorem Encloses.advances (h : Encloses ids env env' ds G next facts) :
    Advances ids env env' ds G next facts :=
  ⟨h.fine, h.beyond, fun W P D F ht hc hl =>
    ⟨(h.tracks W P D F ht hc hl).1, W, rfl, (h.tracks W P D F ht hc hl).2⟩⟩

/-- Statements in a scope of their own, between entering and leaving it. -/
theorem Advances.enclosed (h : Advances ids a b ds G next facts) (enter leave : Point → Point)
    (ha : env.Headed a) (has : a.scopes = [] :: env.scopes)
    (hb : b.Headed env') (hbs : env'.scopes = b.scopes.tail) (hd : env'.depth = env.depth)
    (hf : env'.Fine ids)
    (hP : ∀ P : Point, P.Fine → (enter P).Fine ∧ (enter P).scopes = [] :: P.scopes ∧
      (enter P).slots = P.slots ∧ (enter P).captures = P.captures ∧
      (env.depth = P.loops → a.depth = (enter P).loops))
    (hQ : ∀ P : Point, P.Fine → P.Beside (leave (next (enter P)))) :
    Encloses ids env env' ds (fun P D F => G (enter P) D F) (fun P => leave (next (enter P)))
      fun P F => facts (enter P) F := by
  have hscopes : env'.scopes = env.scopes := by
    rw [hbs, h.beyond.scopes, has]
    rfl
  refine ⟨hf, h.beyond.between ha hb (by rw [hscopes]) hd, hscopes, fun W P D F ht hc hlist => ?_⟩
  obtain ⟨hfine, hopen, hslots, hcap, hdepth⟩ := hP P ht.point
  have hstart : a.Tracks ([] :: W) (enter P) D F := by
    refine ⟨hfine, hdepth ht.depth, ?_, ?_, ?_⟩
    · rw [has, ht.scopes]
      rfl
    · rw [hopen, ht.bindings]
      rfl
    · exact fun l hl => ha.init ▸ ht.alike l hl
  rw [hb.captures, ← hcap] at hc
  obtain ⟨hG, W', hW, ht'⟩ := h.tracks _ _ D F hstart hc (hslots ▸ hlist)
  have hbeside := hQ P ht.point
  refine ⟨hG, hbeside.fine, (hd.trans ht.depth).trans hbeside.loops.symm, ?_, ?_, ?_⟩
  · rw [hscopes, ht.scopes]
  · rw [hbeside.scopes, ht.bindings]
  · intro l hl
    have := ht'.alike l (by
      obtain ⟨ws, hws, hl⟩ := List.mem_flatten.1 hl
      refine List.mem_flatten.2 ⟨ws, List.mem_of_mem_tail ?_, hl⟩
      rw [hW]
      exact hws)
    exact hb.init ▸ this

theorem Encloses.weaken (h : Encloses ids env env' ds G next facts)
    (hG : ∀ P D F, G P D F → G' P D F) : Encloses ids env env' ds G' next facts :=
  ⟨h.fine, h.beyond, h.scopes, fun W P D F ht hc hl =>
    ⟨hG P D F (h.tracks W P D F ht hc hl).1, (h.tracks W P D F ht hc hl).2⟩⟩

theorem Encloses.congr (h : Encloses ids env env' ds G next facts)
    (facts' : Point → InitFacts → InitFacts) (hF : ∀ P F, facts P F = facts' P F) :
    Encloses ids env env' ds G next facts' := by
  obtain rfl : facts = facts' := funext fun P => funext (hF P)
  exact h

/-- Only the scopes and the depth of the point at the end matter. -/
theorem Encloses.beside (h : Encloses ids env env' ds G next facts) (next' : Point → Point)
    (hn : ∀ P : Point, P.Fine → (next P).Beside (next' P)) :
    Encloses ids env env' ds G next' facts :=
  ⟨h.fine, h.beyond, h.scopes, fun W P D F ht hc hl => by
    obtain ⟨hG, ht'⟩ := h.tracks W P D F ht hc hl
    obtain ⟨hfine, hs, hloops, -⟩ := hn P ht.point
    exact ⟨hG, ht'.of_same hfine hs hloops⟩⟩

/-- What was learnt about null plays no part. -/
theorem Encloses.narrowed (h : Encloses ids env env' ds G next facts) (n : List (Nat × Ty)) :
    Encloses ids env { env' with narrowed := n } ds G next facts where
  fine := h.fine.of_same rfl rfl rfl rfl
  beyond := ⟨h.beyond.globals, h.beyond.contexts, h.beyond.init, h.beyond.nextId, h.beyond.scopes,
    h.beyond.depth, h.beyond.captures⟩
  scopes := h.scopes
  tracks := fun W P D F ht hc hl =>
    ⟨(h.tracks W P D F ht hc hl).1, (h.tracks W P D F ht hc hl).2.of_eq rfl rfl rfl⟩

theorem Advances.narrowed (h : Advances ids env env' ds G next facts) (n : List (Nat × Ty)) :
    Advances ids env { env' with narrowed := n } ds G next facts where
  fine := h.fine.of_same rfl rfl rfl rfl
  beyond := ⟨h.beyond.globals, h.beyond.contexts, h.beyond.init, h.beyond.nextId, h.beyond.scopes,
    h.beyond.depth, h.beyond.captures⟩
  tracks := fun W P D F ht hc hl => by
    obtain ⟨hG, W', hW, ht'⟩ := h.tracks W P D F ht hc hl
    exact ⟨hG, W', hW, ht'.of_eq rfl rfl rfl⟩

theorem Advances.block (hf : env.Fine ids) (h : Advances ids env.opened env' ds G next facts)
    (hn : ∀ P : Point, P.Fine → P.opened.Extends (next P.opened)) :
    Encloses ids env env'.closed ds (fun P D F => G P.opened D F) (fun P => (next P.opened).closed)
      fun P F => facts P.opened F := by
  have hinside := h.fine.inside
  have hopened : env.opened.depth = env.depth :=
    Env.depth_modifyHead (k := id) hf.inside fun _ => rfl
  have hclosed : env'.closed.depth = env'.depth :=
    Env.depth_modifyHead (k := id) hinside fun _ => rfl
  refine h.enclosed Point.opened Point.closed (Env.headed_opened hf.inside)
    (Env.scopes_modifyHead hf.inside fun _ => rfl) (Env.headed_closed hinside)
    (Env.scopes_modifyHead hinside fun _ => rfl)
    ((hclosed.trans h.beyond.depth).trans hopened) (Env.fine_closed h.fine) ?_ ?_
  · exact fun P hP => ⟨hP.opened, rfl, rfl, rfl, fun hd => hopened.trans hd⟩
  · intro P hP
    have he := hn P hP
    have hback := Point.scopes_closed he
    exact ⟨hP.of_same hback he.slots he.loops, hback, he.loops, he.captures⟩

theorem Advances.loop (hf : env.Fine ids) (h : Advances ids env.inLoop.opened env' ds G next facts)
    (hn : ∀ P : Point, P.Fine → P.inLoop.opened.Extends (next P.inLoop.opened)) :
    Encloses ids env env'.closed.outOfLoop ds (fun P D F => G P.inLoop.opened D F)
      (fun P => (next P.inLoop.opened).closed.outOfLoop) fun P F => facts P.inLoop.opened F := by
  have hloop := Env.fine_inLoop hf
  have hinside := h.fine.inside
  have hclosed := Env.fine_closed h.fine
  have hd₁ : env.inLoop.depth = env.depth + 1 :=
    Env.depth_modifyHead (k := (· + 1)) hf.inside fun _ => rfl
  have hd₂ : env.inLoop.opened.depth = env.inLoop.depth :=
    Env.depth_modifyHead (k := id) hloop.inside fun _ => rfl
  have hd₃ : env'.closed.depth = env'.depth := Env.depth_modifyHead (k := id) hinside fun _ => rfl
  have hd₄ : env'.closed.outOfLoop.depth = env'.closed.depth - 1 :=
    Env.depth_modifyHead (k := (· - 1)) hclosed.inside fun _ => rfl
  have hs₁ : env.inLoop.scopes = env.scopes :=
    Env.scopes_modifyHead (k := id) hf.inside fun _ => rfl
  have hs₂ : env.inLoop.opened.scopes = [] :: env.inLoop.scopes :=
    Env.scopes_modifyHead hloop.inside fun _ => rfl
  have hs₃ : env'.closed.scopes = env'.scopes.tail := Env.scopes_modifyHead hinside fun _ => rfl
  have hs₄ : env'.closed.outOfLoop.scopes = env'.closed.scopes :=
    Env.scopes_modifyHead (k := id) hclosed.inside fun _ => rfl
  refine h.enclosed (fun P => P.inLoop.opened) (fun Q => Q.closed.outOfLoop)
    ((Env.headed_inLoop hf.inside).trans (Env.headed_opened hloop.inside)) (hs₂.trans (by rw [hs₁]))
    ((Env.headed_closed hinside).trans (Env.headed_outOfLoop hclosed.inside)) (hs₄.trans hs₃) ?_
    (Env.fine_outOfLoop hclosed) ?_ ?_
  · rw [hd₄, hd₃, h.beyond.depth, hd₂, hd₁]
    rfl
  · exact fun P hP => ⟨hP.inLoop_opened, rfl, rfl, rfl, fun hd => by rw [hd₂, hd₁, hd]; rfl⟩
  · intro P hP
    have he := hn P hP
    have hback := Point.scopes_closed he
    have hloops : (next P.inLoop.opened).closed.outOfLoop.loops = P.loops := by
      rw [Point.outOfLoop, Point.closed, he.loops]
      rfl
    exact ⟨hP.of_same hback he.slots hloops, hback, hloops, he.captures⟩

end

/-! ## Paths that meet -/

/-- Facts for the bindings in scope that leave those of the functions around as they are. -/
structure Kept (env : Env) (I : InitFacts) : Prop where
  outer : ∀ v ∈ varsOf env.contexts.tail, I.lookup v.id = env.init.lookup v.id
  recorded : ∀ v ∈ varsOf env.contexts, (I.lookup v.id).isSome

/-- The facts of the checker are those about the slots. -/
def SameFacts (W : Links) (I F : InitFacts) : Prop :=
  ∀ l ∈ W.flatten, I.lookup l.1.id = F.lookup l.2.slot

section

variable {env env' : Env} {ids : Ids} {I J F G : InitFacts} {W : Links}

theorem Kept.join (hf : env.Fine ids) (h : Kept env I) (h' : Kept env J) : Kept env (I.join J) where
  outer := by
    intro v hv
    obtain ⟨s, hs⟩ := Option.isSome_iff_exists.1 (hf.recorded v (Env.varsOf_tail_subset _ hv))
    rw [hs]
    exact InitFacts.lookup_join_same ((h.outer v hv).trans hs) ((h'.outer v hv).trans hs)
  recorded := by
    intro v hv
    rw [InitFacts.lookup_join, Option.isSome_map]
    exact h.recorded v hv

theorem SameFacts.join (h : SameFacts W I F) (h' : SameFacts W J G) :
    SameFacts W (I.join J) (F.join G) := by
  intro l hl
  rw [InitFacts.lookup_join, InitFacts.lookup_join, h l hl, h' l hl]

theorem Kept.meet (hf : env.Fine ids) {paths : List InitFacts} (hp : ∀ I ∈ paths, Kept env I)
    (ho : Kept env J) : Kept env (.meet paths J) := by
  cases paths with
  | nil => exact ho
  | cons first rest =>
    obtain ⟨hfirst, hrest⟩ := List.forall_mem_cons.1 hp
    clear hp ho
    change Kept env (rest.foldl InitFacts.join first)
    induction rest generalizing first with
    | nil => exact hfirst
    | cons I rest ih =>
      obtain ⟨hI, hrest⟩ := List.forall_mem_cons.1 hrest
      exact ih _ (hfirst.join hf hI) hrest

theorem SameFacts.meet {paths paths' : List InitFacts} (hp : paths.Forall₂ (SameFacts W) paths')
    (ho : SameFacts W J G) : SameFacts W (.meet paths J) (.meet paths' G) := by
  cases hp with
  | nil => exact ho
  | @cons first first' rest rest' hfirst hrest =>
    change SameFacts W (rest.foldl InitFacts.join first) (rest'.foldl InitFacts.join first')
    clear ho
    induction hrest generalizing first first' with
    | nil => exact hfirst
    | cons h _ ih => exact ih (hfirst.join h)

theorem forall₂_pathFacts (falls : Bool) (h : SameFacts W I F) :
    (pathFacts falls I).Forall₂ (SameFacts W) (pathFacts falls F) := by
  cases falls with
  | true => exact .cons h .nil
  | false => exact .nil

theorem kept_init (hf : env.Fine ids) : Kept env env.init := ⟨fun _ _ => rfl, hf.recorded⟩

end

/-! ## Branches -/

/-- The contexts around stay, and so do the scopes. -/
theorem Env.Beyond.grown {env env' : Env} {ids : Ids} (h : env.Beyond env') (hf : env.Fine ids)
    (hf' : env'.Fine ids) (hs : env'.scopes = env.scopes) :
    env.contexts.Forall₂ Grown env'.contexts := by
  obtain ⟨c, outer, hc⟩ := List.exists_cons_of_ne_nil hf.inside
  obtain ⟨c', outer', hc'⟩ := List.exists_cons_of_ne_nil hf'.inside
  have ho := h.contexts
  have hd := h.depth
  have hcap := h.captures
  rw [Env.scopes, Env.scopes, hc, hc'] at hs
  rw [Env.depth, Env.depth, hc, hc'] at hd
  rw [Env.captures, Env.captures, hc, hc'] at hcap
  rw [hc, hc'] at ho ⊢
  exact .cons ⟨hs, hd, hcap⟩ ho

/-- From one environment to the other some branches are checked, each from the facts at the start.
The paths lead to the ends of those that control gets through. -/
structure Alternatives (ids : Ids) (env env' : Env) (paths : List InitFacts) (ds : List Declaration)
    (G : Point → List Declaration → InitFacts → Prop) (ends : Point → InitFacts → List InitFacts) :
    Prop where
  fine : env'.Fine ids
  still : env.Still env'
  kept : ∀ I ∈ paths, Kept env I
  tracks : ∀ W P D F, env.Tracks W P D F → env'.captures ⊆ P.captures → Lists D P.slots ds →
    G P D F ∧ paths.Forall₂ (SameFacts W) (ends P F)

section

variable {ids : Ids} {env env' env'' : Env} {paths paths' : List InitFacts}
  {ds ds' : List Declaration}
  {G G' : Point → List Declaration → InitFacts → Prop}
  {ends ends' : Point → InitFacts → List InitFacts}
  {next next' : Point → Point} {facts : Point → InitFacts → InitFacts}

theorem Kept.before {I : InitFacts} (h : Kept env' I) (hs : env.Still env') : Kept env I where
  outer := by
    intro v hv
    rw [← hs.init v (Env.varsOf_tail_subset _ hv)]
    refine h.outer v ?_
    rw [vars_of_grown (grown_tail hs.contexts)]
    exact hv
  recorded := by
    intro v hv
    refine h.recorded v ?_
    rw [vars_of_grown hs.contexts]
    exact hv

theorem Alternatives.nil (hf : env.Fine ids) :
    Alternatives ids env env [] [] (fun _ _ _ => True) fun _ _ => [] :=
  ⟨hf, .refl env, nofun, fun _ _ _ _ _ _ _ => ⟨trivial, .nil⟩⟩

theorem Alternatives.after_still (hf : env.Fine ids) (hs : env.Still env')
    (h : Alternatives ids env' env'' paths ds G ends) :
    Alternatives ids env env'' paths ds G ends where
  fine := h.fine
  still := hs.trans h.still
  kept := fun I hI => (h.kept I hI).before hs
  tracks := fun W P D F ht hc hl => h.tracks W P D F (ht.still hs hf) hc hl

/-- A block, after which one goes back to the facts before it. -/
theorem Encloses.alternative (h : Encloses ids env env' ds G next facts) (hf : env.Fine ids)
    (falls : Bool) : Alternatives ids env { env' with init := env.init }
      (pathFacts falls env'.init) ds G fun P F => pathFacts falls (facts P F) := by
  have hgrown := h.beyond.grown hf h.fine h.scopes
  have hvars : varsOf env'.contexts = varsOf env.contexts := vars_of_grown hgrown
  refine ⟨?_, ?_, ?_, ?_⟩
  · refine h.fine.withFacts (fun v hv => ?_) fun v hv => hf.recorded v (hvars ▸ hv)
    refine (h.beyond.init v ?_).symm
    rw [← vars_of_grown h.beyond.contexts]
    exact hv
  · exact ⟨h.beyond.globals, hgrown, fun _ _ => rfl, h.beyond.nextId⟩
  · intro I hI
    cases falls with
    | false => cases hI
    | true =>
      obtain rfl := List.mem_singleton.1 hI
      exact ⟨h.beyond.init, fun v hv => h.fine.recorded v (hvars ▸ hv)⟩
  · intro W P D F ht hc hl
    obtain ⟨hG, ht'⟩ := h.tracks W P D F ht hc hl
    exact ⟨hG, forall₂_pathFacts falls fun l hl => (ht'.alike l hl).fact⟩

theorem Alternatives.trans (hf : env.Fine ids) (h : Alternatives ids env env' paths ds G ends)
    (h' : Alternatives ids env' env'' paths' ds' G' ends')
    (hn : ∀ P : Point, P.Fine → P.Beside (next P) ∧ (next P).slots = P.slots + ds.length) :
    Alternatives ids env env'' (paths ++ paths') (ds ++ ds')
      (fun P D F => G P D F ∧ G' (next P) D F) fun P F => ends P F ++ ends' (next P) F where
  fine := h'.fine
  still := h.still.trans h'.still
  kept := fun I hI => (List.mem_append.1 hI).elim (h.kept I) fun hI => (h'.kept I hI).before h.still
  tracks := by
    intro W P D F ht hc hl
    obtain ⟨⟨hfine, hs, hloops, hcap⟩, hslots⟩ := hn P ht.point
    obtain ⟨hl₁, hl₂⟩ := lists_append.1 hl
    obtain ⟨hG, hp⟩ := h.tracks W P D F ht (List.Subset.trans h'.still.captures hc) hl₁
    obtain ⟨hG', hp'⟩ := h'.tracks W (next P) D F ((ht.still h.still hf).of_same hfine hs hloops)
      (hcap ▸ hc) (hslots ▸ hl₂)
    exact ⟨⟨hG, hG'⟩, List.rel_append hp hp'⟩

/-- The last branch. -/
theorem Alternatives.last (hf : env.Fine ids) (h : Alternatives ids env env' paths ds G ends)
    (h' : Encloses ids env' env'' ds' G' next' facts)
    (hn : ∀ P : Point, P.Fine → P.Beside (next P) ∧ (next P).slots = P.slots + ds.length) :
    Encloses ids env env'' (ds ++ ds') (fun P D F => G P D F ∧ G' (next P) D F)
      (fun P => next' (next P)) fun P F => facts (next P) F where
  fine := h'.fine
  beyond := h.still.beyond.trans h'.beyond
  scopes := h'.scopes.trans h.still.scopes
  tracks := by
    intro W P D F ht hc hl
    obtain ⟨⟨hfine, hs, hloops, hcap⟩, hslots⟩ := hn P ht.point
    obtain ⟨hl₁, hl₂⟩ := lists_append.1 hl
    obtain ⟨hG, -⟩ := h.tracks W P D F ht (List.Subset.trans h'.beyond.captures hc) hl₁
    obtain ⟨hG', ht'⟩ := h'.tracks W (next P) D F ((ht.still h.still hf).of_same hfine hs hloops)
      (hcap ▸ hc) (hslots ▸ hl₂)
    exact ⟨⟨hG, hG'⟩, ht'⟩

theorem Encloses.kept (h : Encloses ids env env' ds G next facts) (hf : env.Fine ids) :
    Kept env env'.init where
  outer := h.beyond.init
  recorded := by
    intro v hv
    refine h.fine.recorded v ?_
    rw [vars_of_grown (h.beyond.grown hf h.fine h.scopes)]
    exact hv

/-- One goes on with other facts than those at the end of the block. -/
theorem Encloses.settle {facts' : Point → InitFacts → InitFacts} {M : InitFacts} (hf : env.Fine ids)
    (h : Encloses ids env env' ds G next facts) (hM : Kept env M)
    (hsame : ∀ W P D F, env.Tracks W P D F → env'.captures ⊆ P.captures → Lists D P.slots ds →
      SameFacts W env'.init (facts P F) → SameFacts W M (facts' P F)) :
    Encloses ids env { env' with init := M } ds G next facts' where
  fine := by
    refine h.fine.withFacts (fun v hv => ?_) fun v hv => hM.recorded v ?_
    · rw [vars_of_grown h.beyond.contexts] at hv
      rw [hM.outer v hv, h.beyond.init v hv]
    · rw [← vars_of_grown (h.beyond.grown hf h.fine h.scopes)]
      exact hv
  beyond := ⟨h.beyond.globals, h.beyond.contexts, hM.outer, h.beyond.nextId, h.beyond.scopes,
    h.beyond.depth, h.beyond.captures⟩
  scopes := h.scopes
  tracks := by
    intro W P D F ht hc hl
    obtain ⟨hG, ht'⟩ := h.tracks W P D F ht hc hl
    have hfacts := hsame W P D F ht hc hl fun l hl => (ht'.alike l hl).fact
    refine ⟨hG, ht'.point, ht'.depth, ht'.scopes, ht'.bindings, fun l hl => ?_⟩
    exact ⟨(ht'.alike l hl).depth, (ht'.alike l hl).declared, hfacts l hl⟩

/-- All branches meet after the last one. -/
theorem Alternatives.meet (hf : env.Fine ids) (h : Alternatives ids env env' paths ds G ends)
    (h' : Encloses ids env' env'' ds' G' next' facts) (falls : Bool)
    (hn : ∀ P : Point, P.Fine → P.Beside (next P) ∧ (next P).slots = P.slots + ds.length) :
    Encloses ids env { env'' with init := .meet (paths ++ pathFacts falls env''.init) env''.init }
      (ds ++ ds') (fun P D F => G P D F ∧ G' (next P) D F) (fun P => next' (next P))
      fun P F => .meet (ends P F ++ pathFacts falls (facts (next P) F)) (facts (next P) F) := by
  have hlast := h.last hf h' hn
  have hkept := hlast.kept hf
  refine hlast.settle hf (Kept.meet hf (fun I hI => ?_) hkept) fun W P D F ht hc hl hsame => ?_
  · rcases List.mem_append.1 hI with hI | hI
    · exact h.kept I hI
    · cases falls with
      | false => cases hI
      | true => rwa [List.mem_singleton.1 hI]
  · obtain ⟨-, hp⟩ :=
      h.tracks W P D F ht (List.Subset.trans h'.beyond.captures hc) (lists_append.1 hl).1
    exact SameFacts.meet (List.rel_append hp (forall₂_pathFacts falls hsame)) hsame

/-- A block that may be left out. -/
theorem Encloses.optional (hf : env.Fine ids) (h : Encloses ids env env' ds G next facts) :
    Encloses ids env { env' with init := env.init.join env'.init } ds G next
      fun P F => F.join (facts P F) :=
  h.settle hf ((kept_init hf).join hf (h.kept hf)) fun _ _ _ _ ht _ _ hsame =>
    SameFacts.join (fun l hl => (ht.alike l hl).fact) hsame

end

end ScopedScript
