import ScopedScript.Proofs.Compile.Points

/-!
# Releases and uses

A `collect` frees only what the rest of its block does not use. So what is found freed where
something uses it has been freed by a `free` statement.
-/

namespace ScopedScript

/-! ## Uses -/

section

variable {u : Use} {hidden : List String}

theorem mem_unlessHidden (hidden : List String) {name : String} {escapes : Bool} :
    u ∈ Use.unlessHidden hidden name escapes ↔
    u ∈ Use.unlessHidden [] name escapes ∧ u.name ∉ hidden := by
  have hnil : Use.unlessHidden [] name escapes = [⟨name, escapes⟩] := rfl
  rw [hnil, List.mem_singleton, Use.unlessHidden]
  split
  · rename_i h
    refine ⟨nofun, fun ⟨hu, hn⟩ => absurd ?_ hn⟩
    rw [hu]
    exact List.contains_iff_mem.1 h
  · rename_i h
    rw [List.mem_singleton]
    refine ⟨fun hu => ⟨hu, fun hm => h ?_⟩, And.left⟩
    rw [hu] at hm
    exact List.contains_iff_mem.2 hm

/-! A hidden name is not used, and nothing else is left out. -/

mutual

theorem mem_exprUses (hidden : List String) : (e : TExpr) →
    (u ∈ exprUses hidden e ↔ u ∈ exprUses [] e ∧ u.name ∉ hidden)
  | .mk kind _ _ => mem_kindUses hidden kind

theorem mem_kindUses (hidden : List String) : (k : TKind) →
    (u ∈ kindUses hidden k ↔ u ∈ kindUses [] k ∧ u.name ∉ hidden)
  | .binding _ => mem_unlessHidden hidden
  | .int _ | .float _ | .bool _ | .string _ | .null | .function _ | .native _ => by
    simp only [kindUses, List.not_mem_nil, false_and]
  | .binary _ left right | .logical _ left right => by
    simp only [kindUses, List.mem_append, mem_exprUses hidden left, mem_exprUses hidden right,
      or_and_right]
  | .unary _ operand => mem_exprUses hidden operand
  | .call _ args => mem_exprsUses hidden args
  | .callValue callee args | .callDynamic callee args => by
    simp only [kindUses, List.mem_append, mem_exprUses hidden callee, mem_exprsUses hidden args,
      or_and_right]
  | .callMethodDynamic _ args => mem_exprsUses hidden args
  | .field object _ _ => mem_exprUses hidden object
  | .structInit _ values => mem_exprsUses hidden values
  | .lambda _ _ _ captures => by
    simp only [kindUses, List.mem_flatMap]
    constructor
    · rintro ⟨name, hn, hu⟩
      exact ⟨⟨name, hn, ((mem_unlessHidden hidden).1 hu).1⟩, ((mem_unlessHidden hidden).1 hu).2⟩
    · rintro ⟨⟨name, hn, hu⟩, hh⟩
      exact ⟨name, hn, (mem_unlessHidden hidden).2 ⟨hu, hh⟩⟩
  | .spawn _ args => mem_exprsUses hidden args
  | .await inner => mem_exprUses hidden inner
  | .box inner => mem_exprUses hidden inner
  | .unbox inner => mem_exprUses hidden inner
  | .cast inner => mem_exprUses hidden inner
  | .format parts => mem_exprsUses hidden parts

theorem mem_exprsUses (hidden : List String) : (es : List TExpr) →
    (u ∈ exprsUses hidden es ↔ u ∈ exprsUses [] es ∧ u.name ∉ hidden)
  | [] => by simp only [exprsUses, List.not_mem_nil, false_and]
  | e :: rest => by
    simp only [exprsUses, List.mem_append, mem_exprUses hidden e, mem_exprsUses hidden rest,
      or_and_right]

end

mutual

theorem mem_stmtUses (hidden : List String) : (s : TStmt) →
    (u ∈ stmtUses hidden s ↔ u ∈ stmtUses [] s ∧ u.name ∉ hidden)
  | .declare _ _ _ none _ | .ret none _ | .breakLoop _ | .continueLoop _ | .collect _
  | .yieldNow _ => by
    simp only [stmtUses, List.not_mem_nil, false_and]
  | .declare _ _ _ (some value) _ => mem_exprUses hidden value
  | .assign target value _ => by
    simp only [stmtUses, List.mem_append, mem_exprUses hidden value, mem_unlessHidden hidden,
      or_and_right]
  | .branch condition thenBlock elifs elseBlock _ => by
    simp only [stmtUses, List.mem_append, mem_exprUses hidden condition,
      mem_blockUses hidden thenBlock, mem_elifsUses hidden elifs,
      mem_elseUses hidden elseBlock, or_and_right]
  | .loop condition body _ => by
    simp only [stmtUses, List.mem_append, mem_exprUses hidden condition, mem_blockUses hidden body,
      or_and_right]
  | .block body _ => mem_blockUses hidden body
  | .ret (some value) _ => by
    simp only [stmtUses, List.mem_append, mem_exprUses hidden value]
    cases returnedName? value with
    | none => simp only [List.not_mem_nil, false_or]
    | some name => rw [mem_unlessHidden hidden, or_and_right]
  | .free _ _ => mem_unlessHidden hidden
  | .eval value _ => mem_exprUses hidden value

theorem mem_blockUses (hidden : List String) : (ss : List TStmt) →
    (u ∈ blockUses hidden ss ↔ u ∈ blockUses [] ss ∧ u.name ∉ hidden)
  | [] => by simp only [blockUses, List.not_mem_nil, false_and]
  | s :: rest => by
    simp only [blockUses, List.mem_append, List.append_nil]
    rw [mem_stmtUses hidden s, mem_blockUses (s.declared ++ hidden) rest,
      mem_blockUses s.declared rest, List.mem_append]
    tauto

theorem mem_elifsUses (hidden : List String) : (elifs : List (TExpr × List TStmt)) →
    (u ∈ elifsUses hidden elifs ↔ u ∈ elifsUses [] elifs ∧ u.name ∉ hidden)
  | [] => by simp only [elifsUses, List.not_mem_nil, false_and]
  | (condition, body) :: rest => by
    simp only [elifsUses, List.mem_append, mem_exprUses hidden condition, mem_blockUses hidden body,
      mem_elifsUses hidden rest, or_and_right]

theorem mem_elseUses (hidden : List String) : (elseBlock : Option (List TStmt)) →
    (u ∈ elseUses hidden elseBlock ↔ u ∈ elseUses [] elseBlock ∧ u.name ∉ hidden)
  | none => by simp only [elseUses, List.not_mem_nil, false_and]
  | some body => mem_blockUses hidden body

end

end

/-! ## Releases -/

mutual

/-- The bindings that are named by `free` statements, with the places of these. -/
def TStmt.releases (P : Point) : TStmt → List (Binding × Option Span)
  | .free name span =>
    match P.resolve? name with
    | some (.slot b) => [(b, span)]
    | _ => []
  | .branch _ thenBlock elifs elseBlock _ =>
    let afterThen := (P.opened.stmts thenBlock).closed
    let last := (Point.elifBranches P.freed afterThen elifs).1.withFreed P.freed
    stmtsReleases P.opened thenBlock ++ elifsReleases P.freed afterThen elifs ++
      elseReleases last elseBlock
  | .loop _ body _ => stmtsReleases P.inLoop.opened body
  | .block body _ => stmtsReleases P.opened body
  | .declare _ _ _ _ _ | .assign _ _ _ | .ret _ _ | .breakLoop _ | .continueLoop _ | .collect _
  | .yieldNow _ | .eval _ _ => []

def stmtsReleases (P : Point) : List TStmt → List (Binding × Option Span)
  | [] => []
  | s :: rest => s.releases P ++ stmtsReleases (P.stmt rest s) rest

def elifsReleases (before : Freed) (P : Point) :
    List (TExpr × List TStmt) → List (Binding × Option Span)
  | [] => []
  | (_, body) :: rest =>
    stmtsReleases (P.withFreed before).opened body ++
      elifsReleases before ((P.withFreed before).opened.stmts body).closed rest

def elseReleases (P : Point) : Option (List TStmt) → List (Binding × Option Span)
  | none => []
  | some body => stmtsReleases P.opened body

end

namespace Point

/-- The bindings that a statement before `rest` frees without naming them. -/
def collected (P : Point) (rest : List TStmt) : TStmt → List Binding
  | .collect _ => P.dead rest
  | _ => []

section

variable (X : Binding → Option Span → Prop)

/-- What is freed at the second point and was not so at the first one: bindings in scope of which
`X` tells it, some of the bindings `ds`, and bindings that were declared on the way. -/
def Frees (P Q : Point) (ds : List Binding) : Prop :=
  ∀ slot span, Q.freed.lookup slot = some span → P.freed.lookup slot = some span ∨
    (∃ b ∈ P.scopes.flatten, b.slot = slot ∧ (X b span ∨ b ∈ ds)) ∨ P.slots ≤ slot ∧ slot < Q.slots

/-- Whether the name may be used: the binding it means has been freed as `X` tells, if at all. -/
def Clear (P : Point) (name : String) : Prop :=
  ∀ b span, P.resolve? name = some (.slot b) → P.freed.lookup b.slot = some span → X b span

end

/-- Only slots that have been given out are freed. -/
def Tidy (P : Point) : Prop := ∀ slot span, P.freed.lookup slot = some span → slot < P.slots

variable {X : Binding → Option Span → Prop} {P Q R : Point} {ds ds' : List Binding}

theorem Frees.refl (P : Point) : P.Frees X P ds := fun _ _ h => .inl h

theorem Frees.weaken (h : P.Frees X Q ds) (hds : ds ⊆ ds') : P.Frees X Q ds' := fun slot span hl =>
  (h slot span hl).imp_right (.imp_left fun ⟨b, hb, hs, hX⟩ => ⟨b, hb, hs, hX.imp_right (hds ·)⟩)

theorem Frees.trans (h : P.Frees X Q ds) (h' : Q.Frees X R ds') (hQ : P.Extends Q)
    (hR : Q.slots ≤ R.slots) (hP : P.scopes ≠ [])
    (hds : ∀ b ∈ ds', b ∈ P.scopes.flatten → b ∈ ds) : P.Frees X R ds := by
  obtain ⟨new, hscopes, hnew, -⟩ := hQ.flatten hP
  intro slot span hl
  rcases h' slot span hl with hl | ⟨b, hb, rfl, hX⟩ | ⟨hge, hlt⟩
  · rcases h slot span hl with hl | hb | ⟨hge, hlt⟩
    · exact .inl hl
    · exact .inr (.inl hb)
    · exact .inr (.inr ⟨hge, hlt.trans_le hR⟩)
  · rw [hscopes, List.mem_append] at hb
    rcases hb with hb | hb
    · exact .inr (.inr ⟨(hnew b hb).1, (hnew b hb).2.1.trans_le hR⟩)
    · exact .inr (.inl ⟨b, hb, rfl, hX.imp_right fun hd => hds b hd hb⟩)
  · exact .inr (.inr ⟨hQ.slots.trans hge, hlt⟩)

/-- Only what is freed and how many slots there are matters at the second point. -/
theorem Frees.beside (h : P.Frees X Q ds) (hf : R.freed = Q.freed) (hs : Q.slots ≤ R.slots) :
    P.Frees X R ds := fun slot span hl => by
  rw [hf] at hl
  exact (h slot span hl).imp_right (.imp_right fun h => ⟨h.1, h.2.trans_le hs⟩)

theorem Frees.tidy (h : P.Frees X Q ds) (hP : P.Fine) (ht : P.Tidy) (hs : P.slots ≤ Q.slots) :
    Q.Tidy := by
  intro slot span hl
  rcases h slot span hl with hl | ⟨b, hb, rfl, -⟩ | ⟨-, hlt⟩
  · exact (ht slot span hl).trans_le hs
  · exact (hP.below b hb).1.trans_le hs
  · exact hlt

theorem lookup_filter (p : Nat → Bool) (a : Freed) (slot : Nat) :
    (a.filter fun f => p f.1).lookup slot = if p slot then a.lookup slot else none := by
  induction a with
  | nil => simp
  | cons f rest ih =>
    obtain ⟨k, span⟩ := f
    rw [List.filter_cons, List.lookup_cons]
    by_cases hk : slot = k
    · subst hk
      cases hp : p slot with
      | true => simp
      | false => simpa [hp] using ih
    · have hne : (slot == k) = false := beq_false_of_ne hk
      cases hp : p k with
      | true => simpa [List.lookup_cons, hne] using ih
      | false => simpa [hne] using ih

/-- What is freed after two paths has been freed on one of them. -/
theorem lookup_merge {a b : Freed} {slot : Nat} {span : Option Span}
    (h : (a.merge b).lookup slot = some span) :
    a.lookup slot = some span ∨ b.lookup slot = some span := by
  rw [Freed.merge, List.lookup_append, lookup_filter fun slot => (b.lookup slot).isNone] at h
  rcases Option.or_eq_some_iff.1 h with h | ⟨-, h⟩
  · exact .inr h
  · split at h
    · exact .inl h
    · cases h

theorem frees_free (name : String) (span : Option Span)
    (hX : ∀ r ∈ (TStmt.free name span).releases P, X r.1 r.2) :
    P.Frees X (P.free name span) ds := by
  rw [TStmt.releases] at hX
  unfold free
  split
  · rename_i b hr
    rw [hr] at hX
    split
    · intro slot span' hl
      simp only [withFreed, List.lookup_cons] at hl
      split at hl
      · rename_i hk
        cases hl
        exact .inr
          (.inl ⟨b, mem_of_resolve? hr, (beq_iff_eq.1 hk).symm, .inl (hX _ List.mem_cons_self)⟩)
      · exact .inl hl
    · exact .refl P
  · exact .refl P

theorem mem_of_lookup_map {bs : List Binding} {span span' : Option Span} {slot : Nat}
    (h : (bs.map fun b => (b.slot, span)).lookup slot = some span') : ∃ b ∈ bs, b.slot = slot := by
  obtain ⟨before, after, hb, -⟩ := List.lookup_eq_some_iff.1 h
  have hmem : (slot, span') ∈ bs.map fun b => (b.slot, span) := hb ▸ by simp
  obtain ⟨b, hb, he⟩ := List.mem_map.1 hmem
  exact ⟨b, hb, congrArg Prod.fst he⟩

theorem frees_collect (hP : P.Fine) (rest : List TStmt) (span : Option Span) :
    P.Frees X (P.collect rest span) (P.dead rest) := by
  intro slot span' hl
  simp only [collect, withFreed, List.lookup_append] at hl
  rcases Option.or_eq_some_iff.1 hl with hl | ⟨-, hl⟩
  · obtain ⟨b, hb, rfl⟩ := mem_of_lookup_map hl
    refine .inr (.inl ⟨b, ?_, rfl, .inr hb⟩)
    rw [flatten_scopes hP.nonempty]
    exact List.mem_append_left _ (mem_deadBindings hb).1
  · exact .inl hl

theorem collected_subset (P : Point) (rest : List TStmt) (s : TStmt) :
    P.collected rest s ⊆ P.scopes.headD [] := by
  cases s with
  | collect => exact fun _ hb => (mem_deadBindings hb).1
  | _ => exact List.nil_subset _

/-- In a scope of its own, of which nothing is left. -/
theorem Frees.closed (h : P.opened.Frees X Q (P.opened.scopes.headD [])) : P.Frees X Q.closed ds :=
  fun slot span hl => (h slot span hl).imp_right (.imp_left fun ⟨b, hb, hs, hX⟩ =>
    ⟨b, hb, hs, .inl (hX.resolve_right fun hm => nomatch hm)⟩)

/-- From a point with the same bindings in scope, after further declarations. -/
theorem Frees.before (h : Q.Frees X R ds) (hf : Q.freed = P.freed) (hs : Q.scopes = P.scopes)
    (hn : P.slots ≤ Q.slots) : P.Frees X R ds := fun slot span hl => by
  have h := h slot span hl
  rw [hf, hs] at h
  exact h.imp_right (.imp_right fun h => ⟨hn.trans h.1, h.2⟩)

theorem Frees.merge {a b : Freed} (ha : P.Frees X (Q.withFreed a) ds)
    (hb : P.Frees X (Q.withFreed b) ds) :
    P.Frees X (Q.withFreed (a.merge b)) ds := fun slot span hl =>
  (lookup_merge hl).elim (ha slot span) (hb slot span)

mutual

theorem frees_stmt {P : Point} (hP : P.Fine) (rest : List TStmt) : (s : TStmt) →
    (∀ r ∈ s.releases P, X r.1 r.2) → P.Frees X (P.stmt rest s) (P.collected rest s)
  | .branch _ thenBlock elifs elseBlock _, hX => by
    let after := (P.opened.stmts thenBlock).closed
    let middle := elifBranches P.freed after elifs
    let last := elseBranch (middle.1.withFreed P.freed) elseBlock
    simp only [TStmt.releases, List.forall_mem_append] at hX
    obtain ⟨⟨ht, hm⟩, hl⟩ := hX
    have hthen := beside_block hP thenBlock
    have hextends := extends_stmts hP.opened thenBlock
    have hmiddle := branches_elifBranches P.freed hthen.fine elifs
    have hfine : (middle.1.withFreed P.freed).Fine :=
      hthen.fine.of_same hmiddle.scopes hmiddle.slots hmiddle.loops
    have helse := (extends_elseBranch hfine elseBlock).1.slots
    have ht : P.Frees X after [] := (frees_stmts hP.opened thenBlock ht).closed
    have hm := frees_elifBranches P.freed hthen.fine elifs hm
    have hl := frees_elseBranch hfine elseBlock hl
    refine Frees.merge (.merge ?_ ?_) ?_
    · exact ht.beside rfl (hmiddle.slots.trans helse)
    · exact (hm.before (P := P) rfl hthen.scopes hextends.slots).beside rfl helse
    · exact (hl.before (P := P) rfl (hmiddle.scopes.trans hthen.scopes)
        (hextends.slots.trans hmiddle.slots)).beside rfl le_rfl
  | .loop _ body _, hX => (frees_stmts hP.inLoop_opened body hX).closed (P := P.inLoop)
  | .block body _, hX => (frees_stmts hP.opened body hX).closed
  | .free name span, hX => frees_free name span hX
  | .collect span, _ => frees_collect hP rest span
  | .declare _ _ _ _ _, _ => fun _ _ hl => .inl hl
  | .assign _ _ _, _ | .ret _ _, _ | .breakLoop _, _ | .continueLoop _, _ | .yieldNow _, _
  | .eval _ _, _ =>
    .refl P

theorem frees_stmts {P : Point} (hP : P.Fine) :
    (ss : List TStmt) → (∀ r ∈ stmtsReleases P ss, X r.1 r.2) →
    P.Frees X (P.stmts ss) (P.scopes.headD [])
  | [], _ => .refl P
  | s :: rest, hX => by
    rw [stmtsReleases, List.forall_mem_append] at hX
    have hs := extends_stmt hP rest s
    have h := frees_stmt hP rest s hX.1
    have h' := frees_stmts (hP.extend hs) rest hX.2
    refine (h.weaken (collected_subset P rest s)).trans h' hs
      (extends_stmts (hP.extend hs) rest).slots hP.nonempty fun b hb hbP => ?_
    obtain ⟨new, hhead, hnew, -⟩ := hs.head
    rw [hhead, List.mem_append] at hb
    refine hb.resolve_left fun hb => ?_
    have := (hP.below b hbP).1
    have := (hnew b hb).1
    omega

/-- The point after further branches has what is freed at the end of any of them. -/
theorem frees_elifBranches {P : Point} (before : Freed) (hP : P.Fine) :
    (elifs : List (TExpr × List TStmt)) → (∀ r ∈ elifsReleases before P elifs, X r.1 r.2) →
    (P.withFreed before).Frees X
      ((P.elifBranches before elifs).1.withFreed (P.elifBranches before elifs).2) []
  | [], _ => fun _ _ hl => nomatch hl
  | (_, body) :: rest, hX => by
    rw [elifsReleases, List.forall_mem_append] at hX
    have hb : (P.withFreed before).Fine := hP.of_same rfl le_rfl rfl
    have hbody := beside_block hb body
    have hextends := extends_stmts hb.opened body
    have hlater := branches_elifBranches before hbody.fine rest
    have h : (P.withFreed before).Frees X _ [] := (frees_stmts hb.opened body hX.1).closed
    have h' := frees_elifBranches before hbody.fine rest hX.2
    refine Frees.merge ?_ ?_
    · exact h.beside rfl hlater.slots
    · exact h'.before rfl hbody.scopes hextends.slots

theorem frees_elseBranch {P : Point} (hP : P.Fine) : (elseBlock : Option (List TStmt)) →
    (∀ r ∈ elseReleases P elseBlock, X r.1 r.2) → P.Frees X (P.elseBranch elseBlock) []
  | none, _ => .refl P
  | some body, hX => (frees_stmts hP.opened body hX).closed

end

theorem tidy_stmt (hP : P.Fine) (ht : P.Tidy) (rest : List TStmt) (s : TStmt) :
    (P.stmt rest s).Tidy :=
  (frees_stmt (X := fun _ _ => True) hP rest s fun _ _ => trivial).tidy hP ht
    (extends_stmt hP rest s).slots

/-! ## What the rest of a block uses -/

theorem scopes_stmt (hP : P.Fine) (rest : List TStmt) (s : TStmt) (h : s.declared = []) :
    (P.stmt rest s).scopes = P.scopes := by
  cases s with
  | declare => cases h
  | branch condition thenBlock elifs elseBlock span =>
    have hthen := beside_block hP thenBlock
    have hmiddle := beside_elifBranches hthen.fine P.freed elifs
    exact (beside_elseBranch (hmiddle.withFreed P.freed).fine elseBlock).scopes.trans
      (hmiddle.scopes.trans hthen.scopes)
  | loop condition body span =>
    exact scopes_closed (P := P.inLoop) (extends_stmts hP.inLoop_opened body)
  | block body span => exact (beside_block hP body).scopes
  | free name span =>
    change (P.free name span).scopes = P.scopes
    unfold free
    split
    · split <;> rfl
    · rfl
  | assign | ret | breakLoop | continueLoop | collect | yieldNow | eval => rfl

theorem name_of_resolve? {name : String} {b : Binding} (h : P.resolve? name = some (.slot b)) :
    b.name = name := by
  rw [resolve?] at h
  split at h
  · cases h
    obtain ⟨scope, -, hb⟩ := List.exists_of_findSome?_eq_some ‹_›
    exact beq_iff_eq.1 (List.find?_some (p := fun c : Binding => c.name == name) hb)
  · obtain ⟨i, -, hi⟩ := Option.map_eq_some_iff.1 h
    cases hi

theorem resolve?_congr (hs : Q.scopes = P.scopes) (hc : Q.captures = P.captures) (name : String) :
    Q.resolve? name = P.resolve? name := by
  rw [resolve?, resolve?, hs, hc]

theorem resolve?_declare (hP : P.scopes ≠ []) (name : String) (span : Option Span) (n : String) :
    (P.declare name span).resolve? n =
      if n = name then some (.slot ⟨name, P.slots, span, P.loops⟩) else P.resolve? n := by
  obtain ⟨scope, outer, hs⟩ := List.exists_cons_of_ne_nil hP
  by_cases hn : n = name
  · subst hn
    simp [resolve?, declare, hs]
  · have hne : (name == n) = false := beq_false_of_ne (Ne.symm hn)
    rw [if_neg hn, resolve?, resolve?, declare, hs]
    simp only [List.findSome?_cons, List.find?_cons, hne]

/-- The binding that a used name means is not taken for dead. -/
theorem not_mem_deadBindings {freed : Freed} {uses : List Use} {u : Use} (hu : u ∈ uses)
    {b : Binding} (scope : List Binding) (newer : List String) (hn : u.name ∉ newer)
    (hd : (scope.map Binding.slot).Nodup) (hb : (scope.find? fun c => c.name == u.name) = some b) :
    b ∉ Emit.deadBindings freed uses newer scope := by
  induction scope generalizing newer with
  | nil => cases hb
  | cons c older ih =>
    rw [List.map_cons, List.nodup_cons] at hd
    rw [List.find?_cons] at hb
    simp only [Emit.deadBindings]
    split at hb
    · rename_i hc
      obtain rfl := Option.some.inj hb
      have hname := beq_iff_eq.1 hc
      have hneeded : (!newer.contains c.name && uses.any fun u => u.name == c.name) = true := by
        rw [Bool.and_eq_true, Bool.not_eq_true', List.any_eq_true]
        refine ⟨?_, u, hu, beq_iff_eq.2 hname.symm⟩
        rw [hname]
        simpa using hn
      rw [hneeded, Bool.not_true, Bool.and_false, if_neg Bool.false_ne_true]
      exact fun hm => hd.1 (List.mem_map.2 ⟨c, (mem_deadBindings hm).1, rfl⟩)
    · rename_i hc
      have hne : c.name ≠ u.name := by simpa using hc
      have hold := ih (c.name :: newer) (by simp [hn, Ne.symm hne]) hd.2 hb
      split
      · refine fun hm => (List.mem_cons.1 hm).elim (fun he => hne ?_) hold
        have := List.find?_some hb
        rw [← he]
        exact beq_iff_eq.1 this
      · exact hold

/-- A binding that the rest of its block uses is not freed by `collect`. -/
theorem not_mem_dead (hP : P.Fine) {rest : List TStmt} {u : Use} (hu : u ∈ blockUses [] rest)
    {b : Binding} (hb : P.resolve? u.name = some (.slot b)) : b ∉ P.dead rest := by
  intro hm
  obtain ⟨scope, outer, hs⟩ := List.exists_cons_of_ne_nil hP.nonempty
  have hmem : b ∈ scope := by
    have := (mem_deadBindings hm).1
    rwa [hs] at this
  have hd : (scope.map Binding.slot).Nodup := by
    have := hP.distinct
    rw [hs, List.flatten_cons, List.map_append] at this
    exact this.of_append_left
  rw [dead, hs] at hm
  rw [resolve?, hs, List.findSome?_cons] at hb
  cases hf : scope.find? fun c => c.name == u.name with
  | some c =>
    rw [hf] at hb
    cases hb
    exact not_mem_deadBindings hu scope [] List.not_mem_nil hd hf hm
  | none =>
    -- the name means a binding of an outer scope, which is not collected
    rw [hf] at hb
    split at hb
    · rename_i c hc
      cases hb
      obtain ⟨s, -, hc⟩ := List.exists_of_findSome?_eq_some hc
      have hname : (b.name == u.name) = true :=
        List.find?_some (p := fun c : Binding => c.name == u.name) hc
      exact List.find?_eq_none.1 hf b hmem hname
    · obtain ⟨i, -, hi⟩ := Option.map_eq_some_iff.1 hb
      cases hi

/-- What may be used before a statement and by those after it may be used after it. -/
theorem clear_stmt (hP : P.Fine) (ht : P.Tidy) (rest : List TStmt) (s : TStmt)
    (hX : ∀ r ∈ s.releases P, X r.1 r.2) (h : ∀ u ∈ blockUses [] (s :: rest), P.Clear X u.name) :
    ∀ u ∈ blockUses [] rest, (P.stmt rest s).Clear X u.name := by
  intro u hu b span hb hl
  by_cases hd : s.declared = []
  · have hmem : u ∈ blockUses [] (s :: rest) := by
      rw [blockUses, hd]
      exact List.mem_append_right _ hu
    rw [resolve?_congr (scopes_stmt hP rest s hd) (extends_stmt hP rest s).captures] at hb
    rcases frees_stmt hP rest s hX b.slot span hl with hl | ⟨c, hc, hslot, hX⟩ | ⟨hge, -⟩
    · exact h u hmem b span hb hl
    · obtain rfl := hP.slot_inj hc (mem_of_resolve? hb) hslot
      refine hX.resolve_right fun hdead => ?_
      cases s with
      | collect => exact not_mem_dead hP hu hb hdead
      | _ => cases hdead
    · exact absurd (hP.below b (mem_of_resolve? hb)).1 (Nat.not_lt.2 hge)
  · cases s with
    | declare name mutable ty value declaredAt =>
      change P.freed.lookup b.slot = some span at hl
      change (P.declare name declaredAt).resolve? u.name = _ at hb
      rw [resolve?_declare hP.nonempty] at hb
      split at hb
      · cases hb
        exact absurd (ht _ _ hl) (Nat.lt_irrefl _)
      · rename_i hn
        refine h u ?_ b span hb hl
        refine List.mem_append_right _ ((mem_blockUses _ rest).2 ⟨hu, ?_⟩)
        simpa [TStmt.declared] using hn
    | _ => exact absurd rfl hd

end Point

end ScopedScript
