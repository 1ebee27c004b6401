import ScopedScript.Proofs.Compile.Resolution
import ScopedScript.Proofs.Typing.Captures

/-!
# What `collect` frees

Occurrences of names are followed to what they mean by the scopes of each function, from the inside
of lambdas outwards. The compiler reads off names alone what the rest of a block needs. Where
lambdas capture what they use, both agree: a `collect` frees exactly the bindings of its scope to
which nothing that follows leads.
-/

namespace ScopedScript

deriving instance DecidableEq for Binding

/-- What a name stands for in a function: one of its bindings, or what the name stands for where the
function is made. -/
inductive Meaning
  | own (b : Binding)
  | outer (name : String)
deriving DecidableEq

def Point.meaning (P : Point) (name : String) : Meaning :=
  match P.scopes.findSome? fun scope => scope.find? fun b => b.name == name with
  | some b => .own b
  | none => .outer name

/-- A name of a lambda, looked up where the lambda is made unless it is one of the lambda's own. -/
def Point.further (P : Point) : Meaning → Option Meaning
  | .own _ => none
  | .outer name => some (P.meaning name)

mutual

/-- What the names in an expression stand for: those that are read, and those in lambdas at any
depth. -/
def TExpr.occurrences (P : Point) : TExpr → List Meaning
  | .mk kind _ _ => kind.occurrences P

def TKind.occurrences (P : Point) : TKind → List Meaning
  | .int _ | .float _ | .bool _ | .string _ | .null | .function _ | .native _ => []
  | .binding name => [P.meaning name]
  | .binary _ left right => left.occurrences P ++ right.occurrences P
  | .unary _ operand => operand.occurrences P
  | .logical _ left right => left.occurrences P ++ right.occurrences P
  | .call _ args => exprsOccurrences P args
  | .callValue callee args => callee.occurrences P ++ exprsOccurrences P args
  | .callDynamic callee args => callee.occurrences P ++ exprsOccurrences P args
  | .callMethodDynamic _ args => exprsOccurrences P args
  | .field object _ _ => object.occurrences P
  | .structInit _ values => exprsOccurrences P values
  | .lambda params ret body captures =>
    (stmtsOccurrences (.start ⟨params, ret, body, captures, false, none⟩) body).filterMap P.further
  | .spawn _ args => exprsOccurrences P args
  | .await task => task.occurrences P
  | .box inner => inner.occurrences P
  | .unbox inner => inner.occurrences P
  | .cast inner => inner.occurrences P
  | .format parts => exprsOccurrences P parts

def exprsOccurrences (P : Point) : List TExpr → List Meaning
  | [] => []
  | e :: rest => e.occurrences P ++ exprsOccurrences P rest

/-- As for expressions, with the names that a statement assigns to or frees. -/
def TStmt.occurrences (P : Point) : TStmt → List Meaning
  | .declare _ _ _ (some value) _ => value.occurrences P
  | .assign target value _ => value.occurrences P ++ [P.meaning target.name]
  | .branch condition thenBlock elifs elseBlock _ =>
    let afterThen := (P.opened.stmts thenBlock).closed
    let last := (Point.elifBranches P.freed afterThen elifs).1.withFreed P.freed
    condition.occurrences P ++ stmtsOccurrences P.opened thenBlock ++
      elifsOccurrences P.freed afterThen elifs ++ elseOccurrences last elseBlock
  | .loop condition body _ => condition.occurrences P ++ stmtsOccurrences P.inLoop.opened body
  | .block body _ => stmtsOccurrences P.opened body
  | .ret (some value) _ => value.occurrences P
  | .free name _ => [P.meaning name]
  | .eval value _ => value.occurrences P
  | .declare _ _ _ none _ | .ret none _ | .breakLoop _ | .continueLoop _ | .collect _
  | .yieldNow _ => []

def stmtsOccurrences (P : Point) : List TStmt → List Meaning
  | [] => []
  | s :: rest => s.occurrences P ++ stmtsOccurrences (P.stmt rest s) rest

def elifsOccurrences (before : Freed) (P : Point) : List (TExpr × List TStmt) → List Meaning
  | [] => []
  | (condition, body) :: rest =>
    condition.occurrences (P.withFreed before) ++ stmtsOccurrences
      (P.withFreed before).opened body ++
      elifsOccurrences before ((P.withFreed before).opened.stmts body).closed rest

def elseOccurrences (P : Point) : Option (List TStmt) → List Meaning
  | none => []
  | some body => stmtsOccurrences P.opened body

end

/-! ## Meanings -/

namespace Point

variable {P Q : Point} {name : String} {m : Meaning}

theorem meaning_congr (h : Q.scopes = P.scopes) : Q.meaning = P.meaning := by
  funext name
  rw [meaning, meaning, h]

theorem meaning_opened (P : Point) : P.opened.meaning = P.meaning := rfl

theorem meaning_declare (hP : P.scopes ≠ []) (n : String) (span : Option Span) (name : String) :
    (P.declare n span).meaning name =
      if name = n then .own ⟨n, P.slots, span, P.loops⟩ else P.meaning name := by
  obtain ⟨scope, outer, hs⟩ := List.exists_cons_of_ne_nil hP
  by_cases hn : name = n
  · subst hn
    simp [meaning, declare, hs]
  · have hne : (n == name) = false := beq_false_of_ne (Ne.symm hn)
    rw [if_neg hn, meaning, meaning, declare, hs]
    simp only [List.findSome?_cons, List.find?_cons, hne]

/-- What a name can stand for at the point; other bindings are still to be declared. -/
def MayMean (P : Point) : Meaning → Prop
  | .own b => b.slot < P.slots
  | .outer _ => True

theorem MayMean.mono (h : P.MayMean m) (hs : P.slots ≤ Q.slots) : Q.MayMean m := by
  cases m with
  | own b => exact Nat.lt_of_lt_of_le h hs
  | outer name => trivial

/-- A statement hides what it declares. -/
theorem image_stmt (hP : P.Fine) (rest : List TStmt) (s : TStmt) (hm : P.MayMean m)
    (N : Set String) :
    m ∈ (P.stmt rest s).meaning '' N ↔ m ∈ P.meaning '' (N \ {name | name ∈ s.declared}) := by
  by_cases hd : s.declared = []
  · rw [meaning_congr (scopes_stmt hP rest s hd), hd]
    simp
  · cases s with
    | declare n mutable ty value span =>
      change (∃ name ∈ N, (P.declare n span).meaning name = m) ↔
        ∃ name, (name ∈ N ∧ name ∉ [n]) ∧ P.meaning name = m
      constructor
      · rintro ⟨name, hname, heq⟩
        rw [meaning_declare hP.nonempty] at heq
        split at heq
        · subst heq
          exact absurd hm (Nat.lt_irrefl _)
        · rename_i hne
          exact ⟨name, ⟨hname, by simpa using hne⟩, heq⟩
      · rintro ⟨name, ⟨hname, hne⟩, heq⟩
        refine ⟨name, hname, ?_⟩
        rw [meaning_declare hP.nonempty, if_neg (by simpa using hne)]
        exact heq
    | _ => exact absurd rfl hd

theorem mem_further {P : Point} {ms : List Meaning} : m ∈ ms.filterMap P.further ↔
    ∃ name, .outer name ∈ ms ∧ P.meaning name = m := by
  rw [List.mem_filterMap]
  constructor
  · rintro ⟨k, hk, he⟩
    cases k with
    | own b => cases he
    | outer name => exact ⟨name, hk, Option.some.inj he⟩
  · rintro ⟨name, hk, rfl⟩
    exact ⟨_, hk, rfl⟩

/-- At the start of a lambda its parameters are all that it has. -/
theorem meaning_start (b : Body) (name : String) :
    (Point.start b).meaning name = .outer name ↔ name ∉ b.params.map TParam.name := by
  have h (params : List TParam) (Q : Point) (hQ : Q.Fine) :
      (params.foldl (fun P p => P.declare p.name p.span) Q).meaning name = .outer name ↔
        Q.meaning name = .outer name ∧ name ∉ params.map TParam.name := by
    induction params generalizing Q with
    | nil => simp
    | cons p rest ih =>
      rw [List.foldl_cons, ih _ (hQ.extend (extends_declare hQ p.name p.span)),
        meaning_declare hQ.nonempty, List.map_cons, List.mem_cons]
      by_cases hn : name = p.name <;> simp [hn]
  have h₀ : Fine ⟨b.captures, [[]], [], 0, 0⟩ := ⟨by simp, nofun, nofun, by simp⟩
  exact (h b.params _ h₀).trans (and_iff_right rfl)

/-- What stands for something further out has kept its name. -/
theorem name_of_outer {n : String} (h : P.meaning name = .outer n) : n = name := by
  rw [meaning] at h
  split at h
  · cases h
  · exact (Meaning.outer.inj h).symm

end Point

/-! ## Occurrences and uses -/

mutual

theorem mem_exprOccurrences {m : Meaning} (P : Point) : (e : TExpr) → AllSealed (exprBodies e) →
    (m ∈ e.occurrences P ↔ m ∈ P.meaning '' usedNames (exprUses [] e))
  | .mk kind _ span, h => mem_kindOccurrences P span kind h

theorem mem_kindOccurrences {m : Meaning} (P : Point) (span : Option Span) :
    (k : TKind) → AllSealed (kindBodies span k) →
    (m ∈ k.occurrences P ↔ m ∈ P.meaning '' usedNames (kindUses [] k))
  | .binding name, _ => by
    rw [TKind.occurrences, kindUses, usedNames_unlessHidden, Set.image_singleton,
      List.mem_singleton, Set.mem_singleton_iff]
  | .int _, _ | .float _, _ | .bool _, _ | .string _, _ | .null, _ | .function _, _
  | .native _, _ => by
    rw [TKind.occurrences, kindUses, usedNames_nil, Set.image_empty, Set.mem_empty_iff_false,
      List.mem_nil_iff]
  | .binary _ left right, h | .logical _ left right, h => by
    obtain ⟨hl, hr⟩ := allSealed_append.1 h
    rw [TKind.occurrences, kindUses, usedNames_append, Set.image_union, List.mem_append,
      Set.mem_union, mem_exprOccurrences P left hl, mem_exprOccurrences P right hr]
  | .unary _ operand, h => mem_exprOccurrences P operand h
  | .call _ args, h => mem_exprsOccurrences P args h
  | .callValue callee args, h | .callDynamic callee args, h => by
    obtain ⟨hc, ha⟩ := allSealed_append.1 h
    rw [TKind.occurrences, kindUses, usedNames_append, Set.image_union, List.mem_append,
      Set.mem_union, mem_exprOccurrences P callee hc, mem_exprsOccurrences P args ha]
  | .callMethodDynamic _ args, h => mem_exprsOccurrences P args h
  | .field object _ _, h => mem_exprOccurrences P object h
  | .structInit _ values, h => mem_exprsOccurrences P values h
  | .lambda params ret body captures, h => by
    obtain ⟨hbody, hself⟩ := allSealed_append.1 h
    let b : Body := ⟨params, ret, body, captures, false, none⟩
    have hsealed (name : String) : name ∈ captures ↔
        name ∈ usedNames (blockUses [] body) ∧ name ∉ params.map TParam.name :=
      hself _ List.mem_cons_self name
    rw [TKind.occurrences, kindUses, usedNames_captures, Point.mem_further]
    constructor
    · rintro ⟨name, hname, hm⟩
      obtain ⟨n, hn, hmeaning⟩ :=
        (mem_stmtsOccurrences (m := .outer name) (Point.fine_start b) trivial body hbody).1 hname
      obtain rfl := Point.name_of_outer hmeaning
      exact ⟨name, (hsealed name).2 ⟨hn, (Point.meaning_start b name).1 hmeaning⟩, hm⟩
    · rintro ⟨name, hname, hm⟩
      obtain ⟨hused, hparams⟩ := (hsealed name).1 hname
      refine ⟨name, ?_, hm⟩
      exact (mem_stmtsOccurrences (m := .outer name) (Point.fine_start b) trivial body hbody).2
        ⟨name, hused, (Point.meaning_start b name).2 hparams⟩
  | .spawn _ args, h => mem_exprsOccurrences P args h
  | .await task, h => mem_exprOccurrences P task h
  | .box inner, h => mem_exprOccurrences P inner h
  | .unbox inner, h => mem_exprOccurrences P inner h
  | .cast inner, h => mem_exprOccurrences P inner h
  | .format parts, h => mem_exprsOccurrences P parts h

theorem mem_exprsOccurrences {m : Meaning} (P : Point) :
    (es : List TExpr) → AllSealed (exprsBodies es) →
    (m ∈ exprsOccurrences P es ↔ m ∈ P.meaning '' usedNames (exprsUses [] es))
  | [], _ => by
    rw [exprsOccurrences, exprsUses, usedNames_nil, Set.image_empty, Set.mem_empty_iff_false,
      List.mem_nil_iff]
  | e :: rest, h => by
    obtain ⟨he, hr⟩ := allSealed_append.1 h
    rw [exprsOccurrences, exprsUses, usedNames_append, Set.image_union, List.mem_append,
      Set.mem_union, mem_exprOccurrences P e he, mem_exprsOccurrences P rest hr]

theorem mem_stmtOccurrences {m : Meaning} {P : Point} (hP : P.Fine) (hm : P.MayMean m) :
    (s : TStmt) → AllSealed (stmtBodies s) →
    (m ∈ s.occurrences P ↔ m ∈ P.meaning '' usedNames (stmtUses [] s))
  | .declare _ _ _ none _, _ | .ret none _, _ | .breakLoop _, _ | .continueLoop _, _ | .collect _, _
  | .yieldNow _, _ => by
    rw [TStmt.occurrences, stmtUses, usedNames_nil, Set.image_empty, Set.mem_empty_iff_false,
      List.mem_nil_iff]
  | .declare _ _ _ (some value) _, h => mem_exprOccurrences P value h
  | .assign target value _, h => by
    rw [TStmt.occurrences, stmtUses, usedNames_append, Set.image_union, List.mem_append,
      Set.mem_union, mem_exprOccurrences P value h, usedNames_unlessHidden, Set.image_singleton,
      List.mem_singleton, Set.mem_singleton_iff]
  | .branch condition thenBlock elifs elseBlock _, h => by
    simp only [stmtBodies, allSealed_append] at h
    obtain ⟨⟨⟨hc, ht⟩, hm'⟩, hl⟩ := h
    have hthen := Point.beside_block hP thenBlock
    have hslots := (Point.extends_stmts hP.opened thenBlock).slots
    have helifs := Point.branches_elifBranches P.freed hthen.fine elifs
    have hlast : ((Point.elifBranches P.freed (P.opened.stmts thenBlock).closed
        elifs).1.withFreed P.freed).Fine :=
      hthen.fine.of_same helifs.scopes helifs.slots helifs.loops
    have hmeaning : ((Point.elifBranches P.freed (P.opened.stmts thenBlock).closed
        elifs).1.withFreed P.freed).meaning = P.meaning :=
      Point.meaning_congr (helifs.scopes.trans hthen.scopes)
    rw [TStmt.occurrences, stmtUses, usedNames_append, usedNames_append, usedNames_append,
      Set.image_union, Set.image_union, Set.image_union, List.mem_append, List.mem_append,
      List.mem_append, Set.mem_union, Set.mem_union, Set.mem_union,
      mem_exprOccurrences P condition hc, mem_stmtsOccurrences hP.opened hm thenBlock ht,
      mem_elifsOccurrences P.freed hthen.fine (hm.mono hslots) elifs hm',
      mem_elseOccurrences hlast (hm.mono (hslots.trans helifs.slots)) elseBlock hl]
    rw [Point.meaning_opened, Point.meaning_congr hthen.scopes, hmeaning]
  | .loop condition body _, h => by
    obtain ⟨hc, hb⟩ := allSealed_append.1 h
    rw [TStmt.occurrences, stmtUses, usedNames_append, Set.image_union, List.mem_append,
      Set.mem_union, mem_exprOccurrences P condition hc,
      mem_stmtsOccurrences hP.inLoop_opened hm body hb]
    rfl
  | .block body _, h => mem_stmtsOccurrences hP.opened hm body h
  | .ret (some value) span, h => by
    rw [usedNames_ret]
    exact mem_exprOccurrences P value h
  | .free name _, _ => by
    rw [TStmt.occurrences, stmtUses, usedNames_unlessHidden, Set.image_singleton,
      List.mem_singleton, Set.mem_singleton_iff]
  | .eval value _, h => mem_exprOccurrences P value h

theorem mem_stmtsOccurrences {m : Meaning} {P : Point} (hP : P.Fine) (hm : P.MayMean m) :
    (ss : List TStmt) →
    AllSealed (stmtsBodies ss) →
    (m ∈ stmtsOccurrences P ss ↔ m ∈ P.meaning '' usedNames (blockUses [] ss))
  | [], _ => by
    rw [stmtsOccurrences, blockUses, usedNames_nil, Set.image_empty, Set.mem_empty_iff_false,
      List.mem_nil_iff]
  | s :: rest, h => by
    obtain ⟨hs, hr⟩ := allSealed_append.1 h
    have he := Point.extends_stmt hP rest s
    rw [stmtsOccurrences, usedNames_cons, Set.image_union, List.mem_append, Set.mem_union,
      mem_stmtOccurrences hP hm s hs,
      mem_stmtsOccurrences (hP.extend he) (hm.mono he.slots) rest hr, Point.image_stmt hP rest s hm]

theorem mem_elifsOccurrences {m : Meaning} {P : Point} (before : Freed) (hP : P.Fine)
    (hm : P.MayMean m) : (elifs : List (TExpr × List TStmt)) → AllSealed (elifsBodies elifs) →
    (m ∈ elifsOccurrences before P elifs ↔ m ∈ P.meaning '' usedNames (elifsUses [] elifs))
  | [], _ => by
    rw [elifsOccurrences, elifsUses, usedNames_nil, Set.image_empty, Set.mem_empty_iff_false,
      List.mem_nil_iff]
  | (condition, body) :: rest, h => by
    simp only [elifsBodies, allSealed_append] at h
    obtain ⟨⟨hc, hb⟩, hr⟩ := h
    have hfine : (P.withFreed before).Fine := hP.of_same rfl le_rfl rfl
    have hbody := Point.beside_block hfine body
    have hslots := (Point.extends_stmts hfine.opened body).slots
    rw [elifsOccurrences, elifsUses, usedNames_append, usedNames_append, Set.image_union,
      Set.image_union, List.mem_append, List.mem_append, Set.mem_union, Set.mem_union,
      mem_exprOccurrences _ condition hc, mem_stmtsOccurrences hfine.opened hm body hb,
      mem_elifsOccurrences before hbody.fine (hm.mono hslots) rest hr]
    rw [Point.meaning_congr (P := P) hbody.scopes]
    rfl

theorem mem_elseOccurrences {m : Meaning} {P : Point} (hP : P.Fine) (hm : P.MayMean m) :
    (elseBlock : Option (List TStmt)) → AllSealed (elseBodies elseBlock) →
    (m ∈ elseOccurrences P elseBlock ↔ m ∈ P.meaning '' usedNames (elseUses [] elseBlock))
  | none, _ => by
    rw [elseOccurrences, elseUses, usedNames_nil, Set.image_empty, Set.mem_empty_iff_false,
      List.mem_nil_iff]
  | some body, h => mem_stmtsOccurrences hP.opened hm body h

end

/-! ## Dead bindings -/

namespace Point

theorem deadBindings_eq {freed : Freed} {uses : List Use} (before scope : List Binding)
    (newer : List String) (hn : ∀ name, name ∈ newer ↔ name ∈ before.map Binding.name)
    (hd : ((before ++ scope).map Binding.slot).Nodup) :
    Emit.deadBindings freed uses newer scope = scope.filter fun b => (freed.lookup b.slot).isNone &&
      !(decide ((before ++ scope).find? (fun c => c.name == b.name) = some b) &&
        uses.any fun u => u.name == b.name) := by
  induction scope generalizing before newer with
  | nil => rfl
  | cons b older ih =>
    have hvisible : (!newer.contains b.name) =
        decide ((before ++ b :: older).find? (fun c => c.name == b.name) = some b) := by
      rw [List.find?_append]
      cases hf : before.find? fun c => c.name == b.name with
      | none =>
        have hnew : b.name ∉ newer := fun h => by
          obtain ⟨c, hc, he⟩ := List.mem_map.1 ((hn _).1 h)
          exact List.find?_eq_none.1 hf c hc (beq_iff_eq.2 he)
        simp [hnew]
      | some c =>
        have hc := List.mem_of_find?_eq_some hf
        have hname : c.name = b.name :=
          beq_iff_eq.1 (List.find?_some (p := fun c : Binding => c.name == b.name) hf)
        have hne : c ≠ b := by
          rintro rfl
          rw [List.map_append, List.nodup_append] at hd
          exact hd.2.2 _ (List.mem_map_of_mem hc) _ (List.mem_map_of_mem List.mem_cons_self) rfl
        have hnew : b.name ∈ newer := (hn _).2 (List.mem_map.2 ⟨c, hc, hname⟩)
        simp [hnew, hne]
    have hold := ih (before ++ [b]) (b.name :: newer) (fun name => by
      rw [List.mem_cons, hn, List.map_append, List.mem_append, List.map_singleton,
        List.mem_singleton, or_comm])
      (by rwa [List.append_assoc])
    rw [List.append_assoc] at hold
    simp only [Emit.deadBindings, hvisible, List.filter_cons]
    rw [hold]
    rfl

variable {P : Point} {name : String} {b : Binding}

theorem name_of_own (h : P.meaning name = .own b) : b.name = name := by
  rw [meaning] at h
  split at h
  · cases h
    obtain ⟨scope, -, hb⟩ := List.exists_of_findSome?_eq_some ‹_›
    exact beq_iff_eq.1 (List.find?_some (p := fun c : Binding => c.name == name) hb)
  · cases h

/-- A binding of the innermost scope is visible when it is the newest one of its name there. -/
theorem meaning_eq_own {scope : List Binding} {outer : List (List Binding)}
    (hs : P.scopes = scope :: outer) (hb : b ∈ scope) : P.meaning b.name = .own b ↔
    scope.find? (fun c => c.name == b.name) = some b := by
  obtain ⟨c, hc⟩ : ∃ c, scope.find? (fun c => c.name == b.name) = some c :=
    Option.isSome_iff_exists.1 (List.find?_isSome.2 ⟨b, hb, beq_iff_eq.2 rfl⟩)
  rw [meaning, hs, List.findSome?_cons, hc]
  exact ⟨fun h => congrArg some (Meaning.own.inj h), fun h =>
    congrArg Meaning.own (Option.some.inj h)⟩

/-- What is dead before statements is what nothing in them leads to, if it has not been freed. -/
theorem dead_eq (hP : P.Fine) (rest : List TStmt) (h : AllSealed (stmtsBodies rest)) :
    P.dead rest = (P.scopes.headD []).filter fun b =>
      (P.freed.lookup b.slot).isNone && decide (.own b ∉ stmtsOccurrences P rest) := by
  obtain ⟨scope, outer, hs⟩ := List.exists_cons_of_ne_nil hP.nonempty
  have hflat : P.scopes.flatten = scope ++ outer.flatten := by rw [hs, List.flatten_cons]
  have hd : (scope.map Binding.slot).Nodup := by
    have := hP.distinct
    rw [hflat, List.map_append] at this
    exact this.of_append_left
  rw [dead, hs, List.headD_cons, deadBindings_eq [] scope [] (fun _ => Iff.rfl) hd]
  refine List.filter_congr fun b hb => congrArg _ ?_
  have hslot : P.MayMean (.own b) := (hP.below b (hflat ▸ List.mem_append_left _ hb)).1
  have hmem : .own b ∈ stmtsOccurrences P rest ↔
      scope.find? (fun c => c.name == b.name) = some b ∧ ∃ u ∈ blockUses [] rest,
      u.name = b.name := by
    rw [mem_stmtsOccurrences hP hslot rest h, ← meaning_eq_own hs hb]
    constructor
    · rintro ⟨name, ⟨u, hu, rfl⟩, hm⟩
      have hname := name_of_own hm
      exact ⟨hname ▸ hm, u, hu, hname.symm⟩
    · rintro ⟨hm, u, hu, hname⟩
      exact ⟨b.name, ⟨u, hu, hname⟩, hm⟩
  rw [List.nil_append, Bool.eq_iff_iff]
  simp only [Bool.not_eq_true', Bool.and_eq_false_imp, decide_eq_true_eq, hmem, not_and,
    List.any_eq_false, beq_iff_eq, not_exists]

end Point

/-! ## Where the compiler comes to a `collect` -/

namespace Emit

section

variable (ids : Ids) (Q : Emitter → List TStmt → Option Span → Prop)

/-- In a further loop, in a scope of its own. -/
def loopOpened (start : Nat) : Emit Unit := do
  modifyFn fun f => { f with loops := ⟨start, f.scopes.length⟩ :: f.loops }
  openScope

mutual

/-- `Q` holds of every `collect` in a statement: of the state in which the compiler comes to it, and
of the statements that follow it in its block. -/
def StmtCollects (e : Emitter) (start : Nat) (rest : List TStmt) : TStmt → Prop
  | .collect span => Q e rest span
  | .branch condition thenBlock elifs elseBlock span =>
    let (c, atThen) := expr ids start condition e
    let bodyStart := start + c.length + 1
    let (body, afterThen) := inScope span (stmts ids (bodyStart + 1) thenBlock) atThen
    let next := bodyStart + body.length + 1
    let ((middle, _), afterElifs) := elifBranches ids next e.fn.freed span elifs afterThen
    StmtsCollect (openScope atThen).2 (bodyStart + 1) thenBlock ∧
      ElifsCollect e.fn.freed span afterThen next elifs ∧
      ElseCollects (setFreed e.fn.freed afterElifs).2 (next + middle.length) elseBlock
  | .loop condition body _ =>
    let (c, atBody) := expr ids start condition e
    StmtsCollect (loopOpened start atBody).2 (start + c.length + 2) body
  | .block body _ => StmtsCollect (openScope e).2 (start + 1) body
  | .declare _ _ _ _ _ | .assign _ _ _ | .ret _ _ | .breakLoop _ | .continueLoop _ | .free _ _
  | .yieldNow _ | .eval _ _ => True

def StmtsCollect (e : Emitter) (start : Nat) : List TStmt → Prop
  | [] => True
  | s :: rest =>
    let (code, after) := stmt ids start rest s e
    StmtCollects e start rest s ∧ StmtsCollect after (start + code.length) rest

def ElifsCollect (before : Freed) (span : Option Span) (e : Emitter) (start : Nat) :
    List (TExpr × List TStmt) → Prop
  | [] => True
  | (condition, body) :: rest =>
    let (c, atBody) := expr ids start condition (setFreed before e).2
    let bodyStart := start + c.length + 1
    let (code, after) := inScope span (stmts ids (bodyStart + 1) body) atBody
    StmtsCollect (openScope atBody).2 (bodyStart + 1) body ∧
      ElifsCollect before span after (bodyStart + code.length + 1) rest

def ElseCollects (e : Emitter) (start : Nat) : Option (List TStmt) → Prop
  | none => True
  | some body => StmtsCollect (openScope e).2 (start + 1) body

end

end

/-- The `collect` frees, newest first, those bindings of the innermost scope that have not been
freed on some path before and to which nothing in the statements after it leads. -/
def FreesDead (e : Emitter) (rest : List TStmt) (span : Option Span) : Prop :=
  (collect rest span e).1 = ((e.fn.scopes.headD []).filter fun b =>
    (e.fn.freed.lookup b.slot).isNone && decide (.own b ∉ stmtsOccurrences e.fn.point rest)).map
      fun b =>
      .of (.free b.slot) span

/-! ## Every `collect` of a checked program

What a checked program names is in order at each point, so the compiler follows the points of the
tree. -/

variable {ids : Ids} {frees : List (String × Option Span)} {P : Point} {D : List Declaration}
  {F : InitFacts} {e : Emitter}

theorem point_openScope (he : e.fn.point = P) : (openScope e).2.fn.point = P.opened :=
  congrArg Point.opened he

theorem point_loopOpened (start : Nat) (he : e.fn.point = P) :
    (loopOpened start e).2.fn.point = P.inLoop.opened :=
  congrArg (fun Q : Point => Q.inLoop.opened) he

theorem point_setFreed (m : Freed) (he : e.fn.point = P) :
    (setFreed m e).2.fn.point = P.withFreed m :=
  congrArg (Point.withFreed · m) he

theorem point_expr (hP : P.Fine) (start : Nat) {value : TExpr} (hG : value.Grounded ids frees P F)
    (he : e.fn.point = P) : (expr ids start value e).2.fn.point = P :=
  (leads_expr (X := fun _ _ => True) hP start value hG (fun _ _ _ _ _ _ => trivial)
    (fun _ _ _ _ => trivial) e he).1

theorem point_stmt (hP : P.Fine) (ht : P.Tidy) (start : Nat) (rest : List TStmt) {s : TStmt}
    (hG : s.Grounded ids frees P D F) (he : e.fn.point = P) :
    (stmt ids start rest s e).2.fn.point = P.stmt rest s :=
  (leads_stmt (X := fun _ _ => True) hP ht start rest s hG (fun _ _ _ _ _ _ => trivial)
    (fun _ _ => trivial) (fun _ _ _ _ => trivial) e he).1

theorem point_inScope (hP : P.Fine) (ht : P.Tidy) (start : Nat) (span : Option Span)
    {ss : List TStmt} (hG : StmtsGrounded ids frees P.opened D F ss) (he : e.fn.point = P) :
    (inScope span (stmts ids start ss) e).2.fn.point = (P.opened.stmts ss).closed :=
  ((leads_stmts (X := fun _ _ => True) hP.opened ht start ss hG (fun _ _ _ _ _ _ => trivial)
    (fun _ _ => trivial) (fun _ _ _ _ => trivial)).inScope span e he).1

theorem point_elifBranches (before : Freed) (hP : P.Fine) (ht : (P.withFreed before).Tidy)
    (start : Nat) (span : Option Span) {elifs : List (TExpr × List TStmt)}
    (hG : ElifsGrounded ids frees before P D F elifs) (he : e.fn.point = P) :
    (elifBranches ids start before span elifs e).2.fn.point = (P.elifBranches before elifs).1 :=
  (resolves_elifBranches (X := fun _ _ => True) before hP ht start span elifs hG
    (fun _ _ _ _ _ _ => trivial) (fun _ _ => trivial) (fun _ _ _ _ => trivial) e he).1.2

mutual

theorem collects_stmt {P : Point} {D : List Declaration} {F : InitFacts} {e : Emitter} (hP : P.Fine)
    (ht : P.Tidy) (he : e.fn.point = P) (start : Nat) (rest : List TStmt)
    (hrest : AllSealed (stmtsBodies rest)) :
    (s : TStmt) →
    s.Grounded ids frees P D F → AllSealed (stmtBodies s) →
    StmtCollects ids FreesDead e start rest s
  | .collect span, _, _ => by
    subst he
    exact congrArg (List.map fun b : Binding => Line.of (.free b.slot) span)
      (Point.dead_eq hP rest hrest)
  | .branch condition thenBlock elifs elseBlock span, ⟨hGc, hGt, hGm, hGl⟩, hS => by
    simp only [stmtBodies, allSealed_append] at hS
    obtain ⟨⟨⟨-, hSt⟩, hSm⟩, hSl⟩ := hS
    have hthen := Point.beside_block hP thenBlock
    have hslots := (Point.extends_stmts hP.opened thenBlock).slots
    have hmiddle := Point.branches_elifBranches P.freed hthen.fine elifs
    have hlast := (Point.beside_elifBranches hthen.fine P.freed elifs).withFreed P.freed
    have htm : ((P.opened.stmts thenBlock).closed.withFreed P.freed).Tidy := fun slot s hl =>
      (ht slot s hl).trans_le hslots
    have htl : ((Point.elifBranches P.freed (P.opened.stmts thenBlock).closed
        elifs).1.withFreed P.freed).Tidy :=
      fun slot s hl => (htm slot s hl).trans_le hmiddle.slots
    have hbefore : e.fn.freed = P.freed := congrArg Point.freed he
    have hc := point_expr hP start hGc he
    have hafter :=
      point_inScope hP ht (start + (expr ids start condition e).1.length + 1 + 1) span hGt hc
    refine ⟨collects_stmts hP.opened ht (point_openScope hc) _ thenBlock hGt hSt, ?_, ?_⟩
    · rw [hbefore]
      exact collects_elifs P.freed hthen.fine htm hafter _ span elifs hGm hSm
    · rw [hbefore]
      have hend := point_elifBranches P.freed hthen.fine htm
        (start + (expr ids start condition e).1.length + 1 + (inScope span
          (stmts ids (start + (expr ids start condition e).1.length + 1 + 1) thenBlock)
          (expr ids start condition e).2).1.length + 1) span hGm hafter
      exact collects_else hlast.fine htl (point_setFreed P.freed hend) _ elseBlock hGl hSl
  | .loop condition body span, ⟨hGc, hGb⟩, hS => by
    simp only [stmtBodies, allSealed_append] at hS
    have hc := point_expr hP start hGc he
    exact collects_stmts hP.inLoop_opened ht (point_loopOpened start hc) _ body hGb hS.2
  | .block body span, hG, hS => collects_stmts hP.opened ht (point_openScope he) _ body hG hS
  | .declare _ _ _ _ _, _, _ | .assign _ _ _, _, _ | .ret _ _, _, _ | .breakLoop _, _, _
  | .continueLoop _, _, _ | .free _ _, _, _ | .yieldNow _, _, _ | .eval _ _, _, _ => trivial

theorem collects_stmts {P : Point} {D : List Declaration} {F : InitFacts} {e : Emitter}
    (hP : P.Fine) (ht : P.Tidy) (he : e.fn.point = P)
    (start : Nat) : (ss : List TStmt) → StmtsGrounded ids frees P D F ss →
    AllSealed (stmtsBodies ss) → StmtsCollect ids FreesDead e start ss
  | [], _, _ => trivial
  | s :: rest, ⟨hGs, hGr⟩, hS => by
    obtain ⟨hSs, hSr⟩ := allSealed_append.1 hS
    have hnext := point_stmt hP ht start rest hGs he
    exact ⟨collects_stmt hP ht he start rest hSr s hGs hSs,
      collects_stmts (hP.extend (Point.extends_stmt hP rest s))
      (Point.tidy_stmt hP ht rest s) hnext _ rest hGr hSr⟩

theorem collects_elifs {P : Point} {D : List Declaration} {F : InitFacts} {e : Emitter}
    (before : Freed) (hP : P.Fine) (ht : (P.withFreed before).Tidy) (he : e.fn.point = P)
    (start : Nat) (span : Option Span) :
    (elifs : List (TExpr × List TStmt)) → ElifsGrounded ids frees before P D F elifs →
    AllSealed (elifsBodies elifs) → ElifsCollect ids FreesDead before span e start elifs
  | [], _, _ => trivial
  | (condition, body) :: rest, ⟨hGc, hGb, hGr⟩, hS => by
    simp only [elifsBodies, allSealed_append] at hS
    obtain ⟨⟨-, hSb⟩, hSr⟩ := hS
    have hb : (P.withFreed before).Fine := hP.of_same rfl le_rfl rfl
    have hslots := (Point.extends_stmts hb.opened body).slots
    have htr : (((P.withFreed before).opened.stmts body).closed.withFreed before).Tidy :=
      fun slot s hl =>
      (ht slot s hl).trans_le hslots
    have hc := point_expr hb start hGc (point_setFreed before he)
    have hafter := point_inScope hb ht
      (start + (expr ids start condition (setFreed before e).2).1.length + 1 + 1) span hGb hc
    exact ⟨collects_stmts hb.opened ht (point_openScope hc) _ body hGb hSb,
      collects_elifs before (Point.beside_block hb body).fine htr hafter _ span rest hGr hSr⟩

theorem collects_else {P : Point} {D : List Declaration} {F : InitFacts} {e : Emitter} (hP : P.Fine)
    (ht : P.Tidy) (he : e.fn.point = P) (start : Nat) : (elseBlock : Option (List TStmt)) →
    ElseGrounded ids frees P D F elseBlock →
    AllSealed (elseBodies elseBlock) → ElseCollects ids FreesDead e start elseBlock
  | none, _, _ => trivial
  | some body, hG, hS => collects_stmts hP.opened ht (point_openScope he) _ body hG hS

end

end Emit

/-! Lambdas in a lambda are among those around it. -/

mutual

theorem bodies_subset_expr {b : Body} : (e : TExpr) → b ∈ exprBodies e →
    stmtsBodies b.stmts ⊆ exprBodies e
  | .mk kind _ _, h => bodies_subset_kind kind h

theorem bodies_subset_kind {b : Body} {span : Option Span} : (k : TKind) → b ∈ kindBodies span k →
    stmtsBodies b.stmts ⊆ kindBodies span k
  | .binary _ left right, h | .logical _ left right, h => by
    rcases List.mem_append.1 h with h | h
    · exact List.subset_append_of_subset_left _ (bodies_subset_expr left h)
    · exact List.subset_append_of_subset_right _ (bodies_subset_expr right h)
  | .unary _ operand, h => bodies_subset_expr operand h
  | .call _ args, h => bodies_subset_exprs args h
  | .callValue callee args, h | .callDynamic callee args, h => by
    rcases List.mem_append.1 h with h | h
    · exact List.subset_append_of_subset_left _ (bodies_subset_expr callee h)
    · exact List.subset_append_of_subset_right _ (bodies_subset_exprs args h)
  | .callMethodDynamic _ args, h => bodies_subset_exprs args h
  | .field object _ _, h => bodies_subset_expr object h
  | .structInit _ values, h => bodies_subset_exprs values h
  | .lambda _ _ body _, h => by
    rcases List.mem_append.1 h with h | h
    · exact List.subset_append_of_subset_left _ (bodies_subset_stmts body h)
    · cases List.mem_singleton.1 h
      exact List.subset_append_left _ _
  | .spawn _ args, h => bodies_subset_exprs args h
  | .await task, h => bodies_subset_expr task h
  | .box inner, h | .unbox inner, h | .cast inner, h => bodies_subset_expr inner h
  | .format parts, h => bodies_subset_exprs parts h

theorem bodies_subset_exprs {b : Body} : (es : List TExpr) → b ∈ exprsBodies es →
    stmtsBodies b.stmts ⊆ exprsBodies es
  | e :: rest, h => by
    rcases List.mem_append.1 h with h | h
    · exact List.subset_append_of_subset_left _ (bodies_subset_expr e h)
    · exact List.subset_append_of_subset_right _ (bodies_subset_exprs rest h)

theorem bodies_subset_stmt {b : Body} : (s : TStmt) → b ∈ stmtBodies s →
    stmtsBodies b.stmts ⊆ stmtBodies s
  | .declare _ _ _ (some value) _, h => bodies_subset_expr value h
  | .assign _ value _, h => bodies_subset_expr value h
  | .branch condition thenBlock elifs elseBlock _, h => by
    simp only [stmtBodies, List.mem_append] at h
    rcases h with ((h | h) | h) | h
    · exact fun _ hb => List.mem_append_left _
        (List.mem_append_left _ (List.mem_append_left _ (bodies_subset_expr condition h hb)))
    · exact fun _ hb => List.mem_append_left _
        (List.mem_append_left _ (List.mem_append_right _ (bodies_subset_stmts thenBlock h hb)))
    · exact fun _ hb =>
        List.mem_append_left _ (List.mem_append_right _ (bodies_subset_elifs elifs h hb))
    · exact fun _ hb => List.mem_append_right _ (bodies_subset_else elseBlock h hb)
  | .loop condition body _, h => by
    rcases List.mem_append.1 h with h | h
    · exact List.subset_append_of_subset_left _ (bodies_subset_expr condition h)
    · exact List.subset_append_of_subset_right _ (bodies_subset_stmts body h)
  | .block body _, h => bodies_subset_stmts body h
  | .ret (some value) _, h => bodies_subset_expr value h
  | .eval value _, h => bodies_subset_expr value h

theorem bodies_subset_stmts {b : Body} : (ss : List TStmt) → b ∈ stmtsBodies ss →
    stmtsBodies b.stmts ⊆ stmtsBodies ss
  | s :: rest, h => by
    rcases List.mem_append.1 h with h | h
    · exact List.subset_append_of_subset_left _ (bodies_subset_stmt s h)
    · exact List.subset_append_of_subset_right _ (bodies_subset_stmts rest h)

theorem bodies_subset_elifs {b : Body} : (elifs : List (TExpr × List TStmt)) →
    b ∈ elifsBodies elifs → stmtsBodies b.stmts ⊆ elifsBodies elifs
  | (condition, body) :: rest, h => by
    simp only [elifsBodies, List.mem_append] at h
    rcases h with (h | h) | h
    · exact fun _ hb =>
        List.mem_append_left _ (List.mem_append_left _ (bodies_subset_expr condition h hb))
    · exact fun _ hb =>
        List.mem_append_left _ (List.mem_append_right _ (bodies_subset_stmts body h hb))
    · exact fun _ hb => List.mem_append_right _ (bodies_subset_elifs rest h hb)

theorem bodies_subset_else {b : Body} : (elseBlock : Option (List TStmt)) →
    b ∈ elseBodies elseBlock → stmtsBodies b.stmts ⊆ elseBodies elseBlock
  | some body, h => bodies_subset_stmts body h

end

theorem AllSealed.of_body {t : TProgram} (h : ∀ f ∈ t.functions, AllSealed (stmtsBodies f.body))
    {b : Body} (hb : b ∈ t.bodies) : AllSealed (stmtsBodies b.stmts) := by
  obtain ⟨f, hf, hb⟩ := List.mem_flatMap.1 hb
  rcases List.mem_cons.1 hb with rfl | hb
  · exact h f hf
  · exact fun c hc => h f hf c (bodies_subset_stmts f.body hb hc)

/-- In every function, method and lambda of an accepted program, from whatever was compiled before,
each `collect` frees exactly the bindings of its scope that have not been freed and to which nothing
after it in its block leads. -/
theorem Program.collects_dead {p : Program} {natives : List (String × Signature)} {t : TProgram}
    (h : p.check natives = .ok t) {b : Body} (hb : b ∈ t.bodies) (name : String) (e : Emitter) :
    Emit.StmtsCollect (.ofProgram t) Emit.FreesDead
      (Emit.declareParams b.params { e with fn := .start name b.captures }).2 0 b.stmts := by
  have hpoint : (Emit.declareParams b.params { e with fn := .start name b.captures }).2.fn.point =
      .start b :=
    (Emit.leads_declareParams (X := fun _ _ => True) b.params _ _ rfl).1
  exact Emit.collects_stmts (Point.fine_start b) (Emit.tidy_start b) hpoint 0 b.stmts
    (p.check_grounded h b hb) (.of_body (Program.check_sealed h) hb)

/-! A program with a binding that only a lambda after the `collect` uses, and one that nothing uses.
-/

def collectsOne : Program where
  items := [.function {
    name := "main", params := [], ret := none, isAsync := false, span := none
    body := [.declare "a" false none (some (.int 1 none)) none,
      .declare "b" false none (some (.int 2 none)) none, .collect none,
      .eval (.call (.lambda [] none [.eval (.name "a" none) none] none) [] none) none] }]
  source := none

def collectsOneMain : TFunction where
  name := "main"
  params := []
  ret := .void
  body := [.declare "a" false .int (some (.mk (.int 1) .int none)) none,
    .declare "b" false .int (some (.mk (.int 2) .int none)) none, .collect none,
    .eval (.mk (.callValue (.mk (.lambda [] .void [.eval (.mk (.binding "a") .int none) none] ["a"])
      (.function [] .void) none) []) .void none) none]
  isAsync := false
  span := none

theorem check_collectsOne : collectsOne.check [] = .ok ⟨[], [collectsOneMain], none⟩ := by
  cbv

theorem collectsOne_frees_b :
    Emit.StmtsCollect (.ofProgram ⟨[], [collectsOneMain], none⟩) Emit.FreesDead
      (Emit.declareParams [] { Emitter.start 1 with fn := .start "main" [] }).2 0
        collectsOneMain.body ∧
    ((Emit.stmts (.ofProgram ⟨[], [collectsOneMain], none⟩) 0 collectsOneMain.body
      { Emitter.start 1 with fn := .start "main" [] }).1.map Line.instr).take 5 =
        [.const 0, .declare 0, .const 1, .declare 1, .free 1] :=
  ⟨Program.collects_dead (b := collectsOneMain.toBody) check_collectsOne List.mem_cons_self
    "main" (.start 1), by cbv⟩

end ScopedScript
